import AbiCalls.Cache

namespace AbiCalls

structure Scope where
  edition : Option Edition := none

class HasScope (σ : Type) where
  scope : σ → Scope
  withScope : σ → Scope → σ

namespace Scope

def outside : Error :=
  .stated .configuration
    "there are no contracts in scope: need to be ran from within `provider::scope`"

def find (s : Scope) : Except Error Edition :=
  match s.edition with
  | some edition => .ok edition
  | none => .error outside

/-- Runs something with contracts in the slot, and then puts back what was there. -/
def within {σ α : Type} [HasScope σ] (edition : Edition) (piece : StateM σ α) : StateM σ α := do
  let outer := HasScope.scope (← get)
  modify fun s => HasScope.withScope s ⟨some edition⟩
  let result ← piece
  modify fun s => HasScope.withScope s outer
  return result

end Scope

end AbiCalls
