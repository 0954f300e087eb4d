import AbiCalls.Contract

namespace AbiCalls

/-- Bound contracts with a serial number, which tells apart what was bound at different times. -/
structure Edition where
  serial : Nat
  contracts : Contracts

structure ContractCache where
  catalog : Catalog
  current : Option (Context × Edition) := none

namespace ContractCache

def isStale (c : ContractCache) (ctx : Context) : Bool :=
  match c.current with
  | some (last, _) => !last.agrees ctx
  | none => true

/-- The contracts for a context. If they have to be bound anew, they get the serial number given. -/
def refresh (c : ContractCache) (ctx : Context) (serial : Nat) : Edition × ContractCache :=
  let fresh : Edition := ⟨serial, c.catalog.bind ctx⟩
  match c.current with
  | some (last, kept) =>
    if last.agrees ctx then (kept, c) else (fresh, { c with current := some (ctx, fresh) })
  | none => (fresh, { c with current := some (ctx, fresh) })

def refreshNotices (c : ContractCache) (ctx : Context) : List Notice :=
  if c.isStale ctx then .rebinding ctx.caller :: c.catalog.bindNotices else []

def neverRefreshed : Error :=
  .stated .configuration "contracts provider has no execution context yet"

def latest (c : ContractCache) : Except Error Edition :=
  match c.current with
  | some (_, edition) => .ok edition
  | none => .error neverRefreshed

end ContractCache

end AbiCalls
