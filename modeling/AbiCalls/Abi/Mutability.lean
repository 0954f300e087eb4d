import AbiCalls.Json.Mismatch

namespace AbiCalls

inductive Mutability
  | pure
  | view
  | nonpayable
  | payable
  deriving DecidableEq, Repr

/-- Reads ask for an answer; writes are simulated and then submitted. -/
inductive Access
  | read
  | write
  deriving DecidableEq, Repr

namespace Mutability

def access : Mutability → Access
  | .pure | .view => .read
  | .nonpayable | .payable => .write

def isReadOnly (m : Mutability) : Bool :=
  m.access = .read

def name : Mutability → String
  | .pure => "pure"
  | .view => "view"
  | .nonpayable => "nonpayable"
  | .payable => "payable"

def all : List Mutability := [.pure, .view, .nonpayable, .payable]

def ofName? (name : String) : Option Mutability :=
  all.find? fun m => m.name = name

def ofFlags (constant payable : Option Bool) : Mutability :=
  if payable = some true then .payable
  else if constant = some true then .view
  else .nonpayable

def ofVariant (name : String) : Except Mismatch Mutability :=
  match ofName? name with
  | some m => .ok m
  | none => .error (.unknownVariant name (all.map Mutability.name))

/-- The name alone, or an object whose one field has that name and holds null. -/
def ofJson : Json → Except Mismatch Mutability
  | .str name => ofVariant name
  | .object [(name, content)] => do
    let m ← ofVariant name
    match content with
    | .null => return m
    | other => .error (.wrongType other "unit")
  | .object _ => .error .notOneField
  | other => .error (.wrongType other "string or map")

def toJson (m : Mutability) : Json :=
  .str m.name

theorem ofName?_name (m : Mutability) : ofName? m.name = some m := by
  cases m <;> rfl

end Mutability

end AbiCalls
