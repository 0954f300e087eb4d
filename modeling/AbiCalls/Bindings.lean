import AbiCalls.Abi.Decoding
import Std.Data.HashMap

namespace AbiCalls

/-- A factory matters by its ABI only; other values are kept as they are. -/
inductive Binding
  | factory (abi : Abi)
  | other (value : Json)

structure Bindings where
  entries : Array (String × Binding) := #[]
  index : Std.HashMap String Nat := {}

namespace Bindings

def empty : Bindings := {}

/-- A name that is already there keeps its place and gets the new value. -/
def insert (b : Bindings) (name : String) (value : Binding) : Bindings :=
  match b.index[name]? with
  | some place => { b with entries := b.entries.modify place fun entry => (entry.1, value) }
  | none => ⟨b.entries.push (name, value), b.index.insert name b.entries.size⟩

def ofList (entries : List (String × Binding)) : Bindings :=
  entries.foldl (fun b entry => b.insert entry.1 entry.2) empty

def get? (b : Bindings) (name : String) : Option Binding :=
  match b.index[name]? with
  | some place => b.entries[place]?.map Prod.snd
  | none => none

def toList (b : Bindings) : List (String × Binding) :=
  b.entries.toList

def size (b : Bindings) : Nat :=
  b.entries.size

end Bindings

def factoryMark : List Char := ['_', '_', 'f', 'a', 'c', 't', 'o', 'r', 'y']

/-- The name of the contract that a factory of that name is for; the ending is taken off once. -/
def contractName? (bindingName : String) : Option String :=
  let cs := bindingName.toList
  if factoryMark.isSuffixOf cs then some (String.ofList (cs.take (cs.length - factoryMark.length)))
  else none

namespace Binding

/-- A value under the name of a factory has to hold an ABI. -/
def ofField (name : String) (value : Json) : Except Error Binding :=
  match contractName? name with
  | none => .ok (.other value)
  | some _ =>
    let abi :=
      match value with
      | .object fields => fields.lookup "abi"
      | _ => none
    match abi with
    | none =>
      .error (.stated .badData ("factory export " ++ tickQuoted name ++ " has no abi"))
    | some abi => do return .factory (← Abi.ofJson abi)

end Binding

namespace Bindings

def addFields (b : Bindings) : List (String × Json) → Except Error Bindings
  | [] => .ok b
  | (name, value) :: rest => do addFields (b.insert name (← Binding.ofField name value)) rest

def ofJson : Json → Except Error Bindings
  | .object fields => addFields empty fields
  | value =>
    .error (.stated .badData ("exports must be a JSON object, got: " ++ value.compact))

def ofText (text : String) : Except Error Bindings := do
  ofJson (← Json.ofTextOrError text)

end Bindings

end AbiCalls
