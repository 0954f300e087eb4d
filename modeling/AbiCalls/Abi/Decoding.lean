import AbiCalls.Abi.Member
import AbiCalls.Error
import AbiCalls.Json.Reader

namespace AbiCalls

structure Param.Draft where
  name : String := ""
  type : Option String := none
  internalType : Option String := none
  components : List Param := []
  indexed : Option Bool := none

namespace Param

def fieldNames : List String := ["name", "type", "internalType", "components", "indexed"]

def Draft.set (d : Draft) (name : String) (value : Json) : Except Mismatch Draft :=
  if name = "name" then do return { d with name := ← value.asText }
  else if name = "type" then do return { d with type := some (← value.asText) }
  else if name = "internalType" then do
    return { d with internalType := ← value.asOptional Json.asText }
  else if name = "indexed" then do return { d with indexed := ← value.asOptional Json.asBool }
  else .ok d

/-- A parameter needs a type; `missing` is the fault of one without. -/
def Draft.finish (d : Draft) (missing : Mismatch) : Except Mismatch Param :=
  match d.type with
  | some type => .ok ⟨d.name, type, d.internalType, d.components, d.indexed⟩
  | none => .error missing

mutual

def ofJson : Json → Except Mismatch Param
  | .object fields => do
    let draft ← draftOfFields {} fields
    draft.finish (.missingField "type")
  | .list items => do
    let draft ← draftOfItems {} fieldNames items
    let param ← draft.finish (.wrongLength 1 "struct Param with 5 elements")
    if items.length ≤ fieldNames.length then return param
    else .error (.wrongLength items.length fewerItems)
  | value => .error (.wrongType value "struct Param")

def draftOfFields (d : Draft) : List (String × Json) → Except Mismatch Draft
  | [] => .ok d
  | (name, value) :: rest => do draftOfFields (← draftWith d name value) rest

def draftOfItems (d : Draft) (names : List String) : List Json → Except Mismatch Draft
  | [] => .ok d
  | value :: rest =>
    match names with
    | [] => .ok d
    | name :: names => do draftOfItems (← draftWith d name value) names rest

def draftWith (d : Draft) (name : String) : Json → Except Mismatch Draft
  | .list items =>
    if name = "components" then do return { d with components := ← ofItems items }
    else d.set name (.list items)
  | value =>
    if name = "components" then .error (.wrongType value "a sequence") else d.set name value

def ofItems : List Json → Except Mismatch (List Param)
  | [] => .ok []
  | item :: rest => do
    let param ← ofJson item
    let params ← ofItems rest
    return param :: params

end

def decodeList (value : Json) : Except Mismatch (List Param) := do
  ofItems (← value.asItems)

end Param

/-- The fields of a member that have been read so far. All of them are looked at, whichever the member
turns out to need. -/
structure Member.Draft where
  type : Option String := none
  name : Option String := none
  inputs : List Param := []
  outputs : List Param := []
  mutability : Option Mutability := none
  constant : Option Bool := none
  payable : Option Bool := none
  anonymous : Bool := false

namespace Member

def fieldNames : List String :=
  ["type", "name", "inputs", "outputs", "stateMutability", "constant", "payable", "anonymous"]

def Draft.set (d : Draft) (name : String) (value : Json) : Except Mismatch Draft :=
  if name = "type" then do return { d with type := ← value.asOptional Json.asText }
  else if name = "name" then do return { d with name := ← value.asOptional Json.asText }
  else if name = "inputs" then do return { d with inputs := ← Param.decodeList value }
  else if name = "outputs" then do return { d with outputs := ← Param.decodeList value }
  else if name = "stateMutability" then do
    return { d with mutability := ← value.asOptional Mutability.ofJson }
  else if name = "constant" then do return { d with constant := ← value.asOptional Json.asBool }
  else if name = "payable" then do return { d with payable := ← value.asOptional Json.asBool }
  else if name = "anonymous" then do return { d with anonymous := ← value.asBool }
  else .ok d

def draftOfFields (fields : List (String × Json)) : Except Mismatch Draft :=
  fields.foldlM (fun d field => d.set field.1 field.2) {}

def draftOfJson : Json → Except Mismatch Draft
  | .object fields => draftOfFields fields
  | .list items => do
    let draft ← draftOfFields (fieldNames.zip items)
    if items.length ≤ fieldNames.length then return draft
    else .error (.wrongLength items.length fewerItems)
  | value => .error (.wrongType value "struct RawAbiItem")

def Draft.properName (d : Draft) (type : String) : Except Mismatch String :=
  match d.name with
  | some name =>
    if name.toList.all isBlank then .error (.refused (unnamed type)) else .ok name
  | none => .error (.refused (unnamed type))
where
  unnamed (type : String) : String := "abi " ++ type ++ " entry must include a non-empty name"

/-- Without a stated mutability, the two flags of older descriptions decide. -/
def Draft.effectiveMutability (d : Draft) : Mutability :=
  d.mutability.getD (.ofFlags d.constant d.payable)

/-- A member without a type is a function. -/
def Draft.finish (d : Draft) : Except Mismatch Member :=
  let type := d.type.getD "function"
  if type = "function" then do
    return .function ⟨← d.properName type, d.inputs, d.outputs, d.effectiveMutability⟩
  else if type = "event" then do return .event (← d.properName type) d.inputs d.anonymous
  else if type = "error" then do return .error (← d.properName type) d.inputs
  else if type = "constructor" then .ok (.constructor d.inputs d.effectiveMutability)
  else if type = "fallback" then .ok (.fallback d.effectiveMutability)
  else if type = "receive" then .ok (.receive d.effectiveMutability)
  else .ok (.other type)

def ofJson (value : Json) : Except Mismatch Member := do
  (← draftOfJson value).finish

end Member

def Mismatch.toError (m : Mismatch) : Error :=
  .carrying .badData (.plain .json m.message)

def JsonFault.toError (fault : JsonFault) : Error :=
  .carrying .badData (.plain .json fault.message)

def Json.ofTextOrError (text : String) : Except Error Json :=
  match Json.ofText text with
  | .ok value => .ok value
  | .error fault => .error fault.toError

namespace Abi

def ofMembers (value : Json) : Except Mismatch Abi := do
  let items ← value.asItems
  return ⟨← items.mapM Member.ofJson⟩

def ofList (value : Json) : Except Error Abi :=
  match ofMembers value with
  | .ok abi => .ok abi
  | .error m => .error m.toError

/-- Reads a list of members, or an object that holds one in its field `abi`. -/
def ofJson : Json → Except Error Abi
  | .object fields =>
    match fields.lookup "abi" with
    | some members => ofList members
    | none =>
      .error (.stated .badData
        "abi json must be an array or an object containing an `abi` array")
  | value => ofList value

def ofText (text : String) : Except Error Abi := do
  ofJson (← Json.ofTextOrError text)

end Abi

end AbiCalls
