import AbiCalls.Address
import AbiCalls.Json.Mismatch

namespace AbiCalls

inductive ResultType
  | word
  | byte
  | signedWord
  | bool
  | text
  | address
  | optionalWord
  | words
  | texts
  | pair
  | namedWords
  | nothing
  | any
  deriving DecidableEq, Repr

namespace ResultType

def readInt (range : IntRange) (value : Json) : Except Mismatch Json := do
  return .int (← value.asIntIn range)

def readText (value : Json) : Except Mismatch Json := do
  return .str (← value.asText)

def readPair : Json → Except Mismatch Json
  | .list items => do
    match items with
    | [] => .error (.wrongLength 0 pairText)
    | first :: rest =>
      let first ← readInt .word first
      match rest with
      | [] => .error (.wrongLength 1 pairText)
      | second :: rest =>
        let second ← readText second
        if rest.isEmpty then return .list [first, second]
        else .error (.wrongLength items.length fewerItems)
  | value => .error (.wrongType value pairText)
where
  pairText : String := "a tuple of size 2"

def read : ResultType → Json → Except Mismatch Json
  | .word, value => readInt .word value
  | .byte, value => readInt .byte value
  | .signedWord, value => readInt .signedWord value
  | .bool, value => do return .bool (← value.asBool)
  | .text, value => readText value
  | .address, value => do return (← Address.ofJson value).toJson
  | .optionalWord, value => do return (← value.asOptional (readInt .word)).getD .null
  | .words, value => do return .list (← (← value.asItems).mapM (readInt .word))
  | .texts, value => do return .list (← (← value.asItems).mapM readText)
  | .pair, value => readPair value
  | .namedWords, value =>
    match value with
    | .object fields => do
      return .object (← fields.mapM fun field => do return (field.1, ← readInt .word field.2))
    | other => .error (.wrongType other "a map")
  | .nothing, value =>
    match value with
    | .null => .ok .null
    | other => .error (.wrongType other "unit")
  | .any, value => .ok value

end ResultType

end AbiCalls
