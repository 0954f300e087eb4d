import AbiCalls.Json.Printer
import AbiCalls.Text.Quoted

namespace AbiCalls

inductive Mismatch
  | wrongType (got : Json) (wanted : String)
  | outOfRange (got : Int) (wanted : String)
  | wrongLength (length : Nat) (wanted : String)
  | missingField (name : String)
  | repeatedField (name : String)
  | unknownVariant (name : String) (known : List String)
  | notOneField
  | refused (reason : String)

namespace Json

def described : Json → String
  | .null => "null"
  | .bool value => "boolean `" ++ (if value then "true" else "false") ++ "`"
  | .int value => "integer `" ++ String.ofList (decimalOfInt value) ++ "`"
  | .float value => "floating point `" ++ String.ofList (decimalOfFloat value) ++ "`"
  | .str text => "string " ++ quotedText text
  | .list _ => "sequence"
  | .object _ => "map"

end Json

def tickQuoted (text : String) : String := "`" ++ text ++ "`"

def Mismatch.message : Mismatch → String
  | .wrongType got wanted => "invalid type: " ++ got.described ++ ", expected " ++ wanted
  | .outOfRange got wanted =>
    "invalid value: " ++ (Json.int got).described ++ ", expected " ++ wanted
  | .wrongLength length wanted => "invalid length " ++ length.repr ++ ", expected " ++ wanted
  | .missingField name => "missing field " ++ tickQuoted name
  | .repeatedField name => "duplicate field " ++ tickQuoted name
  | .unknownVariant name known =>
    "unknown variant " ++ tickQuoted name ++ ", expected one of "
      ++ ", ".intercalate (known.map tickQuoted)
  | .notOneField => "invalid value: map, expected map with a single key"
  | .refused reason => reason

structure IntRange where
  name : String
  least : Int
  greatest : Int

namespace IntRange

def byte : IntRange := ⟨"u8", 0, 255⟩

def word : IntRange := ⟨"u64", 0, 18446744073709551615⟩

def signedWord : IntRange := ⟨"i64", -9223372036854775808, 9223372036854775807⟩

end IntRange

def fewerItems : String := "fewer elements in array"

namespace Json

def asText : Json → Except Mismatch String
  | .str text => .ok text
  | value => .error (.wrongType value "a string")

def asBool : Json → Except Mismatch Bool
  | .bool value => .ok value
  | value => .error (.wrongType value "a boolean")

def asItems : Json → Except Mismatch (List Json)
  | .list items => .ok items
  | value => .error (.wrongType value "a sequence")

/-- Null stands for nothing. -/
def asOptional {α : Type} (read : Json → Except Mismatch α) : Json → Except Mismatch (Option α)
  | .null => .ok none
  | value => do return some (← read value)

def asIntIn (range : IntRange) : Json → Except Mismatch Int
  | .int value =>
    if range.least ≤ value ∧ value ≤ range.greatest then .ok value
    else .error (.outOfRange value range.name)
  | value => .error (.wrongType value range.name)

def asUInt64 (value : Json) : Except Mismatch UInt64 := do
  return UInt64.ofNat (← value.asIntIn .word).toNat

end Json

end AbiCalls
