import AbiCalls.Error
import AbiCalls.Json.Mismatch
import AbiCalls.Text.Blank
import AbiCalls.Text.Hex

namespace AbiCalls

def addressSize : Nat := 20

structure Address where
  bytes : List UInt8
  size_eq : bytes.length = addressSize
  deriving DecidableEq

inductive AddressFault
  | unmarked
  | badDigits (fault : HexFault)

def HexFault.message : HexFault → String
  | .oddLength => "Odd number of digits"
  | .wrongLength => "Invalid string length"
  | .badDigit digit position =>
    "Invalid character " ++ quotedBy '\'' [Char.ofNat digit.toNat] ++ " at position " ++ position.repr

def AddressFault.toError (text : String) : AddressFault → Error
  | .unmarked => .stated .badData ("address " ++ tickQuoted text ++ " is missing 0x prefix")
  | .badDigits fault =>
    .introduced .badData ("invalid address " ++ tickQuoted text) (.plain .other fault.message)

namespace Address

def zero : Address :=
  ⟨List.replicate addressSize 0, rfl⟩

def unmarked? : List Char → Option (List Char)
  | '0' :: 'x' :: digits => some digits
  | '0' :: 'X' :: digits => some digits
  | _ => none

def ofChars (cs : List Char) : Except AddressFault Address :=
  match unmarked? (trimBlanks cs) with
  | none => .error .unmarked
  | some digits =>
    match h : bytesOfHex addressSize (digits.flatMap String.utf8EncodeChar) with
    | .error fault => .error (.badDigits fault)
    | .ok bytes => .ok ⟨bytes, length_of_bytesOfHex h⟩

def ofText (text : String) : Except Error Address :=
  match ofChars text.toList with
  | .error fault => .error (fault.toError text)
  | .ok address => .ok address

def chars (a : Address) : List Char :=
  '0' :: 'x' :: hexOfBytes a.bytes

def text (a : Address) : String :=
  String.ofList a.chars

def toJson (a : Address) : Json :=
  .str a.text

def ofJson (value : Json) : Except Mismatch Address := do
  let text ← value.asText
  match ofText text with
  | .error e => .error (.refused e.text)
  | .ok address => .ok address

def detailed (a : Address) : String :=
  "Address([" ++ ", ".intercalate (a.bytes.map fun byte => byte.toNat.repr) ++ "])"

def detailed? : Option Address → String
  | none => "None"
  | some a => "Some(" ++ a.detailed ++ ")"

/-- The order of the bytes, which is also the order of the texts. -/
def le (a b : Address) : Bool :=
  decide (¬b.bytes < a.bytes)

end Address

/-- Names an address for a contract where its callers give none. -/
abbrev DefaultAddresses := NameMap Address

def DefaultAddresses.ofTexts (entries : List (String × String)) : Except Error DefaultAddresses :=
  entries.foldlM (fun defaults entry => do
    return NameMap.insert defaults entry.1 (← Address.ofText entry.2)) .empty

structure TransactionId where
  text : String
  deriving DecidableEq

def TransactionId.toJson (h : TransactionId) : Json :=
  .str h.text

def TransactionId.ofJson (value : Json) : Except Mismatch TransactionId := do
  return ⟨← value.asText⟩

end AbiCalls
