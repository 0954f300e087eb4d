namespace AbiCalls

inductive WholeFault
  | empty
  | badDigit
  | tooLarge
  deriving DecidableEq, Repr

def WholeFault.message : WholeFault → String
  | .empty => "cannot parse integer from empty string"
  | .badDigit => "invalid digit found in string"
  | .tooLarge => "number too large to fit in target type"

def digitValue (c : Char) : Nat :=
  c.toNat - '0'.toNat

/-- Takes in digits from the left. The first of them that is none, or that makes the number too large,
decides the fault. -/
def wholeOfDigits (value : Nat) : List Char → Except WholeFault Nat
  | [] => .ok value
  | c :: rest =>
    if c.isDigit then
      let next := 10 * value + digitValue c
      if next < UInt64.size then wholeOfDigits next rest else .error .tooLarge
    else .error .badDigit

def wholeOfChars : List Char → Except WholeFault Nat
  | [] => .error .empty
  | ['+'] => .error .badDigit
  | '+' :: digits => wholeOfDigits 0 digits
  | digits => wholeOfDigits 0 digits

end AbiCalls
