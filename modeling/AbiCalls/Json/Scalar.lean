import AbiCalls.Json.Basic
import AbiCalls.Json.Fault
import AbiCalls.Text.Symbol
import AbiCalls.Text.Whole

namespace AbiCalls

abbrev Input := List Symbol

abbrev Reader (α : Type) := Input → Except JsonFault (α × Input)

def Symbol.isJsonBlank : Symbol → Bool
  | .char c => c = ' ' || c = '\t' || c = '\n' || c = '\r'
  | .stray => false

def skipBlanks (input : Input) : Input :=
  input.dropWhile Symbol.isJsonBlank

def readWord : List Char → Input → Except JsonFault Input
  | [], input => .ok input
  | _ :: _, [] => .error .endInValue
  | c :: word, s :: rest => if s = .char c then readWord word rest else .error .expectedWord

def Symbol.digit? : Symbol → Option Char
  | .char c => if c.isDigit then some c else none
  | .stray => none

def takeDigits : Input → List Char × Input
  | [] => ([], [])
  | s :: rest =>
    match s.digit? with
    | some c => let (digits, after) := takeDigits rest; (c :: digits, after)
    | none => ([], s :: rest)

structure NumberText where
  whole : List Char
  fraction : Option (List Char)
  power : Option (Bool × List Char)

/-- Digits of which at least one is due; `atEnd` is the fault if nothing is left. -/
def readSomeDigits (atEnd : JsonFault) : Reader (List Char) := fun input =>
  match takeDigits input with
  | ([], []) => .error atEnd
  | ([], _ :: _) => .error .badNumber
  | (digits, rest) => .ok (digits, rest)

def readWhole (atEnd : JsonFault) : Reader (List Char) := fun input =>
  match readSomeDigits atEnd input with
  | .error fault => .error fault
  | .ok ('0' :: _ :: _, _) => .error .badNumber
  | .ok (digits, rest) => .ok (digits, rest)

def readFraction (atEnd : JsonFault) : Reader (Option (List Char)) := fun input =>
  match input with
  | .char '.' :: rest =>
    match readSomeDigits atEnd rest with
    | .error fault => .error fault
    | .ok (digits, rest) => .ok (some digits, rest)
  | input => .ok (none, input)

def readPower (atEnd : JsonFault) : Reader (Option (Bool × List Char)) := fun input =>
  let signed (rest : Input) : Bool × Input :=
    match rest with
    | .char '+' :: rest => (false, rest)
    | .char '-' :: rest => (true, rest)
    | rest => (false, rest)
  match input with
  | .char c :: rest =>
    if c = 'e' ∨ c = 'E' then
      match readSomeDigits atEnd (signed rest).2 with
      | .error fault => .error fault
      | .ok (digits, after) => .ok (some ((signed rest).1, digits), after)
    else .ok (none, input)
  | input => .ok (none, input)

def readNumberText (atEnd : JsonFault) : Reader NumberText := fun input => do
  let (whole, input) ← readWhole atEnd input
  let (fraction, input) ← readFraction atEnd input
  let (power, input) ← readPower atEnd input
  return (⟨whole, fraction, power⟩, input)

/-- Takes digits into a number for as long as it fits into sixty-four bits, and leaves the others. -/
def gatherDigits (value : Nat) : List Char → Nat × List Char
  | [] => (value, [])
  | c :: rest =>
    let next := 10 * value + digitValue c
    if next < UInt64.size then gatherDigits next rest else (value, c :: rest)

def greatestPower : Nat := 308

def powerOfTen (n : Nat) : Float := Float.ofScientific 1 false n

/-- Divides by a power of ten, in several steps if it is too great, for as long as anything is left. -/
def overPowerOfTen (x : Float) (n : Nat) : Float :=
  if n ≤ greatestPower then x / powerOfTen n
  else if x == 0 then x
  else overPowerOfTen (x / powerOfTen greatestPower) (n - greatestPower)
termination_by n
decreasing_by
  unfold greatestPower at *
  omega

/-- A number times a power of ten. It is rounded at each step, so that the outcome may be off in its last
digit, and it is refused if it is not finite. -/
def scaled? (significand : UInt64) (power : Int) : Option Float :=
  let x := significand.toFloat
  if power < 0 then some (overPowerOfTen x power.natAbs)
  else if power ≤ greatestPower then
    let value := x * powerOfTen power.natAbs
    if value.isInf then none else some value
  else if x == 0 then some x else none

/-- Digits before the point that no longer fit only count as powers of ten; those after it are passed
over. -/
def NumberText.toFloat? (t : NumberText) : Option Float :=
  let fraction := t.fraction.getD []
  let (whole, left) := gatherDigits 0 t.whole
  let (significand, unread) := gatherDigits whole fraction
  let (negative, digits) := t.power.getD (false, [])
  let stated : Int := Nat.ofDigitChars 10 digits 0
  let point : Int := left.length + unread.length - fraction.length
  scaled? (UInt64.ofNat significand) ((if negative then -stated else stated) + point)

/-- Integers from `-2 ^ 63` up to, but not including, `2 ^ 64` stay integers, except `-0`. -/
def NumberText.toJson? (negative : Bool) (t : NumberText) : Option Json :=
  let float := t.toFloat?.map fun value => Json.float (if negative then -value else value)
  match t.fraction, t.power with
  | none, none =>
    let n := Nat.ofDigitChars 10 t.whole 0
    if negative then
      if 0 < n ∧ n ≤ UInt64.size / 2 then some (.int (-n)) else float
    else if n < UInt64.size then some (.int n) else float
  | _, _ => float

def readNumber (negative : Bool) : Reader Json := fun input =>
  match readNumberText .endInValue input with
  | .error fault => .error fault
  | .ok (text, rest) =>
    match text.toJson? negative with
    | some value => .ok (value, rest)
    | none => .error .numberTooLarge

def Symbol.hexValue? : Symbol → Option Nat
  | .char c =>
    if '0' ≤ c ∧ c ≤ '9' then some (c.toNat - 48)
    else if 'a' ≤ c ∧ c ≤ 'f' then some (c.toNat - 87)
    else if 'A' ≤ c ∧ c ≤ 'F' then some (c.toNat - 55)
    else none
  | .stray => none

def hexUnit? (a b c d : Symbol) : Option Nat :=
  match a.hexValue?, b.hexValue?, c.hexValue?, d.hexValue? with
  | some a, some b, some c, some d => some (((a * 16 + b) * 16 + c) * 16 + d)
  | _, _, _, _ => none

/-- The fault of an escape by number whose four digits are not there: the text ends, or holds four bytes
that are no digits. -/
def hexFault (input : Input) : JsonFault :=
  if Symbol.byteLength input < 4 then .endInString else .badEscape

def escapedChar? : Symbol → Option Char
  | .char '"' => some '"'
  | .char '\\' => some '\\'
  | .char '/' => some '/'
  | .char 'b' => some '\x08'
  | .char 'f' => some '\x0c'
  | .char 'n' => some '\n'
  | .char 'r' => some '\r'
  | .char 't' => some '\t'
  | _ => none

def isLeadUnit (unit : Nat) : Bool := 0xd800 ≤ unit && unit ≤ 0xdbff

def isTrailUnit (unit : Nat) : Bool := 0xdc00 ≤ unit && unit ≤ 0xdfff

def pairedChar (lead trail : Nat) : Char :=
  Char.ofNat ((lead - 0xd800) * 0x400 + (trail - 0xdc00) + 0x10000)

/-- Reads a string up to its closing quote; `read` holds what has been read so far, in reverse. -/
def readChars (read : List Symbol) : Reader String
  | [] => .error .endInString
  | .stray :: rest => readChars (.stray :: read) rest
  | .char c :: rest =>
    if c = '"' then
      match read.reverse.mapM Symbol.char? with
      | some cs => .ok (String.ofList cs, rest)
      | none => .error .badEncoding
    else if c = '\\' then
      match rest with
      | [] => .error .endInString
      | .char 'u' :: rest =>
        match rest with
        | a :: b :: c :: d :: after =>
          match hexUnit? a b c d with
          | none => .error (hexFault rest)
          | some unit =>
            if isTrailUnit unit then .error .loneSurrogate
            else if isLeadUnit unit then
              match after with
              | [] => .error .endInString
              | [.char '\\'] => .error .endInString
              | .char '\\' :: .char 'u' :: after =>
                match after with
                | a :: b :: c :: d :: rest =>
                  match hexUnit? a b c d with
                  | none => .error (hexFault after)
                  | some trail =>
                    if isTrailUnit trail then readChars (.char (pairedChar unit trail) :: read) rest
                    else .error .loneSurrogate
                | _ => .error (hexFault after)
              | _ => .error .unfinishedPair
            else readChars (.char (Char.ofNat unit) :: read) after
        | _ => .error (hexFault rest)
      | letter :: rest =>
        match escapedChar? letter with
        | some c => readChars (.char c :: read) rest
        | none => .error .badEscape
    else if c.toNat < 0x20 then .error .controlCharacter
    else readChars (.char c :: read) rest

def readString : Reader String :=
  readChars []

end AbiCalls
