import AbiCalls.Json.Reader

namespace AbiCalls

def skipChars : Input → Except JsonFault Input
  | [] => .error .endInString
  | .stray :: rest => skipChars rest
  | .char c :: rest =>
    if c = '"' then .ok rest
    else if c = '\\' then
      match rest with
      | [] => .error .endInString
      | .char 'u' :: rest =>
        match rest with
        | a :: b :: c :: d :: after =>
          match hexUnit? a b c d with
          | none => .error (hexFault rest)
          | some _ => skipChars after
        | _ => .error (hexFault rest)
      | letter :: rest =>
        match escapedChar? letter with
        | some _ => skipChars rest
        | none => .error .badEscape
    else if c.toNat < 0x20 then .error .controlCharacter
    else skipChars rest

def skipNumber (input : Input) : Except JsonFault Input := do
  let (_, rest) ← readNumberText .badNumber input
  return rest

def skipValueWith (skipNested : Char → Input → Except JsonFault Input) (input : Input) :
    Except JsonFault Input :=
  match skipBlanks input with
  | [] => .error .endInValue
  | .stray :: _ => .error .expectedValue
  | .char c :: rest =>
    if c = 'n' then readWord ['u', 'l', 'l'] rest
    else if c = 't' then readWord ['r', 'u', 'e'] rest
    else if c = 'f' then readWord ['a', 'l', 's', 'e'] rest
    else if c = '-' then skipNumber rest
    else if c.isDigit then skipNumber (.char c :: rest)
    else if c = '"' then skipChars rest
    else if c = '[' ∨ c = '\x7b' then skipNested c rest
    else .error .expectedValue

def skipName (input : Input) : Except JsonFault Input :=
  match skipBlanks input with
  | [] => .error .endInObject
  | .char '"' :: rest => do readColon (← skipChars rest)
  | _ => .error .expectedName

/-- Items, or fields, up to the closing bracket; `skipItem` takes one of them. -/
def skipItems (close : Char) (atEnd unclosed : JsonFault) (skipItem : Input → Except JsonFault Input) :
    Nat → Input → Except JsonFault Input
  | 0, _ => .error atEnd
  | limit + 1, input => do
    let rest ← skipItem input
    match skipBlanks rest with
    | [] => .error atEnd
    | .char c :: rest =>
      if c = close then return rest
      else if c = ',' then skipItems close atEnd unclosed skipItem limit rest
      else .error unclosed
    | _ => .error unclosed

def skipBracketed (close : Char) (atEnd unclosed : JsonFault)
    (skipItem : Input → Except JsonFault Input) (input : Input) : Except JsonFault Input :=
  match skipBlanks input with
  | [] => .error atEnd
  | s :: rest =>
    if s = .char close then .ok rest
    else skipItems close atEnd unclosed skipItem (rest.length + 1) (s :: rest)

def skipValueTo : Nat → Input → Except JsonFault Input
  | 0 => skipValueWith fun _ _ => .error .tooDeep
  | depth + 1 => skipValueWith fun bracket input =>
    if bracket = '[' then
      skipBracketed ']' .endInList .expectedItemEnd (skipValueTo depth) input
    else
      skipBracketed '\x7d' .endInObject .expectedFieldEnd
        (fun input => do skipValueTo depth (← skipName input)) input

/-- Every list and object takes a bracket, so a text cannot nest deeper than it is long. -/
def skipValue (input : Input) : Except JsonFault Input :=
  skipValueTo input.length input

end AbiCalls
