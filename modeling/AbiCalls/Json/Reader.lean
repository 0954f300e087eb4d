import AbiCalls.Json.Scalar
import AbiCalls.Names

namespace AbiCalls

/-- What a value that starts with the given character is, if a list or an object is read by
`readNested`, which gets the opening bracket. -/
def readValueWith (readNested : Char → Reader Json) : Reader Json := fun input =>
  match skipBlanks input with
  | [] => .error .endInValue
  | .stray :: _ => .error .expectedValue
  | .char c :: rest =>
    if c = 'n' then do return (.null, ← readWord ['u', 'l', 'l'] rest)
    else if c = 't' then do return (.bool true, ← readWord ['r', 'u', 'e'] rest)
    else if c = 'f' then do return (.bool false, ← readWord ['a', 'l', 's', 'e'] rest)
    else if c = '-' then readNumber true rest
    else if c.isDigit then readNumber false (.char c :: rest)
    else if c = '"' then do
      let (text, rest) ← readString rest
      return (.str text, rest)
    else if c = '[' ∨ c = '\x7b' then readNested c rest
    else .error .expectedValue

/-- The items of a list from the next one on. There are at most `limit` of them. -/
def readItems (readItem : Reader Json) : Nat → List Json → Reader (List Json)
  | 0, _, _ => .error .endInList
  | limit + 1, read, input => do
    let (item, rest) ← readItem input
    match skipBlanks rest with
    | [] => .error .endInList
    | .char ']' :: rest => return ((item :: read).reverse, rest)
    | .char ',' :: rest =>
      match skipBlanks rest with
      | [] => .error .endInValue
      | .char ']' :: _ => .error .trailingComma
      | rest => readItems readItem limit (item :: read) rest
    | _ => .error .expectedItemEnd

def readList (readItem : Reader Json) : Reader (List Json) := fun input =>
  match skipBlanks input with
  | [] => .error .endInList
  | .char ']' :: rest => .ok ([], rest)
  | rest => readItems readItem rest.length [] rest

def readColon (input : Input) : Except JsonFault Input :=
  match skipBlanks input with
  | [] => .error .endInObject
  | .char ':' :: rest => .ok rest
  | _ => .error .expectedColon

def readFields (readItem : Reader Json) :
    Nat → List (String × Json) → Reader (List (String × Json))
  | 0, _, _ => .error .endInObject
  | limit + 1, read, input => do
    match input with
    | .char '"' :: rest =>
      let (name, rest) ← readString rest
      let (value, rest) ← readItem (← readColon rest)
      match skipBlanks rest with
      | [] => .error .endInObject
      | .char '\x7d' :: rest => return (insertNamed name value read, rest)
      | .char ',' :: rest =>
        match skipBlanks rest with
        | [] => .error .endInValue
        | .char '\x7d' :: _ => .error .trailingComma
        | rest => readFields readItem limit (insertNamed name value read) rest
      | _ => .error .expectedFieldEnd
    | _ => .error .expectedName

def readObject (readItem : Reader Json) : Reader (List (String × Json)) := fun input =>
  match skipBlanks input with
  | [] => .error .endInObject
  | .char '\x7d' :: rest => .ok ([], rest)
  | rest => readFields readItem rest.length [] rest

/-- A value in which lists and objects nest at most `depth` deep. -/
def readValue : Nat → Reader Json
  | 0 => readValueWith fun _ _ => .error .tooDeep
  | depth + 1 => readValueWith fun bracket input => do
    if bracket = '[' then
      let (items, rest) ← readList (readValue depth) input
      return (.list items, rest)
    else
      let (fields, rest) ← readObject (readValue depth) input
      return (.object fields, rest)

def nestingLimit : Nat := 127

def readEnd (input : Input) : Except JsonFault Unit :=
  match skipBlanks input with
  | [] => .ok ()
  | _ => .error .trailingText

namespace Json

def ofSymbols (depth : Nat) (input : Input) : Except JsonFault Json := do
  let (value, rest) ← readValue depth input
  readEnd rest
  return value

def ofText (text : String) : Except JsonFault Json :=
  ofSymbols nestingLimit (Symbol.ofText text)

end Json

end AbiCalls
