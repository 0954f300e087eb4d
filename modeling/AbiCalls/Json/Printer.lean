import AbiCalls.Json.Basic
import AbiCalls.Number.Written

namespace AbiCalls

namespace Json

/-- A character inside a string. Only the quote, the backslash and the control characters of ASCII
below the space are escaped. -/
def charText (c : Char) : List Char :=
  if c = '"' then ['\\', '"']
  else if c = '\\' then ['\\', '\\']
  else if c = '\x08' then ['\\', 'b']
  else if c = '\x0c' then ['\\', 'f']
  else if c = '\n' then ['\\', 'n']
  else if c = '\r' then ['\\', 'r']
  else if c = '\t' then ['\\', 't']
  else if c.toNat < 0x20 then
    ['\\', 'u', '0', '0', Nat.digitChar (c.toNat / 16), Nat.digitChar (c.toNat % 16)]
  else [c]

def stringText (text : String) : List Char :=
  '"' :: (text.toList.flatMap charText ++ ['"'])

mutual

def chars : Json → List Char
  | .null => ['n', 'u', 'l', 'l']
  | .bool true => ['t', 'r', 'u', 'e']
  | .bool false => ['f', 'a', 'l', 's', 'e']
  | .int value => decimalOfInt value
  | .float value => decimalOfFloat value
  | .str text => stringText text
  | .list [] => ['[', ']']
  | .list (item :: rest) => '[' :: (item.chars ++ itemsTail rest)
  | .object [] => ['\x7b', '\x7d']
  | .object ((name, value) :: rest) =>
    '\x7b' :: (stringText name ++ ':' :: (value.chars ++ fieldsTail rest))

def itemsTail : List Json → List Char
  | [] => [']']
  | item :: rest => ',' :: (item.chars ++ itemsTail rest)

def fieldsTail : List (String × Json) → List Char
  | [] => ['\x7d']
  | (name, value) :: rest => ',' :: (stringText name ++ ':' :: (value.chars ++ fieldsTail rest))

end

def compact (value : Json) : String :=
  String.ofList value.chars

end Json

end AbiCalls
