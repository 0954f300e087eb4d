import AbiCalls.Text.Escaped

namespace AbiCalls

/-- The digits of a number in base sixteen, with lower-case letters and no leading zero. -/
def hexDigits (n : Nat) : List Char :=
  Nat.toDigits 16 n

def quotedChar (delimiter c : Char) : List Char :=
  if c = '\x00' then ['\\', '0']
  else if c = '\t' then ['\\', 't']
  else if c = '\n' then ['\\', 'n']
  else if c = '\r' then ['\\', 'r']
  else if c = '\\' ∨ c = delimiter then ['\\', c]
  else if isEscaped c then ['\\', 'u', '\x7b'] ++ hexDigits c.toNat ++ ['\x7d']
  else [c]

def quotedBy (delimiter : Char) (cs : List Char) : String :=
  String.ofList (delimiter :: (cs.flatMap (quotedChar delimiter) ++ [delimiter]))

def quotedText (text : String) : String :=
  quotedBy '"' text.toList

def quotedTexts (texts : List String) : String :=
  "[" ++ ", ".intercalate (texts.map quotedText) ++ "]"

end AbiCalls
