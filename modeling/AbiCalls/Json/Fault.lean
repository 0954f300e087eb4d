namespace AbiCalls

inductive JsonFault
  | endInValue
  | endInList
  | endInObject
  | endInString
  | expectedValue
  | expectedWord
  | badNumber
  | numberTooLarge
  | expectedItemEnd
  | expectedFieldEnd
  | expectedColon
  | trailingComma
  | expectedName
  | trailingText
  | badEscape
  | unfinishedPair
  | loneSurrogate
  | controlCharacter
  | badEncoding
  | tooDeep
  deriving DecidableEq, Repr

def JsonFault.message : JsonFault → String
  | .endInValue => "EOF while parsing a value"
  | .endInList => "EOF while parsing a list"
  | .endInObject => "EOF while parsing an object"
  | .endInString => "EOF while parsing a string"
  | .expectedValue => "expected value"
  | .expectedWord => "expected ident"
  | .badNumber => "invalid number"
  | .numberTooLarge => "number out of range"
  | .expectedItemEnd => "expected `,` or `]`"
  | .expectedFieldEnd => "expected `,` or `\x7d`"
  | .expectedColon => "expected `:`"
  | .trailingComma => "trailing comma"
  | .expectedName => "key must be a string"
  | .trailingText => "trailing characters"
  | .badEscape => "invalid escape"
  | .unfinishedPair => "unexpected end of hex escape"
  | .loneSurrogate => "lone leading surrogate in hex escape"
  | .controlCharacter => "control character (\\u0000-\\u001F) found while parsing a string"
  | .badEncoding => "invalid unicode code point"
  | .tooDeep => "recursion limit exceeded"

end AbiCalls
