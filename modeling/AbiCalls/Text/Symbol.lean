namespace AbiCalls

inductive Symbol
  | char (c : Char)
  | stray
  deriving DecidableEq, Repr

namespace Symbol

def char? : Symbol → Option Char
  | .char c => some c
  | .stray => none

def byteCount : Symbol → Nat
  | .char c => c.utf8Size
  | .stray => 1

def byteLength : List Symbol → Nat
  | [] => 0
  | s :: rest => s.byteCount + byteLength rest

/-- The symbols of the bytes of a file. A byte that starts no character is a stray of its own. -/
def ofBytes : List UInt8 → List Symbol
  | [] => []
  | byte :: rest =>
    match ((byte :: rest).take 4).toByteArray.utf8DecodeChar? 0 with
    | some c => .char c :: ofBytes (rest.drop (c.utf8Size - 1))
    | none => .stray :: ofBytes rest
termination_by bytes => bytes.length
decreasing_by
  · simp only [List.length_drop, List.length_cons]
    omega
  · simp

def ofText (text : String) : List Symbol :=
  text.toList.map .char

end Symbol

end AbiCalls
