import AbiCalls.Json.Mismatch
import AbiCalls.Json.Skip

namespace AbiCalls

inductive TextFault
  | text (fault : JsonFault)
  | shape (mismatch : Mismatch)

def TextFault.message : TextFault → String
  | .text fault => fault.message
  | .shape mismatch => mismatch.message

abbrev ShapeReader (α : Type) := Input → Except TextFault (α × Input)

def liftText {α : Type} : Except JsonFault α → Except TextFault α
  | .ok value => .ok value
  | .error fault => .error (.text fault)

def liftShape {α : Type} : Except Mismatch α → Except TextFault α
  | .ok value => .ok value
  | .error mismatch => .error (.shape mismatch)

/-- Reads a value that is no list and no object. One that starts like a list or an object is judged by
its first character. -/
def readScalar {α : Type} (decode : Json → Except Mismatch α) : ShapeReader α := fun input => do
  let opened (bracket : Char) (rest : Input) : Except JsonFault (Json × Input) :=
    .ok (if bracket = '[' then .list [] else .object [], rest)
  let (value, rest) ← liftText (readValueWith opened input)
  return (← liftShape (decode value), rest)

def readAlone {α : Type} (read : ShapeReader α) (input : Input) : Except TextFault α := do
  let (value, rest) ← read input
  liftText (readEnd rest)
  return value

/-- Where a reader stands at the next field of an object: at its end, or after the opening quote of a
name. -/
inductive FieldPosition
  | close (rest : Input)
  | name (rest : Input)

def nextField (first : Bool) (input : Input) : Except JsonFault FieldPosition :=
  match skipBlanks input with
  | [] => .error .endInObject
  | .char '\x7d' :: rest => .ok (.close rest)
  | s :: rest =>
    if first then
      if s = .char '"' then .ok (.name rest) else .error .expectedName
    else if s = .char ',' then
      match skipBlanks rest with
      | [] => .error .endInValue
      | .char '"' :: rest => .ok (.name rest)
      | .char '\x7d' :: _ => .error .trailingComma
      | _ => .error .expectedName
    else .error .expectedFieldEnd

/-- Folds the fields of an object in the order of the text. The step gets the name and what follows it,
the colon included. There are at most `limit` fields. -/
def foldFields {σ : Type} (step : σ → String → ShapeReader σ) : Nat → Bool → σ → ShapeReader σ
  | 0, _, _ => fun _ => .error (.text .endInObject)
  | limit + 1, first, state => fun input => do
    match ← liftText (nextField first input) with
    | .close rest => return (state, rest)
    | .name rest =>
      let (name, rest) ← liftText (readString rest)
      let (state, rest) ← step state name rest
      foldFields step limit false state rest

/-- Whether a list goes on, and where its next item starts. All but the first need a comma before them;
a list that ends is left before its closing bracket. -/
def nextItem (first : Bool) (input : Input) : Except JsonFault (Option Input) :=
  match skipBlanks input with
  | [] => .error .endInList
  | .char ']' :: _ => .ok none
  | s :: rest =>
    if first then .ok (some (s :: rest))
    else if s = .char ',' then
      match skipBlanks rest with
      | [] => .error .endInValue
      | .char ']' :: _ => .error .trailingComma
      | rest => .ok (some rest)
    else .error .expectedItemEnd

def closeList (input : Input) : Except JsonFault Input :=
  match skipBlanks input with
  | [] => .error .endInList
  | .char ']' :: rest => .ok rest
  | .char ',' :: rest =>
    match skipBlanks rest with
    | .char ']' :: _ => .error .trailingComma
    | _ => .error .trailingText
  | _ => .error .trailingText

end AbiCalls
