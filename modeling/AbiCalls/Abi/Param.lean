import AbiCalls.Json.Mismatch
import AbiCalls.Text.Blank

namespace AbiCalls

structure Param where
  name : String := ""
  type : String := ""
  internalType : Option String := none
  components : List Param := []
  indexed : Option Bool := none
  deriving Inhabited

mutual

def Param.decEq : (p q : Param) → Decidable (p = q)
  | ⟨name, type, internalType, components, indexed⟩, ⟨name', type', internalType', components', indexed'⟩ =>
    match Param.decEqList components components' with
    | .isFalse h => .isFalse fun e => h (Param.mk.inj e).2.2.2.1
    | .isTrue h =>
      if hr : name = name' ∧ type = type' ∧ internalType = internalType' ∧ indexed = indexed' then
        .isTrue (by rw [hr.1, hr.2.1, hr.2.2.1, h, hr.2.2.2])
      else
        .isFalse fun e =>
          have ⟨h₁, h₂, h₃, _, h₅⟩ := Param.mk.inj e
          hr ⟨h₁, h₂, h₃, h₅⟩

def Param.decEqList : (ps qs : List Param) → Decidable (ps = qs)
  | [], [] => .isTrue rfl
  | [], _ :: _ => .isFalse (by simp)
  | _ :: _, [] => .isFalse (by simp)
  | p :: ps, q :: qs =>
    match Param.decEq p q, Param.decEqList ps qs with
    | .isTrue h, .isTrue hs => .isTrue (by rw [h, hs])
    | .isFalse h, _ => .isFalse fun e => h (List.cons.inj e).1
    | _, .isFalse hs => .isFalse fun e => hs (List.cons.inj e).2

end

instance : DecidableEq Param := Param.decEq

def tupleMark : List Char := ['t', 'u', 'p', 'l', 'e']

def tupleSuffix? (type : List Char) : Option (List Char) :=
  if tupleMark.isPrefixOf type then some (type.drop tupleMark.length) else none

/-- Writes out the size of an integer type that names none. What follows the first bracket is kept. -/
def widened (type : List Char) : List Char :=
  let base := type.takeWhile (· ≠ '[')
  let suffix := type.dropWhile (· ≠ '[')
  if base = ['u', 'i', 'n', 't'] then ['u', 'i', 'n', 't', '2', '5', '6'] ++ suffix
  else if base = ['i', 'n', 't'] then ['i', 'n', 't', '2', '5', '6'] ++ suffix
  else type

namespace Param

def tuple (name suffix : String) (components : List Param) : Param :=
  { name, type := String.ofList tupleMark ++ suffix, components }

mutual

/-- The type without blanks, with tuples spelled out as their components. -/
def canonicalChars : Param → List Char
  | ⟨_, type, _, components, _⟩ =>
    match tupleSuffix? (eraseBlanks type.toList) with
    | some suffix => '(' :: (joinedChars components ++ ')' :: suffix)
    | none => widened (eraseBlanks type.toList)

def joinedChars : List Param → List Char
  | [] => []
  | [p] => p.canonicalChars
  | p :: q :: rest => p.canonicalChars ++ ',' :: joinedChars (q :: rest)

end

def canonicalType (p : Param) : String :=
  String.ofList p.canonicalChars

end Param

end AbiCalls
