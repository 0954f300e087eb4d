import AbiCalls.Proofs.Signatures
import Mathlib.Data.Bool.AllAny
import Mathlib.Logic.Relation

namespace AbiCalls

def sizelessTypes : List (List Char) := [['u', 'i', 'n', 't'], ['i', 'n', 't']]

def impliedSize : List Char := ['2', '5', '6']

def Dimensions (suffix : List Char) : Prop :=
  ∀ c ∈ suffix.head?, c = '['

/-- One change to the spelling of a type: a blank more, or the implied size written out. -/
inductive Respelled : List Char → List Char → Prop
  | blank (before after : List Char) {c : Char} (h : isBlank c) :
    Respelled (before ++ after) (before ++ c :: after)
  | size {base suffix : List Char} (sizeless : base ∈ sizelessTypes) (h : Dimensions suffix) :
    Respelled (base ++ suffix) (base ++ (impliedSize ++ suffix))

/-- One change to a parameter, or to a component at any depth, that does not matter for signatures. -/
inductive Param.Edit : Param → Param → Prop
  | type {p : Param} {text : String} (h : Respelled p.type.toList text.toList) :
    Edit p { p with type := text }
  | labels (p : Param) (name : String) (internalType : Option String) (indexed : Option Bool) :
    Edit p { p with name, internalType, indexed }
  | components {p : Param} (plain : tupleSuffix? p.bareType = none) (components : List Param) :
    Edit p { p with components }
  | inside {p c c' : Param} {before after : List Param} (place : p.components = before ++ c :: after)
      (h : Edit c c') : Edit p { p with components := before ++ c' :: after }

/-- One parameter in two descriptions that differ by changes in either direction. -/
def Param.SameType : Param → Param → Prop :=
  Relation.EqvGen Param.Edit

theorem tupleSuffix?_sizeless {base : List Char} (h : base ∈ sizelessTypes) (rest : List Char) :
    tupleSuffix? (base ++ rest) = none := by
  simp only [sizelessTypes, List.mem_cons, List.not_mem_nil, or_false] at h
  rcases h with rfl | rfl <;> rfl

theorem widened_sizeless {base suffix : List Char} (h : base ∈ sizelessTypes) (ends : Dimensions suffix) :
    widened (base ++ suffix) = base ++ (impliedSize ++ suffix) := by
  simp only [sizelessTypes, List.mem_cons, List.not_mem_nil, or_false] at h
  cases suffix with
  | nil => rcases h with rfl | rfl <;> rfl
  | cons c suffix =>
    cases ends c rfl
    rcases h with rfl | rfl <;> rfl

theorem widened_sized {base suffix : List Char} (h : base ∈ sizelessTypes) (ends : Dimensions suffix) :
    widened (base ++ (impliedSize ++ suffix)) = base ++ (impliedSize ++ suffix) := by
  simp only [sizelessTypes, List.mem_cons, List.not_mem_nil, or_false] at h
  cases suffix with
  | nil => rcases h with rfl | rfl <;> rfl
  | cons c suffix =>
    cases ends c rfl
    rcases h with rfl | rfl <;> rfl

theorem dimensions_dropWhile (type : List Char) : Dimensions (type.dropWhile (· ≠ '[')) := by
  intro c hc
  have := List.head?_dropWhile_not (· ≠ '[') type
  rw [Option.mem_def.mp hc] at this
  simpa using this

theorem widened_eq (type : List Char) :
    widened type = type ∨ ∃ base ∈ sizelessTypes, ∃ suffix, Dimensions suffix ∧
      widened type = base ++ (impliedSize ++ suffix) := by
  unfold widened
  simp only
  split_ifs
  · exact .inr ⟨['u', 'i', 'n', 't'], by decide, _, dimensions_dropWhile type, rfl⟩
  · exact .inr ⟨['i', 'n', 't'], by decide, _, dimensions_dropWhile type, rfl⟩
  · exact .inl rfl

theorem widened_widened {type : List Char} (plain : tupleSuffix? type = none) :
    tupleSuffix? (widened type) = none ∧ widened (widened type) = widened type := by
  rcases widened_eq type with same | ⟨base, sizeless, suffix, ends, same⟩
  · rw [same]
    exact ⟨plain, same⟩
  · rw [same]
    exact ⟨tupleSuffix?_sizeless sizeless _, widened_sized sizeless ends⟩

theorem eraseBlanks_append (cs ds : List Char) :
    eraseBlanks (cs ++ ds) = eraseBlanks cs ++ eraseBlanks ds :=
  List.filter_append cs ds

theorem eraseBlanks_sizeless {base : List Char} (h : base ∈ sizelessTypes) : eraseBlanks base = base := by
  simp only [sizelessTypes, List.mem_cons, List.not_mem_nil, or_false] at h
  rcases h with rfl | rfl <;> decide

theorem Dimensions.eraseBlanks {suffix : List Char} (h : Dimensions suffix) :
    Dimensions (eraseBlanks suffix) := by
  cases suffix with
  | nil => exact h
  | cons c suffix =>
    cases h c rfl
    exact fun c hc => (Option.some.inj hc).symm

theorem Respelled.same {s t : List Char} (h : Respelled s t) :
    tupleSuffix? (eraseBlanks s) = tupleSuffix? (eraseBlanks t) ∧
      (tupleSuffix? (eraseBlanks s) = none → widened (eraseBlanks s) = widened (eraseBlanks t)) := by
  cases h with
  | blank before after hc =>
    rename_i c
    have same : eraseBlanks (before ++ c :: after) = eraseBlanks (before ++ after) := by
      rw [eraseBlanks_append, eraseBlanks_append]
      simp [eraseBlanks, hc]
    rw [same]
    exact ⟨rfl, fun _ => rfl⟩
  | @size base suffix sizeless ends =>
    have digits : eraseBlanks impliedSize = impliedSize := by decide
    rw [eraseBlanks_append, eraseBlanks_append, eraseBlanks_append, eraseBlanks_sizeless sizeless, digits,
      tupleSuffix?_sizeless sizeless, tupleSuffix?_sizeless sizeless,
      widened_sizeless sizeless ends.eraseBlanks, widened_sized sizeless ends.eraseBlanks]
    exact ⟨rfl, fun _ => rfl⟩

namespace Param

theorem joinedChars_eq_intercalate (ps : List Param) :
    joinedChars ps = [','].intercalate (ps.map canonicalChars) := by
  induction ps with
  | nil => rfl
  | cons p ps ih =>
    cases ps with
    | nil => simp [joinedChars]
    | cons q ps =>
      rw [joinedChars, ih]
      simp [List.intercalate_cons_cons]

theorem joinedChars_congr {ps qs : List Param} (h : ps.map canonicalChars = qs.map canonicalChars) :
    joinedChars ps = joinedChars qs := by
  rw [joinedChars_eq_intercalate, joinedChars_eq_intercalate, h]

theorem canonicalChars_congr {p q : Param} (marks : tupleSuffix? p.bareType = tupleSuffix? q.bareType)
    (plain : tupleSuffix? p.bareType = none → widened p.bareType = widened q.bareType)
    (items : tupleSuffix? p.bareType ≠ none → joinedChars p.components = joinedChars q.components) :
    p.canonicalChars = q.canonicalChars := by
  cases hp : tupleSuffix? p.bareType with
  | none => rw [canonicalChars_of_plain hp, canonicalChars_of_plain (marks ▸ hp), plain hp]
  | some suffix =>
    rw [canonicalChars_of_tuple hp, canonicalChars_of_tuple (marks ▸ hp), items (by simp [hp])]

theorem Edit.canonicalChars_eq {p q : Param} (h : p.Edit q) : p.canonicalChars = q.canonicalChars := by
  induction h with
  | type h => exact canonicalChars_congr h.same.1 h.same.2 fun _ => rfl
  | labels p name internalType indexed => exact canonicalChars_congr rfl (fun _ => rfl) fun _ => rfl
  | components plain components =>
    exact canonicalChars_congr rfl (fun _ => rfl) fun tuple => absurd plain tuple
  | inside place h ih =>
    refine canonicalChars_congr rfl (fun _ => rfl) fun _ => joinedChars_congr ?_
    simp [place, ih]

theorem SameType.canonicalChars_eq {p q : Param} (h : p.SameType q) :
    p.canonicalChars = q.canonicalChars := by
  induction h with
  | rel p q h => exact h.canonicalChars_eq
  | refl p => rfl
  | symm p q _ ih => exact ih.symm
  | trans p q r _ _ ih ih' => exact ih.trans ih'

mutual

theorem isBlank_of_mem_canonicalChars : (p : Param) → ∀ c ∈ p.canonicalChars, isBlank c = false
  | ⟨name, type, internalType, components, indexed⟩, c, hc => by
    have bare : ∀ c ∈ eraseBlanks type.toList, isBlank c = false := fun c => isBlank_of_mem_eraseBlanks
    cases h : tupleSuffix? (bareType ⟨name, type, internalType, components, indexed⟩) with
    | some suffix =>
      rw [canonicalChars_of_tuple h] at hc
      simp only [List.mem_cons, List.mem_append] at hc
      rcases hc with rfl | hc | rfl | hc
      · decide
      · exact isBlank_of_mem_joinedChars components c hc
      · decide
      · exact bare c (mem_of_tupleSuffix? h hc)
    | none =>
      have names : ∀ c ∈ ['u', 'i', 'n', 't', '2', '5', '6'], isBlank c = false :=
        List.all_iff_forall_prop.mp (by decide)
      rw [canonicalChars_of_plain h] at hc
      exact (mem_widened hc).elim (bare c) (names c)

theorem isBlank_of_mem_joinedChars : (ps : List Param) → ∀ c ∈ joinedChars ps, isBlank c = false
  | [], c, hc => absurd hc List.not_mem_nil
  | [p], c, hc => isBlank_of_mem_canonicalChars p c hc
  | p :: q :: ps, c, hc => by
    rcases List.mem_append.mp hc with hc | hc
    · exact isBlank_of_mem_canonicalChars p c hc
    · rcases List.mem_cons.mp hc with rfl | hc
      · decide
      · exact isBlank_of_mem_joinedChars (q :: ps) c hc

end

theorem plain_canonicalChars (p : Param) :
    tupleSuffix? p.canonicalChars = none ∧ widened p.canonicalChars = p.canonicalChars := by
  cases h : tupleSuffix? p.bareType with
  | some suffix =>
    rw [canonicalChars_of_tuple h]
    refine ⟨rfl, ?_⟩
    simp [widened]
  | none =>
    rw [canonicalChars_of_plain h]
    exact widened_widened h

theorem canonicalChars_canonicalType {p q : Param} (h : q.type = p.canonicalType) :
    q.canonicalChars = p.canonicalChars := by
  have bare : q.bareType = p.canonicalChars := by
    rw [bareType, h, canonicalType, String.toList_ofList, eraseBlanks, List.filter_eq_self]
    simpa using p.isBlank_of_mem_canonicalChars
  obtain ⟨plain, same⟩ := p.plain_canonicalChars
  rw [← bare] at plain same
  rw [canonicalChars_of_plain plain, same, bare]

end Param

theorem ContractFunction.signatureChars_congr {f g : ContractFunction} (names : f.name = g.name)
    (inputs : List.Forall₂ Param.SameType f.inputs g.inputs) : f.signatureChars = g.signatureChars := by
  have types : f.inputs.map Param.canonicalChars = g.inputs.map Param.canonicalChars := by
    rw [← List.forall₂_eq_eq_eq, List.forall₂_map_left_iff, List.forall₂_map_right_iff]
    exact inputs.imp fun _ _ => Param.SameType.canonicalChars_eq
  rw [signatureChars, signatureChars, names, Param.joinedChars_congr types]

theorem ContractFunction.signature_eq (f : ContractFunction) :
    f.signature = f.name ++ "(" ++ ",".intercalate (f.inputs.map Param.canonicalType) ++ ")" := by
  apply String.toList_inj.mp
  rw [toList_signature, signatureChars, Param.joinedChars_eq_intercalate]
  simp [String.toList_intercalate, Param.canonicalType, Function.comp_def]

/-- A canonical type has no blanks, is the canonical type of itself, and is the same for all descriptions of a
parameter. Signatures are made of canonical types, and functions whose inputs are the same but for their
descriptions share signature and selector. -/
theorem canonicalType_is_normal_form :
    (∀ p : Param, (∀ c ∈ p.canonicalType.toList, isBlank c = false) ∧
      (∀ q : Param, q.type = p.canonicalType → q.canonicalType = p.canonicalType) ∧
      ∀ q : Param, p.SameType q → q.canonicalType = p.canonicalType) ∧
    (∀ f : ContractFunction,
      f.signature = f.name ++ "(" ++ ",".intercalate (f.inputs.map Param.canonicalType) ++ ")") ∧
    ∀ f g : ContractFunction, f.name = g.name → List.Forall₂ Param.SameType f.inputs g.inputs →
      f.signature = g.signature ∧ f.selector = g.selector := by
  refine ⟨fun p => ⟨?_, fun q h => ?_, fun q h => ?_⟩, ContractFunction.signature_eq,
    fun f g names inputs => ?_⟩
  · rw [Param.canonicalType, String.toList_ofList]
    exact p.isBlank_of_mem_canonicalChars
  · rw [Param.canonicalType, Param.canonicalChars_canonicalType h, Param.canonicalType]
  · rw [Param.canonicalType, ← h.canonicalChars_eq, Param.canonicalType]
  · have same := ContractFunction.signatureChars_congr names inputs
    rw [ContractFunction.signature, ContractFunction.selector, ContractFunction.selectorBytes, same]
    exact ⟨rfl, rfl⟩

/-- A list of pairs. The second type of a pair is no tuple, so that its components do not count. -/
def pairsOf (type left : String) (unused : List Param) : Param :=
  ⟨"pairs", type, none, [⟨"left", left, none, [], none⟩, ⟨"right", "bool", none, unused, none⟩], none⟩

def loosePairs : Param := pairsOf "t uple[]" "u int" []

def strictPairs : Param :=
  { pairsOf "tuple[]" "uint256" [⟨"", "int", none, [], none⟩] with
    name := "", internalType := some "struct Pair[]", indexed := some true }

theorem pairsOf_left {s t : String} (h : Respelled s.toList t.toList) (type : String)
    (unused : List Param) : (pairsOf type s unused).Edit (pairsOf type t unused) := by
  have place : (pairsOf type s unused).components =
      [] ++ ⟨"left", s, none, [], none⟩ :: [⟨"right", "bool", none, unused, none⟩] := rfl
  exact .inside place (.type h)

theorem pairsOf_unused (type left : String) (unused others : List Param) :
    (pairsOf type left unused).Edit (pairsOf type left others) := by
  have place : (pairsOf type left unused).components =
      [⟨"left", left, none, [], none⟩] ++ ⟨"right", "bool", none, unused, none⟩ :: [] := rfl
  have plain : tupleSuffix? (Param.mk "right" "bool" none unused none).bareType = none := by
    change tupleSuffix? (eraseBlanks "bool".toList) = none
    decide
  exact .inside place (.components plain others)

theorem strictPairs_sameType : strictPairs.SameType loosePairs := by
  have list : Respelled "tuple[]".toList "t uple[]".toList :=
    .blank ['t'] ['u', 'p', 'l', 'e', '[', ']'] (by decide : isBlank ' ')
  have number : Respelled "uint".toList "uint256".toList :=
    .size (by decide : ['u', 'i', 'n', 't'] ∈ sizelessTypes) (nofun : Dimensions [])
  have spaced : Respelled "uint".toList "u int".toList :=
    .blank ['u'] ['i', 'n', 't'] (by decide : isBlank ' ')
  have labels : strictPairs.Edit (pairsOf "tuple[]" "uint256" [⟨"", "int", none, [], none⟩]) :=
    .labels strictPairs "pairs" none none
  have opened : (pairsOf "tuple[]" "uint256" [⟨"", "int", none, [], none⟩]).Edit
      (pairsOf "t uple[]" "uint256" [⟨"", "int", none, [], none⟩]) := .type list
  apply (Relation.EqvGen.rel _ _ labels).trans
  apply (Relation.EqvGen.rel _ _ opened).trans
  apply (Relation.EqvGen.rel _ _ (pairsOf_left number _ _)).symm.trans
  apply (Relation.EqvGen.rel _ _ (pairsOf_left spaced _ _)).trans
  exact .rel _ _ (pairsOf_unused _ _ _ _)

theorem pairs_canonicalType :
    strictPairs.canonicalType = "(uint256,bool)[]" ∧
      (∀ c ∈ strictPairs.canonicalType.toList, isBlank c = false) ∧
      (Param.mk "" "(uint256,bool)[]" none [] none).canonicalType = strictPairs.canonicalType ∧
      loosePairs.canonicalType = strictPairs.canonicalType ∧
      (ContractFunction.mk "pay" [strictPairs] [] .view).signature = "pay((uint256,bool)[])" ∧
      (ContractFunction.mk "pay" [strictPairs] [] .view).signature =
        (ContractFunction.mk "pay" [loosePairs] [] .payable).signature ∧
      (ContractFunction.mk "pay" [strictPairs] [] .view).selector =
        (ContractFunction.mk "pay" [loosePairs] [] .payable).selector := by
  obtain ⟨types, signatures, functions⟩ := canonicalType_is_normal_form
  obtain ⟨bare, again, same⟩ := types strictPairs
  have written : strictPairs.canonicalType = "(uint256,bool)[]" := by decide
  have signed := signatures ⟨"pay", [strictPairs], [], .view⟩
  rw [List.map_singleton, written] at signed
  exact ⟨written, bare, again _ written.symm, same loosePairs strictPairs_sameType, signed,
    functions _ _ rfl (.cons strictPairs_sameType .nil)⟩

end AbiCalls
