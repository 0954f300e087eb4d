import AbiCalls.Abi.ContractFunction
import AbiCalls.Proofs.ByteOrder
import Mathlib.Data.List.Forall2
import Mathlib.Data.List.TakeWhile

namespace AbiCalls

def separators : List Char := ['(', ')', ',']

def isWord (cs : List Char) : Bool :=
  cs ≠ [] && cs.all fun c => c ∉ separators

def EndsType (rest : List Char) : Prop :=
  ∀ c ∈ rest.head?, c ∈ separators

theorem append_inj_of_endsType {u v r s : List Char} (hu : ∀ c ∈ u, c ∉ separators)
    (hv : ∀ c ∈ v, c ∉ separators) (hr : EndsType r) (hs : EndsType s) (h : u ++ r = v ++ s) :
    u = v ∧ r = s := by
  have cut : ∀ {w rest : List Char}, (∀ c ∈ w, c ∉ separators) → EndsType rest →
      (w ++ rest).takeWhile (fun c => c ∉ separators) = w := by
    intro w rest hw hrest
    rw [List.takeWhile_append_of_pos (by simpa using hw)]
    cases rest with
    | nil => simp
    | cons c rest => simp [hrest c rfl]
  have same : u = v := by rw [← cut hu hr, h, cut hv hs]
  exact ⟨same, List.append_cancel_left (same ▸ h)⟩

namespace Param

def bareType (p : Param) : List Char :=
  eraseBlanks p.type.toList

mutual

/-- The type, and under a tuple the types of its components, can be told from what holds types apart. -/
def wellSpelled : Param → Bool
  | ⟨_, type, _, components, _⟩ =>
    isWord (eraseBlanks type.toList) &&
      ((tupleSuffix? (eraseBlanks type.toList)).isNone || allWellSpelled components)

def allWellSpelled : List Param → Bool
  | [] => true
  | p :: rest => p.wellSpelled && allWellSpelled rest

end

/-- Two parameters with one type up to its spelling: tuples with the same suffix and components that agree one
by one, or other types that are the same without blanks and with their sizes written out. -/
inductive Agrees : Param → Param → Prop
  | tuple {p q : Param} {suffix : List Char} (left : tupleSuffix? p.bareType = some suffix)
      (right : tupleSuffix? q.bareType = some suffix)
      (items : List.Forall₂ Agrees p.components q.components) : Agrees p q
  | plain {p q : Param} (left : tupleSuffix? p.bareType = none)
      (right : tupleSuffix? q.bareType = none) (same : widened p.bareType = widened q.bareType) :
    Agrees p q

theorem canonicalChars_of_tuple {p : Param} {suffix : List Char}
    (h : tupleSuffix? p.bareType = some suffix) :
    p.canonicalChars = '(' :: (joinedChars p.components ++ ')' :: suffix) := by
  obtain ⟨name, type, internalType, components, indexed⟩ := p
  rw [bareType] at h
  simp only [canonicalChars, h]

theorem canonicalChars_of_plain {p : Param} (h : tupleSuffix? p.bareType = none) :
    p.canonicalChars = widened p.bareType := by
  obtain ⟨name, type, internalType, components, indexed⟩ := p
  rw [bareType] at h
  simp only [canonicalChars, h]
  rfl

def followers : List Param → List Char
  | [] => []
  | ps => ',' :: joinedChars ps

theorem joinedChars_cons (p : Param) (ps : List Param) :
    joinedChars (p :: ps) = p.canonicalChars ++ followers ps := by
  cases ps with
  | nil => simp [joinedChars, followers]
  | cons q ps => rfl

theorem endsType_followers (ps : List Param) (rest : List Char) :
    EndsType (followers ps ++ ')' :: rest) := by
  cases ps <;> simp [followers, EndsType, separators]

mutual

theorem canonicalChars_eq_of_agrees : (p q : Param) → p.Agrees q → p.canonicalChars = q.canonicalChars
  | ⟨name, type, internalType, components, indexed⟩, q, h => by
    cases h with
    | tuple left right items =>
      rw [canonicalChars_of_tuple left, canonicalChars_of_tuple right,
        joinedChars_eq_of_agrees components q.components items]
    | plain left right same =>
      rw [canonicalChars_of_plain left, canonicalChars_of_plain right, same]

theorem joinedChars_eq_of_agrees : (ps qs : List Param) → List.Forall₂ Agrees ps qs →
    joinedChars ps = joinedChars qs
  | [], _, .nil => rfl
  | p :: ps, q :: qs, .cons first rest => by
    have hps := joinedChars_eq_of_agrees ps qs rest
    have tails : followers ps = followers qs := by
      cases rest with
      | nil => rfl
      | cons => exact congrArg (List.cons ',') hps
    rw [joinedChars_cons, joinedChars_cons, canonicalChars_eq_of_agrees p q first, tails]

end

theorem isWord_iff {cs : List Char} : isWord cs ↔ cs ≠ [] ∧ ∀ c ∈ cs, c ∉ separators := by
  simp [isWord]

theorem wellSpelled_iff {p : Param} :
    p.wellSpelled ↔ isWord p.bareType ∧
      (tupleSuffix? p.bareType = none ∨ allWellSpelled p.components) := by
  obtain ⟨name, type, internalType, components, indexed⟩ := p
  simp [wellSpelled, bareType]

theorem mem_of_tupleSuffix? {type suffix : List Char} (h : tupleSuffix? type = some suffix) {c : Char}
    (hc : c ∈ suffix) : c ∈ type := by
  unfold tupleSuffix? at h
  split at h
  · cases h
    exact List.mem_of_mem_drop hc
  · cases h

theorem mem_widened {type : List Char} {c : Char} (h : c ∈ widened type) :
    c ∈ type ∨ c ∈ ['u', 'i', 'n', 't', '2', '5', '6'] := by
  have suffix : c ∈ type.dropWhile (· ≠ '[') → c ∈ type := (List.dropWhile_sublist _).mem
  unfold widened at h
  simp only at h
  split_ifs at h
  · exact (List.mem_append.mp h).symm.imp suffix id
  · exact (List.mem_append.mp h).symm.imp suffix (List.mem_cons_of_mem 'u')
  · exact .inl h

theorem widened_ne_nil {type : List Char} (h : type ≠ []) : widened type ≠ [] := by
  unfold widened
  simp only
  split_ifs <;> simp [h]

theorem notMem_separators_of_widened {p : Param} (word : isWord p.bareType) :
    ∀ c ∈ widened p.bareType, c ∉ separators := by
  intro c hc
  have free : ∀ c ∈ ['u', 'i', 'n', 't', '2', '5', '6'], c ∉ separators := by simp [separators]
  rcases mem_widened hc with h | h
  · exact (isWord_iff.mp word).2 c h
  · exact free c h

theorem canonicalChars_cons_of_plain {p : Param} (word : isWord p.bareType)
    (h : tupleSuffix? p.bareType = none) : ∃ c cs, p.canonicalChars = c :: cs ∧ c ∉ separators := by
  obtain ⟨c, cs, hcs⟩ := List.exists_cons_of_ne_nil (widened_ne_nil (isWord_iff.mp word).1)
  refine ⟨c, cs, (canonicalChars_of_plain h).trans hcs, ?_⟩
  exact notMem_separators_of_widened word c (hcs ▸ List.mem_cons_self)

theorem canonicalChars_of_tuple_ne_plain {p q : Param} {suffix r s : List Char}
    (left : tupleSuffix? p.bareType = some suffix) (word : isWord q.bareType)
    (right : tupleSuffix? q.bareType = none) : p.canonicalChars ++ r ≠ q.canonicalChars ++ s := by
  obtain ⟨c, cs, head, free⟩ := canonicalChars_cons_of_plain word right
  rw [canonicalChars_of_tuple left, head]
  intro h
  obtain ⟨rfl, _⟩ := List.cons.inj h
  exact free (by decide)

theorem canonicalChars_append_ne_close {p : Param} (h : p.wellSpelled) (r s : List Char) :
    p.canonicalChars ++ r ≠ ')' :: s := by
  intro same
  cases hp : tupleSuffix? p.bareType with
  | some suffix =>
    rw [canonicalChars_of_tuple hp] at same
    exact absurd (List.cons.inj same).1 (by decide)
  | none =>
    obtain ⟨c, cs, head, free⟩ := canonicalChars_cons_of_plain (wellSpelled_iff.mp h).1 hp
    rw [head] at same
    obtain ⟨rfl, _⟩ := List.cons.inj same
    exact free (by decide)

theorem allWellSpelled_cons {p : Param} {ps : List Param} :
    allWellSpelled (p :: ps) ↔ p.wellSpelled ∧ allWellSpelled ps := by
  simp [allWellSpelled]

mutual

/-- A type in front of what may follow one is read in one way only. -/
theorem canonicalChars_append_inj : (p q : Param) → p.wellSpelled → q.wellSpelled →
    ∀ {r s : List Char}, EndsType r → EndsType s →
      p.canonicalChars ++ r = q.canonicalChars ++ s → p.Agrees q ∧ r = s
  | ⟨name, type, internalType, components, indexed⟩, q, hp, hq, r, s, hr, hs, h => by
    obtain ⟨wordp, itemsp⟩ := wellSpelled_iff.mp hp
    obtain ⟨wordq, itemsq⟩ := wellSpelled_iff.mp hq
    cases left : tupleSuffix? (bareType ⟨name, type, internalType, components, indexed⟩) with
    | some suffix =>
      cases right : tupleSuffix? q.bareType with
      | some suffix' =>
        rw [canonicalChars_of_tuple left, canonicalChars_of_tuple right] at h
        simp only [List.cons_append, List.append_assoc, List.cons.injEq, true_and] at h
        obtain ⟨items, after⟩ := joinedChars_append_inj components q.components
          (itemsp.resolve_left (by simp [left])) (itemsq.resolve_left (by simp [right])) h
        obtain ⟨rfl, rest⟩ := append_inj_of_endsType
          (fun c hc => (isWord_iff.mp wordp).2 c (mem_of_tupleSuffix? left hc))
          (fun c hc => (isWord_iff.mp wordq).2 c (mem_of_tupleSuffix? right hc)) hr hs after
        exact ⟨.tuple left right items, rest⟩
      | none => exact absurd h (canonicalChars_of_tuple_ne_plain left wordq right)
    | none =>
      cases right : tupleSuffix? q.bareType with
      | some suffix' => exact absurd h.symm (canonicalChars_of_tuple_ne_plain right wordp left)
      | none =>
        rw [canonicalChars_of_plain left, canonicalChars_of_plain right] at h
        obtain ⟨same, rest⟩ := append_inj_of_endsType (notMem_separators_of_widened wordp)
          (notMem_separators_of_widened wordq) hr hs h
        exact ⟨.plain left right same, rest⟩

theorem joinedChars_append_inj : (ps qs : List Param) → allWellSpelled ps → allWellSpelled qs →
    ∀ {r s : List Char}, joinedChars ps ++ ')' :: r = joinedChars qs ++ ')' :: s →
      List.Forall₂ Agrees ps qs ∧ r = s
  | [], [], _, _, r, s, h => ⟨.nil, (List.cons.inj h).2⟩
  | [], q :: qs, _, hq, r, s, h => by
    obtain ⟨hq, _⟩ := allWellSpelled_cons.mp hq
    rw [joinedChars_cons, List.append_assoc] at h
    exact absurd h.symm (canonicalChars_append_ne_close hq _ _)
  | p :: ps, [], hp, _, r, s, h => by
    obtain ⟨hp, _⟩ := allWellSpelled_cons.mp hp
    rw [joinedChars_cons, List.append_assoc] at h
    exact absurd h (canonicalChars_append_ne_close hp _ _)
  | p :: ps, q :: qs, hp, hq, r, s, h => by
    obtain ⟨hp, hps⟩ := allWellSpelled_cons.mp hp
    obtain ⟨hq, hqs⟩ := allWellSpelled_cons.mp hq
    rw [joinedChars_cons, joinedChars_cons, List.append_assoc, List.append_assoc] at h
    obtain ⟨first, after⟩ := canonicalChars_append_inj p q hp hq (endsType_followers ps r)
      (endsType_followers qs s) h
    cases ps with
    | nil =>
      cases qs with
      | nil => exact ⟨.cons first .nil, (List.cons.inj after).2⟩
      | cons q' qs => exact absurd (List.cons.inj after).1 (by decide)
    | cons p' ps =>
      cases qs with
      | nil => exact absurd (List.cons.inj after).1 (by decide)
      | cons q' qs =>
        obtain ⟨others, rest⟩ := joinedChars_append_inj (p' :: ps) (q' :: qs) hps hqs
          (List.cons.inj after).2
        exact ⟨.cons first others, rest⟩

end

end Param

namespace ContractFunction

/-- A function whose signature can be read back: its name ends at the first bracket, and its types can be told
from what holds them apart. -/
def wellSpelled (f : ContractFunction) : Bool :=
  '(' ∉ f.name.toList && Param.allWellSpelled f.inputs

@[simp] theorem toList_signature (f : ContractFunction) : f.signature.toList = f.signatureChars :=
  String.toList_ofList

theorem takeWhile_signature {f : ContractFunction} (h : '(' ∉ f.name.toList) :
    f.signature.toList.takeWhile (· ≠ '(') = f.name.toList := by
  have inside : ∀ c ∈ f.name.toList, (decide (c ≠ '(')) = true := by
    intro c hc
    exact decide_eq_true fun bracket => h (bracket ▸ hc)
  rw [toList_signature, signatureChars, List.takeWhile_append_of_pos inside]
  simp

theorem signature_eq_iff_joinedChars {f g : ContractFunction} (hf : '(' ∉ f.name.toList)
    (hg : '(' ∉ g.name.toList) :
    f.signature = g.signature ↔
      f.name = g.name ∧ Param.joinedChars f.inputs = Param.joinedChars g.inputs := by
  constructor
  · intro h
    have names : f.name.toList = g.name.toList := by
      rw [← takeWhile_signature hf, h, takeWhile_signature hg]
    have chars : f.signatureChars = g.signatureChars := by
      rw [← toList_signature, h, toList_signature]
    simp only [signatureChars, names, List.append_cancel_left_eq, List.cons.injEq, true_and,
      List.append_cancel_right_eq] at chars
    exact ⟨String.toList_injective names, chars⟩
  · rintro ⟨names, inputs⟩
    rw [signature, signature, signatureChars, signatureChars, names, inputs]

end ContractFunction

def loosePay : ContractFunction :=
  ⟨"pay", [⟨"batch", " tuple [ ]", none,
    [⟨"amount", "uint", none, [], none⟩, ⟨"to", "address ", none, [], none⟩], none⟩], [], .payable⟩

def strictPay : ContractFunction :=
  ⟨"pay", [⟨"", "tuple[]", some "struct Payment[]",
    [⟨"", "uint256", none, [], none⟩, ⟨"", "address", none, [], none⟩], none⟩], [], .nonpayable⟩

def flatPay : ContractFunction :=
  ⟨"pay", [⟨"", "uint256", none, [], none⟩, ⟨"", "address", none, [], none⟩], [], .payable⟩

end AbiCalls
