import AbiCalls.Proofs.Reading
import Mathlib.Tactic.SplitIfs

namespace AbiCalls

theorem Json.heightOfItems_le_iff {items : List Json} {n : Nat} :
    heightOfItems items ≤ n ↔ ∀ item ∈ items, item.height ≤ n := by
  induction items with
  | nil => simp [heightOfItems]
  | cons item items ih => rw [heightOfItems, Nat.max_le, ih, List.forall_mem_cons]

theorem Json.heightOfFields_le_iff {fields : List (String × Json)} {n : Nat} :
    heightOfFields fields ≤ n ↔ ∀ field ∈ fields, field.2.height ≤ n := by
  induction fields with
  | nil => simp [heightOfFields]
  | cons field fields ih =>
    obtain ⟨name, value⟩ := field
    rw [heightOfFields, Nat.max_le, ih, List.forall_mem_cons]

theorem height_of_toJson? {negative : Bool} {text : NumberText} {value : Json}
    (h : text.toJson? negative = some value) : value.height = 0 := by
  have float : ∀ {write : Float → Float}, (text.toFloat?.map fun x => Json.float (write x)) = some value →
      value.height = 0 := by
    intro write h
    obtain ⟨x, _, rfl⟩ := Option.map_eq_some_iff.mp h
    rfl
  unfold NumberText.toJson? at h
  simp only at h
  split at h
  next =>
    split_ifs at h
    · cases h
      rfl
    · exact float h
    · cases h
      rfl
    · exact float h
  next => exact float h

theorem height_of_readNumber {negative : Bool} {input rest : Input} {value : Json}
    (h : readNumber negative input = .ok (value, rest)) : value.height = 0 := by
  unfold readNumber at h
  split at h
  next => cases h
  next =>
    split at h
    next hnumber =>
      cases h
      exact height_of_toJson? hnumber
    next => cases h

theorem readValueWith_eq_ok {readNested : Char → Reader Json} {input rest : Input} {value : Json}
    (h : readValueWith readNested input = .ok (value, rest)) :
    value.height = 0 ∨ ∃ bracket inside, readNested bracket inside = .ok (value, rest) := by
  unfold readValueWith at h
  split at h
  next => cases h
  next => cases h
  next c inside _ =>
    split_ifs at h
    · obtain ⟨_, _, h⟩ := bind_eq_ok h
      cases h
      exact .inl rfl
    · obtain ⟨_, _, h⟩ := bind_eq_ok h
      cases h
      exact .inl rfl
    · obtain ⟨_, _, h⟩ := bind_eq_ok h
      cases h
      exact .inl rfl
    · exact .inl (height_of_readNumber h)
    · exact .inl (height_of_readNumber h)
    · obtain ⟨_, _, h⟩ := bind_eq_ok h
      cases h
      exact .inl rfl
    · exact .inr ⟨c, inside, h⟩

theorem forall_mem_of_readItems {readItem : Reader Json} {P : Json → Prop}
    (own : ∀ {input rest v}, readItem input = .ok (v, rest) → P v) {limit : Nat} {read items : List Json}
    {input rest : Input} (h : readItems readItem limit read input = .ok (items, rest))
    (before : ∀ v ∈ read, P v) : ∀ v ∈ items, P v := by
  induction limit generalizing read input with
  | zero => cases h
  | succ limit ih =>
    rw [readItems] at h
    obtain ⟨⟨item, after⟩, hitem, h⟩ := bind_eq_ok h
    have kept : ∀ v ∈ item :: read, P v := List.forall_mem_cons.mpr ⟨own hitem, before⟩
    simp only at h
    split at h
    next => cases h
    next =>
      cases h
      exact fun v hv => kept v (List.mem_reverse.mp hv)
    next =>
      split at h
      next => cases h
      next => cases h
      next => exact ih h kept
    next => cases h

theorem forall_mem_of_readFields {readItem : Reader Json} {P : Json → Prop}
    (own : ∀ {input rest v}, readItem input = .ok (v, rest) → P v) {limit : Nat}
    {read fields : List (String × Json)} {input rest : Input}
    (h : readFields readItem limit read input = .ok (fields, rest))
    (before : ∀ field ∈ read, P field.2) : ∀ field ∈ fields, P field.2 := by
  induction limit generalizing read input with
  | zero => cases h
  | succ limit ih =>
    rw [readFields.eq_def] at h
    simp only at h
    split at h
    next =>
      obtain ⟨⟨name, after⟩, _, h⟩ := bind_eq_ok h
      obtain ⟨colon, _, h⟩ := bind_eq_ok h
      obtain ⟨⟨value, after⟩, hvalue, h⟩ := bind_eq_ok h
      have kept : ∀ field ∈ insertNamed name value read, P field.2 := by
        intro field hf
        rcases mem_insertNamed hf with rfl | hf
        · exact own hvalue
        · exact before field hf
      simp only at h
      split at h
      next => cases h
      next =>
        cases h
        exact kept
      next =>
        split at h
        next => cases h
        next => cases h
        next => exact ih h kept
      next => cases h
    next => cases h

theorem forall_mem_of_readList {readItem : Reader Json} {P : Json → Prop}
    (own : ∀ {input rest v}, readItem input = .ok (v, rest) → P v) {items : List Json}
    {input rest : Input} (h : readList readItem input = .ok (items, rest)) : ∀ v ∈ items, P v := by
  unfold readList at h
  split at h
  next => cases h
  next =>
    cases h
    exact fun _ hv => nomatch hv
  next => exact forall_mem_of_readItems own h fun _ hv => nomatch hv

theorem forall_mem_of_readObject {readItem : Reader Json} {P : Json → Prop}
    (own : ∀ {input rest v}, readItem input = .ok (v, rest) → P v) {fields : List (String × Json)}
    {input rest : Input} (h : readObject readItem input = .ok (fields, rest)) :
    ∀ field ∈ fields, P field.2 := by
  unfold readObject at h
  split at h
  next => cases h
  next =>
    cases h
    exact fun _ hv => nomatch hv
  next => exact forall_mem_of_readFields own h fun _ hv => nomatch hv

/-- Values are nested no deeper than the reader goes. -/
theorem height_le_of_readValue {depth : Nat} {input rest : Input} {value : Json}
    (h : readValue depth input = .ok (value, rest)) : value.height ≤ depth := by
  induction depth generalizing input rest value with
  | zero =>
    rcases readValueWith_eq_ok h with flat | ⟨_, _, nested⟩
    · exact Nat.le_of_eq flat
    · cases nested
  | succ depth ih =>
    rcases readValueWith_eq_ok h with flat | ⟨bracket, inside, nested⟩
    · exact flat ▸ Nat.zero_le _
    · split_ifs at nested
      · obtain ⟨⟨items, after⟩, hitems, nested⟩ := bind_eq_ok nested
        cases nested
        exact Nat.succ_le_succ (Json.heightOfItems_le_iff.mpr (forall_mem_of_readList ih hitems))
      · obtain ⟨⟨fields, after⟩, hfields, nested⟩ := bind_eq_ok nested
        cases nested
        exact Nat.succ_le_succ (Json.heightOfFields_le_iff.mpr (forall_mem_of_readObject ih hfields))

theorem Json.height_of_ofText {text : String} {value : Json} (h : ofText text = .ok value) :
    value.height ≤ nestingLimit := by
  obtain ⟨⟨read, rest⟩, hread, h⟩ := bind_eq_ok h
  obtain ⟨_, _, h⟩ := bind_eq_ok h
  cases h
  exact height_le_of_readValue hread

end AbiCalls
