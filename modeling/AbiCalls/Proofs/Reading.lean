import AbiCalls.Abi.Decoding
import Mathlib.Data.List.Forall2

namespace AbiCalls

theorem bind_eq_ok {ε α β : Type} {x : Except ε α} {f : α → Except ε β} {b : β}
    (h : (x >>= f) = .ok b) : ∃ a, x = .ok a ∧ f a = .ok b := by
  cases x with
  | error e => cases h
  | ok a => exact ⟨a, rfl, h⟩

theorem mapM_eq_ok_iff {ε α β : Type} {f : α → Except ε β} {as : List α} {bs : List β} :
    as.mapM f = .ok bs ↔ List.Forall₂ (fun a b => f a = .ok b) as bs := by
  induction as generalizing bs with
  | nil =>
    rw [List.mapM_nil, List.forall₂_nil_left_iff]
    exact ⟨fun h => (Except.ok.inj h).symm, fun h => h ▸ rfl⟩
  | cons a as ih =>
    rw [List.mapM_cons, List.forall₂_cons_left_iff]
    constructor
    · intro h
      obtain ⟨b, hb, h⟩ := bind_eq_ok h
      obtain ⟨rest, hrest, h⟩ := bind_eq_ok h
      cases h
      exact ⟨b, rest, hb, ih.mp hrest, rfl⟩
    · rintro ⟨b, rest, hb, hrest, rfl⟩
      rw [hb, ih.mpr hrest]
      rfl

theorem exists_bind_pure_iff {ε α β : Type} {x : Except ε α} {g : α → β} :
    (∃ b, (x >>= fun a => pure (g a)) = .ok b) ↔ ∃ a, x = .ok a := by
  cases x <;> simp [bind, Except.bind, pure, Except.pure]

theorem exists_foldlM_iff {ε σ α : Type} {f : σ → α → Except ε σ} {P : α → Prop}
    (step : ∀ s a, (∃ s', f s a = .ok s') ↔ P a) (as : List α) (s : σ) :
    (∃ s', as.foldlM f s = .ok s') ↔ ∀ a ∈ as, P a := by
  induction as generalizing s with
  | nil => simp [pure, Except.pure]
  | cons a as ih =>
    rw [List.foldlM_cons, List.forall_mem_cons, ← step s a]
    constructor
    · rintro ⟨last, h⟩
      obtain ⟨s', first, rest⟩ := bind_eq_ok h
      exact ⟨⟨s', first⟩, (ih s').mp ⟨last, rest⟩⟩
    · rintro ⟨⟨s', first⟩, rest⟩
      obtain ⟨last, h⟩ := (ih s').mpr rest
      exact ⟨last, by rw [first]; exact h⟩

theorem exists_mapM_iff {ε α β : Type} {f : α → Except ε β} {as : List α} :
    (∃ bs, as.mapM f = .ok bs) ↔ ∀ a ∈ as, ∃ b, f a = .ok b := by
  induction as with
  | nil => simp [pure, Except.pure]
  | cons a as ih =>
    rw [List.mapM_cons, List.forall_mem_cons, ← ih]
    constructor
    · rintro ⟨bs, h⟩
      obtain ⟨b, hb, h⟩ := bind_eq_ok h
      obtain ⟨rest, hrest, -⟩ := bind_eq_ok h
      exact ⟨⟨b, hb⟩, rest, hrest⟩
    · rintro ⟨⟨b, hb⟩, rest, hrest⟩
      exact ⟨b :: rest, by rw [hb, hrest]; rfl⟩

/-- The first value that cannot be read decides about the fault. -/
theorem mapM_eq_error {ε α β : Type} {f : α → Except ε β} {as : List α} {e : ε} (h : as.mapM f = .error e) :
    ∃ before a after, as = before ++ a :: after ∧ (∀ b ∈ before, ∃ c, f b = .ok c) ∧ f a = .error e := by
  induction as with
  | nil => cases h
  | cons a as ih =>
    rw [List.mapM_cons] at h
    cases first : f a with
    | error e' =>
      rw [first] at h
      cases h
      exact ⟨[], a, as, rfl, nofun, first⟩
    | ok b =>
      rw [first] at h
      cases rest : as.mapM f with
      | error e' =>
        rw [rest] at h
        cases h
        obtain ⟨before, other, after, rfl, read, failed⟩ := ih rest
        exact ⟨a :: before, other, after, rfl, List.forall_mem_cons.mpr ⟨⟨b, first⟩, read⟩, failed⟩
      | ok bs =>
        rw [rest] at h
        cases h

def Json.members? : Json → Option (List Json)
  | .list items => some items
  | .object fields =>
    match fields.lookup "abi" with
    | some (.list items) => some items
    | _ => none
  | _ => none

theorem Abi.ofMembers_eq_ok_iff {value : Json} {abi : Abi} :
    ofMembers value = .ok abi ↔
      ∃ items, value = .list items ∧
        List.Forall₂ (fun item m => Member.ofJson item = .ok m) items abi.members := by
  constructor
  · intro h
    obtain ⟨items, hitems, h⟩ := bind_eq_ok h
    obtain ⟨members, hmembers, h⟩ := bind_eq_ok h
    cases h
    cases value <;> cases hitems
    exact ⟨items, rfl, mapM_eq_ok_iff.mp hmembers⟩
  · rintro ⟨items, rfl, h⟩
    simp only [ofMembers, Json.asItems, mapM_eq_ok_iff.mpr h, bind, Except.bind]
    rfl

theorem Abi.ofJson_eq_ok_iff {value : Json} {abi : Abi} :
    ofJson value = .ok abi ↔
      ∃ items, value.members? = some items ∧
        List.Forall₂ (fun item m => Member.ofJson item = .ok m) items abi.members := by
  have list : ∀ value : Json, ofList value = .ok abi ↔ ofMembers value = .ok abi := by
    intro value
    unfold ofList
    split <;> simp_all
  cases value with
  | object fields =>
    simp only [ofJson, Json.members?]
    cases fields.lookup "abi" with
    | none => simp
    | some members =>
      simp only
      rw [list, ofMembers_eq_ok_iff]
      cases members <;> simp
  | _ =>
    simp only [ofJson]
    rw [list, ofMembers_eq_ok_iff]
    simp [Json.members?]

end AbiCalls
