import AbiCalls.Names
import Mathlib.Data.List.Nodup

namespace AbiCalls

theorem lookup_eq_some_iff_mem {α : Type u} {entries : List (String × α)}
    (distinct : (entries.map Prod.fst).Nodup) {name : String} {value : α} :
    entries.lookup name = some value ↔ (name, value) ∈ entries := by
  rw [List.lookup_eq_some_iff]
  constructor
  · rintro ⟨before, after, rfl, _⟩
    exact List.mem_append_right before List.mem_cons_self
  · intro h
    obtain ⟨before, after, rfl⟩ := List.append_of_mem h
    refine ⟨before, after, rfl, fun e he => bne_iff_ne.mpr ?_⟩
    rw [List.map_append, List.map_cons, List.nodup_append] at distinct
    exact (distinct.2.2 e.1 (List.mem_map_of_mem he) name List.mem_cons_self).symm

theorem lookup_reverse_eq_some_iff_mem {α : Type u} {entries : List (String × α)}
    (distinct : (entries.map Prod.fst).Nodup) {name : String} {value : α} :
    entries.reverse.lookup name = some value ↔ (name, value) ∈ entries := by
  have reversed : (entries.reverse.map Prod.fst).Nodup := by
    rw [List.map_reverse]
    exact List.nodup_reverse.mpr distinct
  rw [lookup_eq_some_iff_mem reversed, List.mem_reverse]

/-- Inserting one entry after another: the last value of a name is found, or else what was there before. -/
theorem get_foldl_insert {M : Type u} {α : Type v} {insert : M → String → α → M}
    (get : M → String → Option α) (Inv : M → Prop)
    (keeps : ∀ {m name value}, Inv m → Inv (insert m name value))
    (law : ∀ {m name value}, Inv m →
      ∀ x, get (insert m name value) x = if x = name then some value else get m x)
    (entries : List (String × α)) {m : M} (h : Inv m) (x : String) :
    get (entries.foldl (fun m e => insert m e.1 e.2) m) x =
      (entries.reverse.lookup x).or (get m x) := by
  induction entries generalizing m with
  | nil => rfl
  | cons e entries ih =>
    rw [List.foldl_cons, ih (keeps h), law h, List.reverse_cons, List.lookup_append, Option.or_assoc]
    by_cases hx : x = e.1
    · subst hx
      rw [if_pos rfl, List.lookup_cons_self]
      rfl
    · rw [if_neg hx, lookup_cons_ne e.2 [] hx]
      rfl

namespace NameMap

variable {α : Type u}

theorem names_ascending (m : NameMap α) : m.names.Pairwise (· < ·) :=
  List.pairwise_map.mpr m.ascending

theorem names_nodup (m : NameMap α) : m.names.Nodup :=
  m.names_ascending.imp String.ne_of_lt

theorem get?_eq_some_iff {m : NameMap α} {name : String} {value : α} :
    m.get? name = some value ↔ (name, value) ∈ m.entries :=
  lookup_eq_some_iff_mem m.names_nodup

theorem mem_names_iff {m : NameMap α} {name : String} : name ∈ m.names ↔ m.contains name := by
  unfold names contains
  rw [Option.isSome_iff_exists]
  constructor
  · intro h
    obtain ⟨e, he, rfl⟩ := List.mem_map.mp h
    exact ⟨e.2, get?_eq_some_iff.mpr he⟩
  · rintro ⟨value, hv⟩
    exact List.mem_map.mpr ⟨_, get?_eq_some_iff.mp hv, rfl⟩

theorem map_get?_names (m : NameMap α) : m.names.map m.get? = m.values.map some := by
  unfold names values
  rw [List.map_map, List.map_map]
  exact List.map_congr_left fun e he => get?_eq_some_iff.mpr he

theorem contains_insert (m : NameMap α) (name : String) (value : α) (x : String) :
    (m.insert name value).contains x = (decide (x = name) || m.contains x) := by
  unfold contains
  rw [get?_insert]
  by_cases h : x = name <;> simp [h]

theorem eq_of_get?_eq {m₁ m₂ : NameMap α} (h : ∀ name, m₁.get? name = m₂.get? name) : m₁ = m₂ := by
  have same : m₁.entries.Perm m₂.entries := by
    rw [List.perm_ext_iff_of_nodup (m₁.names_nodup.of_map _) (m₂.names_nodup.of_map _)]
    rintro ⟨name, value⟩
    rw [← get?_eq_some_iff, ← get?_eq_some_iff, h]
  have order : ∀ a b : String × α, a ∈ m₁.entries → b ∈ m₂.entries → a.1 < b.1 → b.1 < a.1 → a = b :=
    fun a b _ _ hab hba => absurd hba (String.lt_asymm hab)
  obtain ⟨entries₁, ascending₁⟩ := m₁
  obtain ⟨entries₂, ascending₂⟩ := m₂
  cases same.eq_of_pairwise order ascending₁ ascending₂
  rfl

theorem get?_ofList (entries : List (String × α)) (name : String) :
    (ofList entries).get? name = entries.reverse.lookup name := by
  have found := get_foldl_insert get? (fun _ : NameMap α => True)
    (fun _ => trivial) (fun _ => get?_insert _ _ _) entries (m := empty) trivial name
  rwa [get?_empty, Option.or_none] at found

theorem entries_ofList_perm {entries : List (String × α)} (distinct : (entries.map Prod.fst).Nodup) :
    (ofList entries).entries.Perm entries := by
  rw [List.perm_ext_iff_of_nodup ((names_nodup _).of_map _) (distinct.of_map _)]
  rintro ⟨name, value⟩
  rw [← get?_eq_some_iff, get?_ofList, lookup_reverse_eq_some_iff_mem distinct]

theorem ofList_entries (m : NameMap α) : ofList m.entries = m := by
  apply eq_of_get?_eq
  intro name
  apply Option.eq_of_eq_some
  intro value
  rw [get?_ofList, lookup_reverse_eq_some_iff_mem m.names_nodup, get?_eq_some_iff]

theorem get?_mapValues {β : Type v} (f : String → α → β) (m : NameMap α) (name : String) :
    (m.mapValues f).get? name = (m.get? name).map (f name) := by
  apply Option.eq_of_eq_some
  intro value
  rw [get?_eq_some_iff, Option.map_eq_some_iff]
  constructor
  · intro h
    obtain ⟨e, he, hvalue⟩ := List.mem_map.mp h
    cases hvalue
    exact ⟨e.2, get?_eq_some_iff.mpr he, rfl⟩
  · rintro ⟨own, hown, rfl⟩
    exact List.mem_map.mpr ⟨_, get?_eq_some_iff.mp hown, rfl⟩

theorem names_mapValues {β : Type v} (f : String → α → β) (m : NameMap α) :
    (m.mapValues f).names = m.names := by
  simp [names, mapValues, Function.comp_def]

end NameMap

end AbiCalls
