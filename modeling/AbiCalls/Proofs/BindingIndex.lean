import AbiCalls.Bindings
import AbiCalls.Proofs.NameMaps

namespace AbiCalls

namespace Bindings

/-- The index leads from a name to the place of the entry with that name, and from no other name. -/
def Indexed (b : Bindings) : Prop :=
  ∀ (name : String) (place : Nat),
    b.index[name]? = some place ↔ (b.entries[place]?).map Prod.fst = some name

variable {b : Bindings}

theorem indexed_empty : empty.Indexed := by
  intro name place
  simp [empty]

theorem insert_of_some {name : String} {place : Nat} (h : b.index[name]? = some place)
    (value : Binding) :
    b.insert name value =
      { b with entries := b.entries.modify place fun entry => (entry.1, value) } := by
  simp only [insert, h]

theorem insert_of_none {name : String} (h : b.index[name]? = none) (value : Binding) :
    b.insert name value = ⟨b.entries.push (name, value), b.index.insert name b.entries.size⟩ := by
  simp only [insert, h]

theorem Indexed.insert (h : b.Indexed) (name : String) (value : Binding) :
    (b.insert name value).Indexed := by
  intro x place
  cases found : b.index[name]? with
  | some known =>
    rw [insert_of_some found, h x place]
    simp only [Array.getElem?_modify]
    split
    next => simp [Option.map_map, Function.comp_def]
    next => rfl
  | none =>
    rw [insert_of_none found]
    simp only [Std.HashMap.getElem?_insert, Array.getElem?_push, beq_iff_eq]
    by_cases hp : place = b.entries.size
    · subst hp
      have vacant : b.index[x]? ≠ some b.entries.size := by
        rw [Ne, h x]
        simp
      by_cases hx : name = x <;> simp [hx, vacant]
    · have fresh : (b.entries[place]?).map Prod.fst ≠ some name := by
        rw [Ne, ← h name place, found]
        simp
      by_cases hx : name = x
      · subst hx
        simp [hp, fresh, Ne.symm hp]
      · simp only [hx, hp, if_false]
        exact h x place

theorem indexed_ofList (entries : List (String × Binding)) : (ofList entries).Indexed :=
  List.foldlRecOn entries _ indexed_empty fun _ h entry _ => h.insert entry.1 entry.2

theorem Indexed.mem_toList_iff (h : b.Indexed) {name : String} {value : Binding} :
    (name, value) ∈ b.toList ↔ b.get? name = some value := by
  have hget : ∀ place, b.index[name]? = some place →
      ∃ entry, b.entries[place]? = some entry ∧ entry.1 = name := by
    intro place hplace
    exact Option.map_eq_some_iff.mp ((h name place).mp hplace)
  unfold toList get?
  rw [Array.mem_toList_iff, Array.mem_iff_getElem?]
  constructor
  · rintro ⟨place, hplace⟩
    have hindex : b.index[name]? = some place := by
      rw [h name place, hplace]
      rfl
    simp [hindex, hplace]
  · intro hvalue
    split at hvalue
    next place hplace =>
      obtain ⟨⟨_, v⟩, hentry, rfl⟩ := hget place hplace
      rw [hentry] at hvalue
      cases hvalue
      exact ⟨place, hentry⟩
    next => cases hvalue

theorem Indexed.names_nodup (h : b.Indexed) : (b.toList.map Prod.fst).Nodup := by
  rw [List.nodup_iff_getElem?_ne_getElem?]
  intro i j hij hj same
  obtain ⟨name, hname⟩ : ∃ name, (b.toList.map Prod.fst)[j]? = some name :=
    ⟨_, List.getElem?_eq_getElem hj⟩
  have places : ∀ k, (b.toList.map Prod.fst)[k]? = some name → b.index[name]? = some k := by
    intro k hk
    rw [h]
    simpa [toList] using hk
  have hi := places i (same.trans hname)
  rw [places j hname, Option.some.injEq] at hi
  omega

theorem Indexed.get?_insert (h : b.Indexed) (name : String) (value : Binding) (x : String) :
    (b.insert name value).get? x = if x = name then some value else b.get? x := by
  cases found : b.index[name]? with
  | some known =>
    obtain ⟨entry, hentry, hname⟩ := Option.map_eq_some_iff.mp ((h name known).mp found)
    rw [insert_of_some found]
    by_cases hx : x = name
    · subst hx
      simp [get?, found, Array.getElem?_modify, hentry]
    · simp only [get?, hx, if_false]
      split
      next place hplace =>
        have hne : known ≠ place := by
          rintro rfl
          have hfst := (h x known).mp hplace
          rw [hentry, Option.map_some, Option.some.injEq] at hfst
          exact hx (hfst.symm.trans hname)
        simp [Array.getElem?_modify, hne]
      next => rfl
  | none =>
    rw [insert_of_none found]
    by_cases hx : x = name
    · subst hx
      simp [get?]
    · simp only [get?, Std.HashMap.getElem?_insert, beq_iff_eq, Ne.symm hx, if_false, hx]
      split
      next place hplace =>
        have bound : place < b.entries.size := by
          have hfst := (h x place).mp hplace
          obtain ⟨_, hentry, _⟩ := Option.map_eq_some_iff.mp hfst
          exact (Array.getElem?_eq_some_iff.mp hentry).1
        simp [Array.getElem?_push, Nat.ne_of_lt bound]
      next => rfl

theorem get?_ofList (entries : List (String × Binding)) (name : String) :
    (ofList entries).get? name = entries.reverse.lookup name := by
  have found := get_foldl_insert get? Indexed (fun h => Indexed.insert h _ _)
    (fun h => Indexed.get?_insert h _ _) entries indexed_empty name
  have absent : empty.get? name = none := by simp [get?, empty]
  rwa [absent, Option.or_none] at found

theorem toList_insert_fresh (h : b.Indexed) {name : String} (fresh : name ∉ b.toList.map Prod.fst)
    (value : Binding) : (b.insert name value).toList = b.toList ++ [(name, value)] := by
  have absent : b.index[name]? = none := by
    rw [Option.eq_none_iff_forall_ne_some]
    intro place hplace
    obtain ⟨entry, hentry, hname⟩ := Option.map_eq_some_iff.mp ((h name place).mp hplace)
    exact fresh (List.mem_map.mpr ⟨entry, Array.mem_toList_iff.mpr (Array.mem_of_getElem? hentry), hname⟩)
  rw [insert_of_none absent]
  simp [toList]

theorem toList_foldl (entries : List (String × Binding)) (h : b.Indexed)
    (distinct : ((b.toList ++ entries).map Prod.fst).Nodup) :
    (entries.foldl (fun b entry => b.insert entry.1 entry.2) b).toList = b.toList ++ entries := by
  induction entries generalizing b with
  | nil => simp
  | cons entry entries ih =>
    have fresh : entry.1 ∉ b.toList.map Prod.fst := by
      intro hmem
      rw [List.map_append, List.nodup_append] at distinct
      exact distinct.2.2 _ hmem _ List.mem_cons_self rfl
    have pushed := toList_insert_fresh h fresh entry.2
    rw [List.foldl_cons, ih (h.insert _ _), pushed, List.append_assoc, List.singleton_append]
    rwa [pushed, List.append_assoc, List.singleton_append]

theorem toList_ofList {entries : List (String × Binding)} (distinct : (entries.map Prod.fst).Nodup) :
    (ofList entries).toList = entries := by
  have started : (empty.toList ++ entries).map Prod.fst = entries.map Prod.fst := by
    simp [toList, empty]
  rw [ofList, toList_foldl entries indexed_empty (started ▸ distinct)]
  simp [toList, empty]

end Bindings

end AbiCalls
