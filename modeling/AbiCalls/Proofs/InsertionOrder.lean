import AbiCalls.Proofs.BindingIndex
import Mathlib.Data.Finset.Card

namespace AbiCalls

inductive Addition
  | binding (name : String) (value : Binding)
  | factory (name : String) (abi : Abi)
  | other (name : String) (value : Json)

namespace Addition

def addTo (b : Bindings) : Addition → Bindings
  | .binding name value => b.insert name value
  | .factory name abi => b.insert name (.factory abi)
  | .other name value => b.insert name (.other value)

def entry : Addition → String × Binding
  | .binding name value => (name, value)
  | .factory name abi => (name, .factory abi)
  | .other name value => (name, .other value)

theorem addTo_eq_insert (b : Bindings) (addition : Addition) :
    addition.addTo b = b.insert addition.entry.1 addition.entry.2 := by
  cases addition <;> rfl

end Addition

namespace Bindings

variable {b : Bindings}

def build (listed : List (String × Binding)) (additions : List Addition) : Bindings :=
  additions.foldl Addition.addTo (ofList listed)

theorem build_eq_ofList (listed : List (String × Binding)) (additions : List Addition) :
    build listed additions = ofList (listed ++ additions.map Addition.entry) := by
  rw [build, ofList, ofList, List.foldl_append, List.foldl_map]
  congr 1
  funext b addition
  exact addition.addTo_eq_insert b

theorem Indexed.lt_size (h : b.Indexed) {name : String} {place : Nat}
    (found : b.index[name]? = some place) : place < b.entries.size := by
  obtain ⟨entry, hentry, _⟩ := Option.map_eq_some_iff.mp ((h name place).mp found)
  exact (Array.getElem?_eq_some_iff.mp hentry).1

theorem Indexed.mem_index_iff (h : b.Indexed) {name : String} :
    name ∈ b.index ↔ name ∈ b.toList.map Prod.fst := by
  rw [Std.HashMap.mem_iff_isSome_getElem?, Option.isSome_iff_exists, List.mem_iff_getElem?]
  simp only [h name, toList, List.getElem?_map, Array.getElem?_toList]

theorem Indexed.toList_insert_known (h : b.Indexed) {name : String} {place : Nat}
    (found : b.index[name]? = some place) (value : Binding) :
    (b.insert name value).toList = b.toList.set place (name, value) := by
  obtain ⟨entry, hentry, hname⟩ := Option.map_eq_some_iff.mp ((h name place).mp found)
  rw [insert_of_some found]
  simp only [toList, Array.toList_modify]
  rw [List.modify_eq_set_getElem?, Array.getElem?_toList, hentry, ← hname]
  rfl

theorem Indexed.names_insert (h : b.Indexed) (name : String) (value : Binding) :
    (b.insert name value).toList.map Prod.fst =
      b.toList.map Prod.fst ++ [name].removeAll (b.toList.map Prod.fst) := by
  by_cases known : name ∈ b.toList.map Prod.fst
  · obtain ⟨place, found⟩ := Option.isSome_iff_exists.mp
      (Std.HashMap.mem_iff_isSome_getElem?.mp (h.mem_index_iff.mpr known))
    have stands : (b.toList.map Prod.fst)[place]? = some name := by
      rw [← (h name place).mp found]
      simp [toList]
    obtain ⟨bound, hname⟩ := List.getElem?_eq_some_iff.mp stands
    have kept : (b.toList.map Prod.fst).set place name = b.toList.map Prod.fst := by
      rw [← hname]
      exact List.set_getElem_self bound
    rw [h.toList_insert_known found, List.map_set, kept]
    simp [List.removeAll, known]
  · rw [toList_insert_fresh h known, List.map_append]
    simp [List.removeAll, known]

/-- Names stand in the order in which each of them was inserted first. -/
theorem names_ofList (entries : List (String × Binding)) :
    (ofList entries).toList.map Prod.fst = (entries.map Prod.fst).eraseDups := by
  induction entries using List.reverseRecOn with
  | nil => rfl
  | append_singleton entries entry ih =>
    have last : ofList (entries ++ [entry]) = (ofList entries).insert entry.1 entry.2 := by
      simp [ofList]
    have once : ([entry.1].removeAll (entries.map Prod.fst)).eraseDups =
        [entry.1].removeAll (entries.map Prod.fst) := by
      by_cases known : entry.1 ∈ entries.map Prod.fst <;>
        simp [List.removeAll, known, List.eraseDups_cons]
    have same : [entry.1].removeAll (entries.map Prod.fst).eraseDups =
        [entry.1].removeAll (entries.map Prod.fst) := by
      by_cases known : entry.1 ∈ entries.map Prod.fst <;>
        simp [List.removeAll, known, List.mem_eraseDups]
    rw [last, (indexed_ofList entries).names_insert, ih, same, List.map_append, List.eraseDups_append]
    exact congrArg _ once.symm

/-- What bindings are when entries were inserted one after another: the index is right about every name, and the
entries stand in the order of their first insertion with the value of their last. -/
structure InOrderOf (entries : List (String × Binding)) (b : Bindings) : Prop where
  distinct : (b.toList.map Prod.fst).Nodup
  indexed : ∀ (name : String) (place : Nat),
    b.index[name]? = some place ↔ (b.toList.map Prod.fst)[place]? = some name
  known : ∀ name, name ∈ b.index ↔ name ∈ b.toList.map Prod.fst
  inBounds : ∀ (name : String) (place : Nat), b.index[name]? = some place → place < b.entries.size
  order : b.toList.map Prod.fst = (entries.map Prod.fst).eraseDups
  last : ∀ e ∈ b.toList, entries.reverse.lookup e.1 = some e.2
  found : ∀ name, b.get? name = entries.reverse.lookup name
  agrees : ∀ name value, b.get? name = some value ↔ (name, value) ∈ b.toList
  size_eq : b.size = (entries.map Prod.fst).toFinset.card

theorem inOrderOf_ofList (entries : List (String × Binding)) :
    InOrderOf entries (ofList entries) := by
  have indexed := indexed_ofList entries
  have order := names_ofList entries
  refine
    { distinct := indexed.names_nodup
      indexed := fun name place => ?_
      known := fun name => indexed.mem_index_iff
      inBounds := fun name place => indexed.lt_size
      order
      last := fun e he => ?_
      found := get?_ofList entries
      agrees := fun name value => indexed.mem_toList_iff.symm
      size_eq := ?_ }
  · rw [indexed name place]
    simp [toList]
  · rw [← get?_ofList]
    exact indexed.mem_toList_iff.mp he
  · have names : (entries.map Prod.fst).toFinset = ((ofList entries).toList.map Prod.fst).toFinset := by
      ext name
      rw [List.mem_toFinset, List.mem_toFinset, order, List.mem_eraseDups]
    rw [names, List.toFinset_card_of_nodup indexed.names_nodup, List.length_map]
    rfl

end Bindings

/-- Bindings are a map in the order of insertion, however they are built up. This is so before each insertion of a
longer sequence too, so that the place which the index gives for a name is always there. -/
theorem build_keeps_insertion_order (listed : List (String × Binding)) (additions : List Addition) :
    Bindings.InOrderOf (listed ++ additions.map Addition.entry) (Bindings.build listed additions) := by
  rw [Bindings.build_eq_ofList]
  exact Bindings.inOrderOf_ofList _

end AbiCalls
