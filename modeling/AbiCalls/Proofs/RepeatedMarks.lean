import AbiCalls.Proofs.Factories

namespace AbiCalls

def IsMarked (name : String) : Prop :=
  factoryMark <:+ name.toList

theorem isMarked_iff_contractName? {name : String} :
    IsMarked name ↔ (contractName? name).isSome := by
  simp [IsMarked, contractName?]

theorem isMarked_iff {name : String} : IsMarked name ↔ ∃ contract, name = factoryName contract := by
  rw [isMarked_iff_contractName?, Option.isSome_iff_exists]
  simp only [contractName?_eq_some_iff]

namespace Catalog

variable {b : Bindings} (defaults : Option DefaultAddresses)

theorem marked_mem_names_iff (h : b.Indexed) (contract : String) :
    contract ∈ (ofBindings b defaults).names ∧ IsMarked contract ↔
      ∃ base abi, contract = factoryName base ∧
        b.get? (factoryName (factoryName base)) = some (.factory abi) := by
  rw [mem_names_ofBindings defaults h, isMarked_iff]
  constructor
  · rintro ⟨⟨abi, bound⟩, base, rfl⟩
    exact ⟨base, abi, rfl, bound⟩
  · rintro ⟨base, abi, rfl, bound⟩
    exact ⟨⟨abi, bound⟩, base, rfl⟩

end Catalog

/-- The mark is gone from the names of all contracts just if no factory is bound under a name with two marks. A
contract that keeps a mark has the name of its factory without one of them. -/
theorem marks_gone_iff_none_repeated (entries : List (String × Binding))
    (defaults : Option DefaultAddresses) :
    let bindings := Bindings.ofList entries
    let catalog := Catalog.ofBindings bindings defaults
    (∀ contract, contract ∈ catalog.names ∧ IsMarked contract ↔
      ∃ base abi, contract = factoryName base ∧
        bindings.get? (factoryName (factoryName base)) = some (.factory abi)) ∧
    ((∀ contract ∈ catalog.names, ¬ IsMarked contract) ↔
      ∀ base abi, bindings.get? (factoryName (factoryName base)) ≠ some (.factory abi)) := by
  intro bindings catalog
  have indexed : bindings.Indexed := Bindings.indexed_ofList entries
  have marked := Catalog.marked_mem_names_iff defaults indexed
  refine ⟨marked, ?_⟩
  constructor
  · intro gone base abi bound
    obtain ⟨hmem, hmarked⟩ := (marked (factoryName base)).mpr ⟨base, abi, rfl, bound⟩
    exact gone _ hmem hmarked
  · intro none_repeated contract hmem hmarked
    obtain ⟨base, abi, _, bound⟩ := (marked contract).mp ⟨hmem, hmarked⟩
    exact none_repeated base abi bound

/-- A factory with two marks. -/
def twiceMarkedBindings : List (String × Binding) :=
  [("A__factory__factory", .factory ⟨[]⟩)]

theorem twiceMarked_keeps_mark :
    ¬ ∀ (entries : List (String × Binding)) (defaults : Option DefaultAddresses),
      ∀ contract ∈ (Catalog.ofBindings (Bindings.ofList entries) defaults).names, ¬ IsMarked contract := by
  intro gone
  have bound : (Bindings.ofList twiceMarkedBindings).get? "A__factory__factory" =
      some (.factory ⟨[]⟩) := by
    rw [Bindings.get?_ofList]
    rfl
  have kept : "A__factory" ∈ (Catalog.ofBindings (Bindings.ofList twiceMarkedBindings) none).names :=
    (Catalog.mem_names_ofBindings none (Bindings.indexed_ofList _)).mpr ⟨⟨[]⟩, bound⟩
  exact gone twiceMarkedBindings none "A__factory" kept (isMarked_iff.mpr ⟨"A", rfl⟩)

end AbiCalls
