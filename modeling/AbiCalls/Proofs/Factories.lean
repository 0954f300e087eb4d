import AbiCalls.Catalog
import AbiCalls.Proofs.BindingIndex

namespace AbiCalls

def factoryName (contract : String) : String :=
  contract ++ "__factory"

theorem toList_factoryName (contract : String) :
    (factoryName contract).toList = contract.toList ++ factoryMark := by
  rw [factoryName, String.toList_append]
  rfl

theorem contractName?_eq_some_iff {name contract : String} :
    contractName? name = some contract ↔ name = factoryName contract := by
  rw [← String.toList_inj, toList_factoryName]
  simp only [contractName?, List.isSuffixOf_iff_suffix]
  constructor
  · intro h
    split at h
    next marked =>
      obtain ⟨cs, hcs⟩ := marked
      rw [← hcs] at h ⊢
      cases Option.some.inj h
      simp
    next => cases h
  · intro h
    simp [h]

def isMarkedFactory (entry : String × Binding) : Bool :=
  match entry.2 with
  | .factory _ => factoryMark <:+ entry.1.toList
  | .other _ => false

theorem contractOf?_eq_some_iff {name contract : String} {value : Binding} {abi : Abi} :
    contractOf? name value = some (contract, abi) ↔
      name = factoryName contract ∧ value = .factory abi := by
  cases value with
  | factory own => simp [contractOf?, contractName?_eq_some_iff]
  | other value => simp [contractOf?]

theorem isSome_contractOf? (entry : String × Binding) :
    (contractOf? entry.1 entry.2).isSome = isMarkedFactory entry := by
  obtain ⟨name, value⟩ := entry
  cases value with
  | factory abi => simp [contractOf?, isMarkedFactory, contractName?, apply_ite]
  | other value => rfl

namespace Catalog

variable {b : Bindings} (defaults : Option DefaultAddresses)

def entryOf? (entry : String × Binding) : Option (String × CatalogEntry) :=
  (contractOf? entry.1 entry.2).map fun (contract, abi) =>
    (contract, ⟨abi, defaults.bind fun d => d.get? contract⟩)

theorem entryOf?_eq_some_iff {defaults : Option DefaultAddresses} {entry : String × Binding}
    {contract : String} {found : CatalogEntry} :
    entryOf? defaults entry = some (contract, found) ↔
      entry = (factoryName contract, .factory found.abi) ∧
        found.defaultAddress = defaults.bind fun d => d.get? contract := by
  obtain ⟨name, value⟩ := entry
  obtain ⟨abi, address⟩ := found
  unfold entryOf?
  rw [Option.map_eq_some_iff]
  constructor
  · rintro ⟨⟨own, ownAbi⟩, hown, hentry⟩
    cases hentry
    obtain ⟨rfl, rfl⟩ := contractOf?_eq_some_iff.mp hown
    exact ⟨rfl, rfl⟩
  · rintro ⟨hentry, rfl⟩
    cases hentry
    exact ⟨(contract, abi), contractOf?_eq_some_iff.mpr ⟨rfl, rfl⟩, rfl⟩

theorem ofBindings_eq_ofList (b : Bindings) :
    ofBindings b defaults = NameMap.ofList (b.toList.filterMap (entryOf? defaults)) := by
  rw [NameMap.ofList, List.foldl_filterMap, ofBindings]
  congr 1
  funext catalog entry
  unfold entryOf?
  cases contractOf? entry.1 entry.2 <;> rfl

theorem contracts_nodup (h : b.Indexed) :
    ((b.toList.filterMap (entryOf? defaults)).map Prod.fst).Nodup := by
  rw [List.Nodup, List.pairwise_map, List.pairwise_filterMap]
  have names := List.pairwise_map.mp h.names_nodup
  refine names.imp fun {e e'} hne found hfound found' hfound' same => hne ?_
  rw [(entryOf?_eq_some_iff.mp hfound).1, (entryOf?_eq_some_iff.mp hfound').1, same]

theorem get?_ofBindings (h : b.Indexed) {contract : String} {entry : CatalogEntry} :
    (ofBindings b defaults).get? contract = some entry ↔
      b.get? (factoryName contract) = some (.factory entry.abi) ∧
        entry.defaultAddress = defaults.bind fun d => d.get? contract := by
  rw [ofBindings_eq_ofList, NameMap.get?_eq_some_iff,
    (NameMap.entries_ofList_perm (contracts_nodup defaults h)).mem_iff, List.mem_filterMap]
  simp only [entryOf?_eq_some_iff]
  rw [← h.mem_toList_iff]
  constructor
  · rintro ⟨e, he, rfl, hdefault⟩
    exact ⟨he, hdefault⟩
  · rintro ⟨he, hdefault⟩
    exact ⟨_, he, rfl, hdefault⟩

theorem names_ofBindings_perm (h : b.Indexed) :
    (ofBindings b defaults).names.Perm
      (b.toList.filterMap fun e => (contractOf? e.1 e.2).map Prod.fst) := by
  have names := (NameMap.entries_ofList_perm (contracts_nodup defaults h)).map Prod.fst
  rw [List.map_filterMap] at names
  rw [ofBindings_eq_ofList]
  simpa [NameMap.names, entryOf?, Function.comp_def] using names

theorem mem_names_ofBindings (h : b.Indexed) {contract : String} :
    contract ∈ (ofBindings b defaults).names ↔
      ∃ abi, b.get? (factoryName contract) = some (.factory abi) := by
  rw [NameMap.mem_names_iff, NameMap.contains, Option.isSome_iff_exists]
  simp only [get?_ofBindings defaults h]
  constructor
  · rintro ⟨entry, hentry, _⟩
    exact ⟨entry.abi, hentry⟩
  · rintro ⟨abi, habi⟩
    exact ⟨⟨abi, _⟩, habi, rfl⟩

theorem ofBindings_congr {b' : Bindings} (h : b.Indexed) (h' : b'.Indexed)
    {defaults defaults' : Option DefaultAddresses}
    (factories : ∀ contract abi, b.get? (factoryName contract) = some (.factory abi) ↔
      b'.get? (factoryName contract) = some (.factory abi))
    (addresses : ∀ contract ∈ (ofBindings b defaults).names,
      (defaults.bind fun d => d.get? contract) = defaults'.bind fun d => d.get? contract) :
    ofBindings b defaults = ofBindings b' defaults' := by
  apply NameMap.eq_of_get?_eq
  intro contract
  apply Option.eq_of_eq_some
  intro entry
  rw [get?_ofBindings defaults h, get?_ofBindings defaults' h', factories, and_congr_right_iff]
  intro hentry
  rw [addresses contract ((mem_names_ofBindings defaults h).mpr ⟨_, (factories _ _).mpr hentry⟩)]

end Catalog

/-- The catalog of inserted bindings holds the last binding of every name that is a factory, with the default
address of its contract, and nothing else. It does not depend on how the bindings came to be what they are. -/
theorem ofBindings_exactly_factories (entries : List (String × Binding))
    (defaults : Option DefaultAddresses) :
    let bindings := Bindings.ofList entries
    let catalog := Catalog.ofBindings bindings defaults
    let contracts := bindings.toList.filterMap fun e => (contractOf? e.1 e.2).map Prod.fst
    (∀ name, bindings.get? name = entries.reverse.lookup name) ∧
    (∀ contract entry, catalog.get? contract = some entry ↔
      bindings.get? (factoryName contract) = some (.factory entry.abi) ∧
        entry.defaultAddress = defaults.bind fun d => d.get? contract) ∧
    (∀ contract, contract ∈ catalog.names ↔
      ∃ abi, bindings.get? (factoryName contract) = some (.factory abi)) ∧
    contracts.Nodup ∧
    catalog.names.Perm contracts ∧
    (bindings.toList.map Prod.fst).Nodup ∧
    catalog.size = bindings.toList.countP isMarkedFactory ∧
    catalog = Catalog.ofBindings (Bindings.ofList (bindings.toList.filter isMarkedFactory)) defaults ∧
    (∀ others : Option DefaultAddresses,
      (∀ contract ∈ catalog.names,
        (defaults.bind fun d => d.get? contract) = others.bind fun d => d.get? contract) →
      catalog = Catalog.ofBindings bindings others) ∧
    (∀ history : List (String × Binding),
      (∀ name, bindings.get? name = (Bindings.ofList history).get? name) →
      catalog = Catalog.ofBindings (Bindings.ofList history) defaults) := by
  intro bindings catalog contracts
  have indexed : bindings.Indexed := Bindings.indexed_ofList entries
  have named : catalog.names.Perm contracts := Catalog.names_ofBindings_perm defaults indexed
  refine ⟨Bindings.get?_ofList entries, fun contract entry => Catalog.get?_ofBindings defaults indexed,
    fun contract => Catalog.mem_names_ofBindings defaults indexed, named.nodup catalog.names_nodup,
    named, indexed.names_nodup, ?_, ?_, ?_, ?_⟩
  · calc catalog.size
        = catalog.names.length := (List.length_map _).symm
      _ = contracts.length := named.length_eq
      _ = bindings.toList.countP isMarkedFactory := by
        simp only [contracts, List.length_filterMap_eq_countP, Option.isSome_map, isSome_contractOf?]
  · have distinct : ((bindings.toList.filter isMarkedFactory).map Prod.fst).Nodup :=
      indexed.names_nodup.sublist (List.filter_sublist.map Prod.fst)
    have filtered := Bindings.indexed_ofList (bindings.toList.filter isMarkedFactory)
    refine Catalog.ofBindings_congr indexed filtered (fun contract abi => ?_) fun _ _ => rfl
    rw [← indexed.mem_toList_iff, ← filtered.mem_toList_iff, Bindings.toList_ofList distinct,
      List.mem_filter]
    simp [isMarkedFactory, toList_factoryName]
  · intro others addresses
    exact Catalog.ofBindings_congr indexed indexed (fun _ _ => Iff.rfl) addresses
  · intro history same
    refine Catalog.ofBindings_congr indexed (Bindings.indexed_ofList history) ?_ fun _ _ => rfl
    intro contract abi
    rw [same]

/-- Factories with the bare mark and with two of them, and one that was something else at first. -/
def revisedBindings : List (String × Binding) :=
  [("Token__factory", .other .null), ("__factory", .factory ⟨[]⟩), ("Todos", .factory ⟨[]⟩),
    ("Token__factory", .factory ⟨[.other "struct"]⟩), ("Token__factory__factory", .factory ⟨[]⟩)]

def reorderedBindings : List (String × Binding) :=
  [("Todos", .other .null), ("Token__factory__factory", .factory ⟨[]⟩),
    ("Token__factory", .factory ⟨[.other "struct"]⟩), ("__factory", .other .null),
    ("Todos", .factory ⟨[]⟩), ("__factory", .factory ⟨[]⟩)]

theorem revisedBindings_catalog :
    let catalog := Catalog.ofBindings (Bindings.ofList revisedBindings) none
    let unused : DefaultAddresses := NameMap.empty.insert "Todos" .zero
    catalog.get? "Token" = some ⟨⟨[.other "struct"]⟩, none⟩ ∧
      (∀ contract ∈ catalog.names, none = unused.get? contract) ∧
      catalog = Catalog.ofBindings (Bindings.ofList revisedBindings) (some unused) ∧
      (∀ name, (Bindings.ofList revisedBindings).get? name =
        (Bindings.ofList reorderedBindings).get? name) ∧
      catalog = Catalog.ofBindings (Bindings.ofList reorderedBindings) none := by
  intro catalog unused
  obtain ⟨found, exact_iff, named, -, -, -, -, -, addresses, histories⟩ :=
    ofBindings_exactly_factories revisedBindings none
  have same : ∀ name, (Bindings.ofList revisedBindings).get? name =
      (Bindings.ofList reorderedBindings).get? name := by
    intro name
    rw [found, Bindings.get?_ofList]
    by_cases known : name ∈ ["__factory", "Token__factory", "Token__factory__factory", "Todos"]
    · simp only [List.mem_cons, List.not_mem_nil, or_false] at known
      rcases known with rfl | rfl | rfl | rfl <;> rfl
    · have absent : ∀ history : List (String × Binding),
          (∀ e ∈ history, e.1 ∈ ["__factory", "Token__factory", "Token__factory__factory", "Todos"]) →
          history.lookup name = none := fun history listed =>
        List.lookup_eq_none_iff.mpr fun e he => bne_iff_ne.mpr fun heq => known (heq ▸ listed e he)
      rw [absent revisedBindings.reverse (by decide), absent reorderedBindings.reverse (by decide)]
  have untaken : ∀ contract ∈ catalog.names, none = unused.get? contract := by
    intro contract hmem
    obtain ⟨abi, habi⟩ := (named contract).mp hmem
    have hne : contract ≠ "Todos" := by
      rintro rfl
      rw [found] at habi
      cases habi
    rw [NameMap.get?_insert, if_neg hne, NameMap.get?_empty]
  refine ⟨(exact_iff "Token" _).mpr ⟨?_, rfl⟩, untaken, addresses (some unused) untaken, same,
    histories reorderedBindings same⟩
  rw [found]
  rfl

end AbiCalls
