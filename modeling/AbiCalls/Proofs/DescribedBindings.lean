import AbiCalls.Proofs.ByteOrder
import AbiCalls.Proofs.Factories
import AbiCalls.Proofs.Reading

namespace AbiCalls

def Json.HoldsAbi (value : Json) (abi : Abi) : Prop :=
  ∃ fields members, value = .object fields ∧ fields.lookup "abi" = some members ∧
    Abi.ofJson members = .ok abi

def NamesFactory (name : String) : Prop :=
  ∃ contract, name = factoryName contract

theorem contractName?_eq_none_iff {name : String} : contractName? name = none ↔ ¬NamesFactory name := by
  rw [Option.eq_none_iff_forall_ne_some]
  simp only [NamesFactory, Ne, contractName?_eq_some_iff, not_exists]

namespace Binding

def DescribedBy (name : String) (value : Json) : Binding → Prop
  | .factory abi => NamesFactory name ∧ value.HoldsAbi abi
  | .other kept => ¬NamesFactory name ∧ kept = value

theorem ofField_eq_ok_iff {name : String} {value : Json} {binding : Binding} :
    ofField name value = .ok binding ↔ binding.DescribedBy name value := by
  unfold ofField
  split
  next hname =>
    have unmarked := contractName?_eq_none_iff.mp hname
    cases binding <;> simp [DescribedBy, unmarked, eq_comm]
  next contract hname =>
    have marked : NamesFactory name := ⟨contract, contractName?_eq_some_iff.mp hname⟩
    constructor
    · intro h
      cases value with
      | object fields =>
        simp only at h
        split at h
        next => cases h
        next members hmembers =>
          obtain ⟨abi, habi, h⟩ := bind_eq_ok h
          cases h
          exact ⟨marked, fields, members, rfl, hmembers, habi⟩
      | _ => cases h
    · intro h
      cases binding with
      | factory abi =>
        obtain ⟨_, fields, members, rfl, hmembers, habi⟩ := h
        simp only [hmembers, habi]
        rfl
      | other kept => exact absurd marked h.1

theorem DescribedBy.unique {name : String} {value : Json} {binding binding' : Binding}
    (h : binding.DescribedBy name value) (h' : binding'.DescribedBy name value) :
    binding = binding' :=
  Except.ok.inj ((ofField_eq_ok_iff.mpr h).symm.trans (ofField_eq_ok_iff.mpr h'))

/-- A value with the name of a factory that holds no ABI. -/
def Misdescribed (name : String) (value : Json) : Prop :=
  NamesFactory name ∧ ∀ abi, ¬value.HoldsAbi abi

theorem exists_describedBy_iff {name : String} {value : Json} :
    (∃ binding, DescribedBy name value binding) ↔ ¬Misdescribed name value := by
  unfold Misdescribed
  by_cases marked : NamesFactory name
  · simp only [marked, true_and, not_forall, not_not]
    constructor
    · rintro ⟨binding, h⟩
      cases binding with
      | factory abi => exact ⟨abi, h.2⟩
      | other kept => exact absurd marked h.1
    · rintro ⟨abi, habi⟩
      exact ⟨.factory abi, marked, habi⟩
  · simp only [marked, false_and, not_false_eq_true, iff_true]
    exact ⟨.other value, marked, rfl⟩

theorem misdescribed_of_error {name : String} {value : Json} {e : Error}
    (h : ofField name value = .error e) : Misdescribed name value := by
  by_contra described
  obtain ⟨binding, hbinding⟩ := exists_describedBy_iff.mpr described
  rw [ofField_eq_ok_iff.mpr hbinding] at h
  cases h

end Binding

namespace Bindings

abbrev Describe (fields : List (String × Json)) (entries : List (String × Binding)) : Prop :=
  List.Forall₂ (fun field entry => entry.1 = field.1 ∧ entry.2.DescribedBy field.1 field.2) fields entries

theorem Describe.mem_iff {fields : List (String × Json)} {entries : List (String × Binding)}
    (h : Describe fields entries) {name : String} {binding : Binding} :
    (name, binding) ∈ entries ↔ ∃ value, (name, value) ∈ fields ∧ binding.DescribedBy name value := by
  induction h with
  | nil => simp
  | @cons field entry fields entries hfirst _ ih =>
    obtain ⟨own, value⟩ := field
    obtain ⟨_, first⟩ := entry
    obtain ⟨rfl, hdescribed⟩ := hfirst
    simp only [List.mem_cons, ih, Prod.mk.injEq]
    constructor
    · rintro (⟨rfl, rfl⟩ | ⟨v, hv, hbinding⟩)
      · exact ⟨value, .inl ⟨rfl, rfl⟩, hdescribed⟩
      · exact ⟨v, .inr hv, hbinding⟩
    · rintro ⟨v, ⟨rfl, rfl⟩ | hv, hbinding⟩
      · exact .inl ⟨rfl, hbinding.unique hdescribed⟩
      · exact .inr ⟨v, hv, hbinding⟩

theorem Describe.not_misdescribed {fields : List (String × Json)} {entries : List (String × Binding)}
    (h : Describe fields entries) : ∀ field ∈ fields, ¬Binding.Misdescribed field.1 field.2 := by
  induction h with
  | nil => simp
  | cons hfirst _ ih =>
    exact List.forall_mem_cons.mpr ⟨Binding.exists_describedBy_iff.mp ⟨_, hfirst.2⟩, ih⟩

theorem Describe.names_eq {fields : List (String × Json)} {entries : List (String × Binding)}
    (h : Describe fields entries) : entries.map Prod.fst = fields.map Prod.fst := by
  induction h with
  | nil => rfl
  | cons hfirst _ ih => rw [List.map_cons, List.map_cons, hfirst.1, ih]

theorem addFields_eq_ok {fields : List (String × Json)} {b b' : Bindings}
    (h : b.addFields fields = .ok b') :
    ∃ entries, Describe fields entries ∧ b' = entries.foldl (fun b e => b.insert e.1 e.2) b := by
  induction fields generalizing b with
  | nil =>
    cases h
    exact ⟨[], .nil, rfl⟩
  | cons field fields ih =>
    obtain ⟨binding, hbinding, h⟩ := bind_eq_ok h
    obtain ⟨entries, hentries, hb⟩ := ih h
    exact ⟨(field.1, binding) :: entries, .cons ⟨rfl, Binding.ofField_eq_ok_iff.mp hbinding⟩ hentries, hb⟩

theorem addFields_ok {fields : List (String × Json)} (b : Bindings)
    (described : ∀ field ∈ fields, ¬Binding.Misdescribed field.1 field.2) :
    ∃ b', b.addFields fields = .ok b' := by
  induction fields generalizing b with
  | nil => exact ⟨b, rfl⟩
  | cons field fields ih =>
    obtain ⟨binding, hbinding⟩ :=
      Binding.exists_describedBy_iff.mpr (described field List.mem_cons_self)
    obtain ⟨b', hb⟩ := ih (b.insert field.1 binding) fun f hf => described f (List.mem_cons_of_mem _ hf)
    refine ⟨b', ?_⟩
    rw [addFields, Binding.ofField_eq_ok_iff.mpr hbinding]
    exact hb

theorem addFields_eq_error {fields : List (String × Json)} {b : Bindings} {e : Error}
    (h : b.addFields fields = .error e) :
    ∃ before name value after, fields = before ++ (name, value) :: after ∧
      (∀ field ∈ before, ¬Binding.Misdescribed field.1 field.2) ∧
      Binding.ofField name value = .error e := by
  induction fields generalizing b with
  | nil => cases h
  | cons field fields ih =>
    obtain ⟨name, value⟩ := field
    cases hfield : Binding.ofField name value with
    | error first =>
      rw [addFields, hfield] at h
      cases h
      exact ⟨[], name, value, fields, rfl, by simp, hfield⟩
    | ok binding =>
      rw [addFields, hfield] at h
      obtain ⟨before, n, v, after, rfl, hbefore, herror⟩ := ih h
      have described := Binding.exists_describedBy_iff.mp ⟨binding, Binding.ofField_eq_ok_iff.mp hfield⟩
      exact ⟨(name, value) :: before, n, v, after, rfl,
        List.forall_mem_cons.mpr ⟨described, hbefore⟩, herror⟩

theorem ofJson_eq_ok {fields : NameMap Json} {b : Bindings}
    (h : ofJson (.object fields.entries) = .ok b) : b.Indexed ∧ Describe fields.entries b.toList := by
  obtain ⟨entries, hentries, rfl⟩ := addFields_eq_ok h
  have distinct : (entries.map Prod.fst).Nodup := by
    rw [hentries.names_eq]
    exact fields.names_nodup
  refine ⟨indexed_ofList entries, ?_⟩
  have listed : (entries.foldl (fun b e => b.insert e.1 e.2) empty).toList = entries :=
    toList_ofList distinct
  rwa [listed]

theorem exists_ofJson_iff {fields : NameMap Json} :
    (∃ b, ofJson (.object fields.entries) = .ok b) ↔
      ∀ contract value, fields.get? (factoryName contract) = some value → ∃ abi, value.HoldsAbi abi := by
  constructor
  · rintro ⟨b, hb⟩ contract value hvalue
    by_contra faulty
    have described := (ofJson_eq_ok hb).2.not_misdescribed _ (NameMap.get?_eq_some_iff.mp hvalue)
    exact described ⟨⟨contract, rfl⟩, not_exists.mp faulty⟩
  · intro holds
    refine addFields_ok empty fun field hfield => ?_
    rintro ⟨⟨contract, hname⟩, faulty⟩
    have hvalue : fields.get? field.1 = some field.2 := NameMap.get?_eq_some_iff.mpr hfield
    obtain ⟨abi, habi⟩ := holds contract field.2 (hname ▸ hvalue)
    exact faulty abi habi

theorem ofJson_eq_error {fields : NameMap Json} {e : Error}
    (h : ofJson (.object fields.entries) = .error e) :
    ∃ name value, fields.get? name = some value ∧ Binding.Misdescribed name value ∧
      (∀ other v, fields.get? other = some v → Binding.Misdescribed other v → name ≤ other) ∧
      ofJson (.object [(name, value)]) = .error e := by
  obtain ⟨before, name, value, after, hfields, hbefore, herror⟩ := addFields_eq_error h
  have member : ∀ {n v}, fields.get? n = some v ↔ (n, v) ∈ before ++ (name, value) :: after := by
    intro n v
    rw [NameMap.get?_eq_some_iff, hfields]
  refine ⟨name, value, member.mpr (by simp), Binding.misdescribed_of_error herror, ?_, ?_⟩
  · intro other v hother faulty
    have ascending := fields.ascending
    rw [hfields] at ascending
    rcases List.mem_append.mp (member.mp hother) with hmem | hmem
    · exact absurd faulty (hbefore _ hmem)
    · rcases List.mem_cons.mp hmem with heq | hmem
      · cases heq
        exact String.le_refl _
      · have later := (List.pairwise_cons.mp (List.pairwise_append.mp ascending).2.1).1 _ hmem
        exact String.not_lt.mp (String.lt_asymm later)
  · rw [ofJson, addFields, herror]
    rfl

end Bindings

/-- A description of bindings can be read if it is an object in which every factory holds an ABI. All of its
fields are then bound in order, and the catalog has the contracts of its factories. Otherwise the first faulty
field is reported as if it stood alone. -/
theorem ofJson_binds_description (fields : NameMap Json) :
    let read := Bindings.ofJson (.object fields.entries)
    (∀ value b, Bindings.ofJson value = .ok b → ∃ own, value = .object own) ∧
    ((∃ b, read = .ok b) ↔ ∀ contract value, fields.get? (factoryName contract) = some value →
      ∃ abi, value.HoldsAbi abi) ∧
    (∀ b, read = .ok b →
      Bindings.Describe fields.entries b.toList ∧
      (b.toList.map Prod.fst).Pairwise (fun m n => utf8Bytes m < utf8Bytes n) ∧
      ∀ defaults contract,
        (contract ∈ (Catalog.ofBindings b defaults).names ↔
          fields.contains (factoryName contract)) ∧
        ∀ entry, (Catalog.ofBindings b defaults).get? contract = some entry ↔
          (∃ value, fields.get? (factoryName contract) = some value ∧ value.HoldsAbi entry.abi) ∧
            entry.defaultAddress = defaults.bind fun d => d.get? contract) ∧
    (∀ e, read = .error e → ∃ contract value,
      fields.get? (factoryName contract) = some value ∧ (∀ abi, ¬value.HoldsAbi abi) ∧
      (∀ other v, fields.get? (factoryName other) = some v → (∀ abi, ¬v.HoldsAbi abi) →
        utf8Bytes (factoryName contract) ≤ utf8Bytes (factoryName other)) ∧
      Bindings.ofJson (.object [(factoryName contract, value)]) = .error e) := by
  intro read
  refine ⟨?_, Bindings.exists_ofJson_iff, ?_, ?_⟩
  · intro value b h
    cases value with
    | object own => exact ⟨own, rfl⟩
    | _ => cases h
  · intro b h
    obtain ⟨indexed, described⟩ := Bindings.ofJson_eq_ok h
    have bound : ∀ contract abi, b.get? (factoryName contract) = some (.factory abi) ↔
        ∃ value, fields.get? (factoryName contract) = some value ∧ value.HoldsAbi abi := by
      intro contract abi
      have marked : NamesFactory (factoryName contract) := ⟨contract, rfl⟩
      rw [← indexed.mem_toList_iff, described.mem_iff]
      simp only [NameMap.get?_eq_some_iff, Binding.DescribedBy, marked, true_and]
    refine ⟨described, ?_, fun defaults contract => ⟨?_, fun entry => ?_⟩⟩
    · rw [described.names_eq]
      exact fields.names_ascending.imp utf8Bytes_lt_iff.mpr
    · rw [Catalog.mem_names_ofBindings defaults indexed, NameMap.contains, Option.isSome_iff_exists]
      constructor
      · rintro ⟨abi, habi⟩
        obtain ⟨value, hvalue, _⟩ := (bound contract abi).mp habi
        exact ⟨value, hvalue⟩
      · rintro ⟨value, hvalue⟩
        obtain ⟨abi, habi⟩ := Bindings.exists_ofJson_iff.mp ⟨b, h⟩ contract value hvalue
        exact ⟨abi, (bound contract abi).mpr ⟨value, hvalue, habi⟩⟩
    · rw [Catalog.get?_ofBindings defaults indexed, bound]
  · intro e h
    obtain ⟨name, value, hvalue, ⟨⟨contract, rfl⟩, faulty⟩, least, alone⟩ := Bindings.ofJson_eq_error h
    refine ⟨contract, value, hvalue, faulty, fun other v hv hfaulty => ?_, alone⟩
    exact utf8Bytes_le_iff.mpr (least _ v hv ⟨⟨other, rfl⟩, hfaulty⟩)

def todosModule : NameMap Json :=
  .ofList [("Todos__factory", .object [("abi", .list []), ("bytecode", .str "0x")]), ("Todos", .null)]

/-- Two faulty factories, the first of which is given last. -/
def faultyModule : NameMap Json :=
  .ofList [("Todos__factory", .object []), ("version", .null),
    ("Demo__factory", .object [("abi", .list [.bool true])])]

theorem describedModules_read :
    (∃ b, Bindings.ofJson (.object todosModule.entries) = .ok b ∧
      Bindings.Describe todosModule.entries b.toList ∧ "Todos" ∈ (Catalog.ofBindings b none).names) ∧
    Bindings.ofJson (.object faultyModule.entries) =
      .error (Mismatch.wrongType (.bool true) "struct RawAbiItem").toError ∧
    ∃ contract value, faultyModule.get? (factoryName contract) = some value ∧
      Bindings.ofJson (.object [(factoryName contract, value)]) =
        .error (Mismatch.wrongType (.bool true) "struct RawAbiItem").toError := by
  have read : ∃ b, Bindings.ofJson (.object todosModule.entries) = .ok b := ⟨_, rfl⟩
  obtain ⟨b, hb⟩ := read
  obtain ⟨described, -, contracts⟩ := (ofJson_binds_description todosModule).2.2.1 b hb
  obtain ⟨contract, value, hvalue, -, -, alone⟩ :=
    (ofJson_binds_description faultyModule).2.2.2 _ rfl
  exact ⟨⟨b, hb, described, (contracts none "Todos").1.mpr rfl⟩, rfl, contract, value, hvalue, alone⟩

end AbiCalls
