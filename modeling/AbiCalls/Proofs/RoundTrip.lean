import AbiCalls.Abi.Encoding
import AbiCalls.Proofs.Reading

namespace AbiCalls

namespace Param

def sortedComponents : List Param → List (String × Json)
  | [] => []
  | p :: rest => [("components", .list (Json.sortedItems (listToJson (p :: rest))))]

theorem sorted_toJson (p : Param) :
    p.toJson.sorted = .object (sortedComponents p.components ++
      (optionalField "indexed" .bool p.indexed ++
        (optionalField "internalType" .str p.internalType ++
          [("name", .str p.name), ("type", .str p.type)]))) := by
  obtain ⟨name, type, internalType, components, indexed⟩ := p
  cases components <;> cases internalType <;> cases indexed <;> rfl

theorem draftOfFields_sortedComponents {params : List Param} (d : Draft)
    (rest : List (String × Json)) (unset : d.components = [])
    (h : ofItems (Json.sortedItems (listToJson params)) = .ok params) :
    draftOfFields d (sortedComponents params ++ rest) =
      draftOfFields { d with components := params } rest := by
  cases params with
  | nil =>
    have same : d = { d with components := [] } := by rw [← unset]
    rw [← same]
    rfl
  | cons p params =>
    simp only [sortedComponents, List.singleton_append, draftOfFields, draftWith, if_true, h]
    rfl

theorem draftOfFields_indexed (d : Draft) (rest : List (String × Json)) (unset : d.indexed = none)
    (indexed : Option Bool) :
    draftOfFields d (optionalField "indexed" .bool indexed ++ rest) =
      draftOfFields { d with indexed := indexed } rest := by
  cases indexed with
  | none =>
    have same : d = { d with indexed := none } := by rw [← unset]
    rw [← same]
    rfl
  | some value => rfl

theorem draftOfFields_internalType (d : Draft) (rest : List (String × Json))
    (unset : d.internalType = none) (internalType : Option String) :
    draftOfFields d (optionalField "internalType" .str internalType ++ rest) =
      draftOfFields { d with internalType := internalType } rest := by
  cases internalType with
  | none =>
    have same : d = { d with internalType := none } := by rw [← unset]
    rw [← same]
    rfl
  | some text => rfl

mutual

theorem ofJson_sorted_toJson : (p : Param) → ofJson p.toJson.sorted = .ok p
  | ⟨name, type, internalType, components, indexed⟩ => by
    have hcomponents := ofItems_sortedItems components
    rw [sorted_toJson, ofJson, draftOfFields_sortedComponents {} _ rfl hcomponents,
      draftOfFields_indexed _ _ rfl, draftOfFields_internalType _ _ rfl]
    rfl

theorem ofItems_sortedItems : (params : List Param) →
    ofItems (Json.sortedItems (listToJson params)) = .ok params
  | [] => rfl
  | p :: params => by
    have hfirst := ofJson_sorted_toJson p
    have hrest := ofItems_sortedItems params
    simp only [listToJson, Json.sortedItems, ofItems, hfirst, hrest]
    rfl

end

theorem decodeList_sorted_encodeList (params : List Param) :
    decodeList (encodeList params).sorted = .ok params :=
  ofItems_sortedItems params

end Param

def ProperName (name : String) : Prop :=
  ∃ c ∈ name.toList, isBlank c = false

namespace Member

def knownTypes : List String :=
  ["function", "event", "error", "constructor", "fallback", "receive"]

/-- Members that a description can stand for. -/
def IsProper : Member → Prop
  | .function f => ProperName f.name
  | .event name _ _ | .error name _ => ProperName name
  | .other type => type ∉ knownTypes
  | .constructor _ _ | .fallback _ | .receive _ => True

def draft : Member → Draft
  | .function f =>
    { type := some "function", name := some f.name, inputs := f.inputs, outputs := f.outputs,
      mutability := some f.mutability }
  | .event name inputs anonymous =>
    { type := some "event", name := some name, inputs, anonymous }
  | .error name inputs => { type := some "error", name := some name, inputs }
  | .constructor inputs mutability =>
    { type := some "constructor", inputs, mutability := some mutability }
  | .fallback mutability => { type := some "fallback", mutability := some mutability }
  | .receive mutability => { type := some "receive", mutability := some mutability }
  | .other type => { type := some type }

theorem Draft.set_inputs (d : Draft) (params : List Param) :
    d.set "inputs" (Param.encodeList params).sorted = .ok { d with inputs := params } := by
  have hread := Param.decodeList_sorted_encodeList params
  simp only [Draft.set, hread]
  rfl

theorem Draft.set_outputs (d : Draft) (params : List Param) :
    d.set "outputs" (Param.encodeList params).sorted = .ok { d with outputs := params } := by
  have hread := Param.decodeList_sorted_encodeList params
  simp only [Draft.set, hread]
  rfl

theorem Draft.set_mutability (d : Draft) (m : Mutability) :
    d.set "stateMutability" m.toJson.sorted = .ok { d with mutability := some m } := by
  cases m <;> rfl

theorem draftOfFields_cons {d d' : Draft} {name : String} {value : Json}
    {rest : List (String × Json)} (h : d.set name value = .ok d') :
    ((name, value) :: rest).foldlM (fun d field => Draft.set d field.1 field.2) d =
      rest.foldlM (fun d field => Draft.set d field.1 field.2) d' := by
  rw [List.foldlM_cons, h]
  rfl

theorem draftOfJson_sorted_toJson (m : Member) : draftOfJson m.toJson.sorted = .ok m.draft := by
  cases m with
  | function f =>
    have hsorted : (Member.function f).toJson.sorted = .object
        [("inputs", (Param.encodeList f.inputs).sorted), ("name", .str f.name),
          ("outputs", (Param.encodeList f.outputs).sorted),
          ("stateMutability", f.mutability.toJson.sorted), ("type", .str "function")] := rfl
    rw [hsorted, draftOfJson, draftOfFields, draftOfFields_cons (Draft.set_inputs _ _),
      draftOfFields_cons rfl, draftOfFields_cons (Draft.set_outputs _ _),
      draftOfFields_cons (Draft.set_mutability _ _), draftOfFields_cons rfl]
    rfl
  | event name inputs anonymous =>
    have hsorted : (Member.event name inputs anonymous).toJson.sorted = .object
        [("anonymous", .bool anonymous), ("inputs", (Param.encodeList inputs).sorted),
          ("name", .str name), ("type", .str "event")] := rfl
    rw [hsorted, draftOfJson, draftOfFields, draftOfFields_cons rfl,
      draftOfFields_cons (Draft.set_inputs _ _), draftOfFields_cons rfl, draftOfFields_cons rfl]
    rfl
  | error name inputs =>
    have hsorted : (Member.error name inputs).toJson.sorted = .object
        [("inputs", (Param.encodeList inputs).sorted), ("name", .str name), ("type", .str "error")] := rfl
    rw [hsorted, draftOfJson, draftOfFields, draftOfFields_cons (Draft.set_inputs _ _),
      draftOfFields_cons rfl, draftOfFields_cons rfl]
    rfl
  | constructor inputs mutability =>
    have hsorted : (Member.constructor inputs mutability).toJson.sorted = .object
        [("inputs", (Param.encodeList inputs).sorted),
          ("stateMutability", mutability.toJson.sorted), ("type", .str "constructor")] := rfl
    rw [hsorted, draftOfJson, draftOfFields, draftOfFields_cons (Draft.set_inputs _ _),
      draftOfFields_cons (Draft.set_mutability _ _), draftOfFields_cons rfl]
    rfl
  | fallback mutability => cases mutability <;> rfl
  | receive mutability => cases mutability <;> rfl
  | other type => rfl

theorem Draft.properName_eq_ok_iff {d : Draft} {type name : String} :
    d.properName type = .ok name ↔ d.name = some name ∧ ProperName name := by
  have blank : ∀ {text : String}, text.toList.all isBlank = true ↔ ¬ProperName text := by
    intro text
    simp [ProperName]
  unfold Draft.properName
  cases hname : d.name with
  | none => simp
  | some given =>
    simp only [Option.some.injEq]
    split_ifs with hb
    · have improper := blank.mp hb
      constructor
      · intro h
        cases h
      · rintro ⟨rfl, proper⟩
        exact absurd proper improper
    · have proper : ProperName given := by
        by_contra improper
        exact hb (blank.mpr improper)
      constructor
      · intro h
        cases h
        exact ⟨rfl, proper⟩
      · rintro ⟨rfl, _⟩
        rfl

theorem Draft.finish_cases {d : Draft} {m : Member} (h : d.finish = .ok m) :
    (∃ name, d.type.getD "function" = "function" ∧ d.name = some name ∧ ProperName name ∧
      m = .function ⟨name, d.inputs, d.outputs, d.effectiveMutability⟩) ∨
    (∃ name, d.type.getD "function" = "event" ∧ d.name = some name ∧ ProperName name ∧
      m = .event name d.inputs d.anonymous) ∨
    (∃ name, d.type.getD "function" = "error" ∧ d.name = some name ∧ ProperName name ∧
      m = .error name d.inputs) ∨
    (d.type.getD "function" = "constructor" ∧ m = .constructor d.inputs d.effectiveMutability) ∨
    (d.type.getD "function" = "fallback" ∧ m = .fallback d.effectiveMutability) ∨
    (d.type.getD "function" = "receive" ∧ m = .receive d.effectiveMutability) ∨
    (d.type.getD "function" ∉ knownTypes ∧ m = .other (d.type.getD "function")) := by
  unfold Draft.finish at h
  simp only at h
  split_ifs at h with h₁ h₂ h₃ h₄ h₅ h₆
  · obtain ⟨name, hname, h⟩ := bind_eq_ok h
    obtain ⟨stated, proper⟩ := properName_eq_ok_iff.mp hname
    exact .inl ⟨name, h₁, stated, proper, (Except.ok.inj h).symm⟩
  · obtain ⟨name, hname, h⟩ := bind_eq_ok h
    obtain ⟨stated, proper⟩ := properName_eq_ok_iff.mp hname
    exact .inr (.inl ⟨name, h₂, stated, proper, (Except.ok.inj h).symm⟩)
  · obtain ⟨name, hname, h⟩ := bind_eq_ok h
    obtain ⟨stated, proper⟩ := properName_eq_ok_iff.mp hname
    exact .inr (.inr (.inl ⟨name, h₃, stated, proper, (Except.ok.inj h).symm⟩))
  · exact .inr (.inr (.inr (.inl ⟨h₄, (Except.ok.inj h).symm⟩)))
  · exact .inr (.inr (.inr (.inr (.inl ⟨h₅, (Except.ok.inj h).symm⟩))))
  · exact .inr (.inr (.inr (.inr (.inr (.inl ⟨h₆, (Except.ok.inj h).symm⟩)))))
  · have other : d.type.getD "function" ∉ knownTypes := by simp [knownTypes, h₁, h₂, h₃, h₄, h₅, h₆]
    exact .inr (.inr (.inr (.inr (.inr (.inr ⟨other, (Except.ok.inj h).symm⟩)))))

theorem isProper_of_finish {d : Draft} {m : Member} (h : d.finish = .ok m) : m.IsProper := by
  rcases Draft.finish_cases h with ⟨name, -, -, proper, rfl⟩ | ⟨name, -, -, proper, rfl⟩ |
    ⟨name, -, -, proper, rfl⟩ | ⟨-, rfl⟩ | ⟨-, rfl⟩ | ⟨-, rfl⟩ | ⟨other, rfl⟩
  · exact proper
  · exact proper
  · exact proper
  · trivial
  · trivial
  · trivial
  · exact other

theorem finish_draft {m : Member} (h : m.IsProper) : m.draft.finish = .ok m := by
  cases m with
  | function f =>
    have hname : (Member.function f).draft.properName "function" = .ok f.name :=
      Draft.properName_eq_ok_iff.mpr ⟨rfl, h⟩
    change ((Member.function f).draft.properName "function" >>= fun name =>
      pure (Member.function ⟨name, f.inputs, f.outputs, f.mutability⟩)) = .ok (.function f)
    rw [hname]
    rfl
  | event name inputs anonymous =>
    have hname : (Member.event name inputs anonymous).draft.properName "event" = .ok name :=
      Draft.properName_eq_ok_iff.mpr ⟨rfl, h⟩
    change ((Member.event name inputs anonymous).draft.properName "event" >>= fun name =>
      pure (Member.event name inputs anonymous)) = .ok (.event name inputs anonymous)
    rw [hname]
    rfl
  | error name inputs =>
    have hname : (Member.error name inputs).draft.properName "error" = .ok name :=
      Draft.properName_eq_ok_iff.mpr ⟨rfl, h⟩
    change ((Member.error name inputs).draft.properName "error" >>= fun name =>
      pure (Member.error name inputs)) = .ok (.error name inputs)
    rw [hname]
    rfl
  | constructor inputs mutability => rfl
  | fallback mutability => rfl
  | receive mutability => rfl
  | other type =>
    simp only [IsProper, knownTypes, List.mem_cons, List.not_mem_nil, or_false, not_or] at h
    obtain ⟨h₁, h₂, h₃, h₄, h₅, h₆⟩ := h
    simp [Draft.finish, draft, h₁, h₂, h₃, h₄, h₅, h₆]

theorem isProper_of_ofJson {raw : Json} {m : Member} (h : Member.ofJson raw = .ok m) : m.IsProper := by
  obtain ⟨d, _, hfinish⟩ := bind_eq_ok h
  exact isProper_of_finish hfinish

theorem ofJson_sorted_toJson_iff {m : Member} :
    Member.ofJson m.toJson.sorted = .ok m ↔ m.IsProper := by
  constructor
  · exact isProper_of_ofJson
  · intro h
    rw [Member.ofJson, draftOfJson_sorted_toJson]
    exact finish_draft h

end Member

theorem sortedItems_eq_map (items : List Json) : Json.sortedItems items = items.map Json.sorted := by
  induction items with
  | nil => rfl
  | cons item items ih => rw [Json.sortedItems, List.map_cons, ih]

theorem Abi.ofJson_sorted_toJson_iff (abi : Abi) :
    Abi.ofJson abi.toJson.sorted = .ok abi ↔ ∀ m ∈ abi.members, m.IsProper := by
  have hmembers : abi.toJson.sorted.members? =
      some (abi.members.map fun m => m.toJson.sorted) := by
    simp only [Abi.toJson, Json.sorted, Json.members?, sortedItems_eq_map, List.map_map]
    rfl
  rw [Abi.ofJson_eq_ok_iff, hmembers]
  simp only [Option.some.injEq, exists_eq_left', List.forall₂_map_left_iff, List.forall₂_same,
    Member.ofJson_sorted_toJson_iff]

theorem Abi.isProper_of_ofJson {value : Json} {abi : Abi} (h : Abi.ofJson value = .ok abi) :
    ∀ m ∈ abi.members, m.IsProper := by
  obtain ⟨items, _, hread⟩ := Abi.ofJson_eq_ok_iff.mp h
  intro m hm
  obtain ⟨i, hi, rfl⟩ := List.getElem_of_mem hm
  have hitem := hread.get (hread.length_eq ▸ hi) hi
  exact Member.isProper_of_ofJson hitem

/-- An ABI comes back from what is written of it, exactly if its members are proper. Whatever has been read
comes back. -/
theorem toJson_round_trip (abi : Abi) :
    (Abi.ofJson abi.toJson.sorted = .ok abi ↔ ∀ m ∈ abi.members, m.IsProper) ∧
      ∀ value, Abi.ofJson value = .ok abi → Abi.ofJson abi.toJson.sorted = .ok abi := by
  refine ⟨Abi.ofJson_sorted_toJson_iff abi, ?_⟩
  intro value h
  exact (Abi.ofJson_sorted_toJson_iff abi).mpr (Abi.isProper_of_ofJson h)

/-- A description with old flags, lists for objects, the long spelling of a mutability, and a parameter
with components. -/
def oldDescription : Json :=
  .object [("abi", .list
    [.object [("constant", .bool true), ("name", .str "balance"),
        ("inputs", .list [.list [.str "who", .str "address"]])],
      .list [.str "event", .str "Paid", .list [.object [("type", .str "tuple[]"),
        ("components", .list [.object [("type", .str "uint"), ("indexed", .null)]])]]],
      .object [("type", .str "fallback"), ("stateMutability", .object [("payable", .null)])],
      .object [("type", .str "struct"), ("name", .str "Point")]])]

def oldAbi : Abi :=
  ⟨[.function ⟨"balance", [⟨"who", "address", none, [], none⟩], [], .view⟩,
    .event "Paid" [⟨"", "tuple[]", none, [⟨"", "uint", none, [], none⟩], none⟩] false,
    .fallback .payable, .other "struct"]⟩

theorem oldAbi_round_trip :
    Abi.ofJson oldDescription = .ok oldAbi ∧ Abi.ofJson oldAbi.toJson.sorted = .ok oldAbi :=
  ⟨rfl, (toJson_round_trip oldAbi).2 oldDescription rfl⟩

end AbiCalls
