import AbiCalls.Proofs.Classification
import AbiCalls.Proofs.Nesting

namespace AbiCalls

namespace Json

def IsText (value : Json) : Prop :=
  ∃ text, value = .str text

def IsBool (value : Json) : Prop :=
  ∃ b, value = .bool b

def NullOr (P : Json → Prop) (value : Json) : Prop :=
  value = .null ∨ P value

/-- The fields that a value gives: by name in an object, and by place in a list that is not too long. -/
inductive Gives (names : List String) : Json → List (String × Json) → Prop
  | object (fields : List (String × Json)) : Gives names (.object fields) fields
  | list {items : List Json} : items.length ≤ names.length → Gives names (.list items) (names.zip items)

def Each (fields : List (String × Json)) (names : List String) (P : Json → Prop) : Prop :=
  ∀ name ∈ names, ∀ value, (name, value) ∈ fields → P value

/-- Parameters have a type. Other fields may be missing, and those with other names hold anything. -/
inductive IsParam : Json → Prop
  | intro {value : Json} {fields : List (String × Json)} (given : value.Gives Param.fieldNames fields)
    (typed : ∃ type, ("type", type) ∈ fields)
    (texts : Each fields ["name", "type"] IsText)
    (internalType : Each fields ["internalType"] (NullOr IsText))
    (indexed : Each fields ["indexed"] (NullOr IsBool))
    (components : Each fields ["components"] fun value => ∃ items, value = .list items)
    (nested : ∀ items, ("components", .list items) ∈ fields → ∀ item ∈ items, IsParam item) : IsParam value

def IsParamList (value : Json) : Prop :=
  ∃ items, value = .list items ∧ ∀ item ∈ items, item.IsParam

theorem each_iff {fields : List (String × Json)} {names : List String} {P : Json → Prop} :
    Each fields names P ↔ ∀ field ∈ fields, field.1 ∈ names → P field.2 :=
  ⟨fun h field hf hn => h field.1 hn field.2 hf, fun h name hn value hf => h (name, value) hf hn⟩

theorem asText_eq_ok_iff {value : Json} {text : String} : value.asText = .ok text ↔ value = .str text := by
  cases value <;> simp [asText]

theorem exists_asText_iff {value : Json} : (∃ text, value.asText = .ok text) ↔ value.IsText :=
  exists_congr fun _ => asText_eq_ok_iff

theorem exists_asBool_iff {value : Json} : (∃ b, value.asBool = .ok b) ↔ value.IsBool :=
  exists_congr fun _ => asBool_eq_ok_iff

end Json

theorem Json.exists_asOptional_iff {α : Type} {read : Json → Except Mismatch α} {value : Json} :
    (∃ found, value.asOptional read = .ok found) ↔ value.NullOr fun value => ∃ a, read value = .ok a := by
  constructor
  · rintro ⟨found, h⟩
    rcases asOptional_eq_ok h with ⟨rfl, -⟩ | ⟨a, ha, -⟩
    · exact .inl rfl
    · exact .inr ⟨a, ha⟩
  · rintro (rfl | ⟨a, ha⟩)
    · exact ⟨none, rfl⟩
    · cases value with
      | null => exact ⟨none, rfl⟩
      | _ => exact exists_bind_pure_iff.mpr ⟨a, ha⟩

namespace Param

theorem Draft.exists_set_iff (d : Draft) (name : String) (value : Json) :
    (∃ d', d.set name value = .ok d') ↔ (name ∈ ["name", "type"] → value.IsText) ∧
      (name = "internalType" → value.NullOr Json.IsText) ∧ (name = "indexed" → value.NullOr Json.IsBool) := by
  unfold Draft.set
  split_ifs with isName isType isInternal isIndexed
  · rw [exists_bind_pure_iff, Json.exists_asText_iff]
    simp [isName]
  · rw [exists_bind_pure_iff, Json.exists_asText_iff]
    simp [isType]
  · rw [exists_bind_pure_iff, Json.exists_asOptional_iff]
    simp [isInternal, Json.exists_asText_iff]
  · rw [exists_bind_pure_iff, Json.exists_asOptional_iff]
    simp only [Json.exists_asBool_iff]
    simp [isIndexed]
  · simp [*]

/-- Values that are taken in under a name, with `ofItems` as the judge of components. -/
def Takes (name : String) (value : Json) : Prop :=
  (name ∈ ["name", "type"] → value.IsText) ∧ (name = "internalType" → value.NullOr Json.IsText) ∧
    (name = "indexed" → value.NullOr Json.IsBool) ∧
    (name = "components" → ∃ items, value = .list items ∧ ∃ params, ofItems items = .ok params)

theorem draftWith_of_ne {name : String} (h : name ≠ "components") (d : Draft) (value : Json) :
    draftWith d name value = d.set name value := by
  cases value <;> simp [draftWith, h]

theorem draftWith_components {d d' : Draft} {value : Json} (h : draftWith d "components" value = .ok d') :
    ∃ items params, value = .list items ∧ ofItems items = .ok params ∧
      d' = { d with components := params } := by
  cases value with
  | list items =>
    rw [draftWith, if_pos rfl] at h
    obtain ⟨params, hparams, h⟩ := bind_eq_ok h
    cases h
    exact ⟨items, params, rfl, hparams, rfl⟩
  | _ => simp [draftWith] at h

theorem exists_draftWith_iff (d : Draft) (name : String) (value : Json) :
    (∃ d', draftWith d name value = .ok d') ↔ Takes name value := by
  by_cases isComponents : name = "components"
  · subst isComponents
    cases value with
    | list items =>
      rw [draftWith, if_pos rfl, exists_bind_pure_iff]
      simp [Takes]
    | _ => simp [draftWith, Takes]
  · rw [draftWith_of_ne isComponents, d.exists_set_iff]
    simp [Takes, isComponents]

theorem draftOfFields_eq_foldlM (d : Draft) (fields : List (String × Json)) :
    draftOfFields d fields = fields.foldlM (fun d field => draftWith d field.1 field.2) d := by
  induction fields generalizing d with
  | nil => rfl
  | cons field fields ih =>
    rw [draftOfFields, List.foldlM_cons]
    exact congrArg _ (funext ih)

theorem draftOfItems_eq (d : Draft) (names : List String) (items : List Json) :
    draftOfItems d names items = draftOfFields d (names.zip items) := by
  induction items generalizing d names with
  | nil => rw [List.zip_nil_right]; rfl
  | cons item items ih =>
    cases names with
    | nil => rfl
    | cons name names =>
      rw [draftOfItems, List.zip_cons_cons, draftOfFields]
      exact congrArg _ (funext fun d' => ih d' names)

theorem ofItems_eq_mapM (items : List Json) : ofItems items = items.mapM ofJson := by
  induction items with
  | nil => rfl
  | cons item items ih => rw [ofItems, List.mapM_cons, ih]

theorem Draft.type_of_set {d d' : Draft} {name : String} {value : Json} (h : d.set name value = .ok d') :
    d'.type.isSome ↔ d.type.isSome ∨ name = "type" := by
  unfold Draft.set at h
  split_ifs at h
  case neg =>
    cases h
    simp [*]
  all_goals
    obtain ⟨_, _, h⟩ := bind_eq_ok h
    cases h
    simp [*]

theorem type_of_draftWith {d d' : Draft} {name : String} {value : Json}
    (h : draftWith d name value = .ok d') : d'.type.isSome ↔ d.type.isSome ∨ name = "type" := by
  by_cases isComponents : name = "components"
  · subst isComponents
    obtain ⟨items, params, rfl, -, rfl⟩ := draftWith_components h
    simp
  · rw [draftWith_of_ne isComponents] at h
    exact Draft.type_of_set h

theorem type_of_draftOfFields {d d' : Draft} {fields : List (String × Json)}
    (h : draftOfFields d fields = .ok d') :
    d'.type.isSome ↔ d.type.isSome ∨ ∃ type, ("type", type) ∈ fields := by
  induction fields generalizing d with
  | nil =>
    cases h
    simp
  | cons field fields ih =>
    obtain ⟨name, value⟩ := field
    obtain ⟨between, first, rest⟩ := bind_eq_ok h
    rw [ih rest, type_of_draftWith first, or_assoc]
    simp only [List.mem_cons, Prod.mk.injEq, exists_or, exists_eq_right, @eq_comm _ name]

theorem Draft.exists_finish_iff {d : Draft} {missing : Mismatch} :
    (∃ p, d.finish missing = .ok p) ↔ d.type.isSome := by
  unfold Draft.finish
  cases d.type <;> simp

theorem exists_ofJson_iff_gives {value : Json} :
    (∃ p, ofJson value = .ok p) ↔ ∃ fields, value.Gives fieldNames fields ∧
      ∃ d, draftOfFields {} fields = .ok d ∧ d.type.isSome := by
  constructor
  · rintro ⟨p, h⟩
    cases value with
    | object fields =>
      obtain ⟨d, hd, h⟩ := bind_eq_ok h
      exact ⟨fields, .object fields, d, hd, Draft.exists_finish_iff.mp ⟨p, h⟩⟩
    | list items =>
      obtain ⟨d, hd, h⟩ := bind_eq_ok h
      obtain ⟨own, hown, h⟩ := bind_eq_ok h
      split_ifs at h with short
      rw [draftOfItems_eq] at hd
      exact ⟨_, .list short, d, hd, Draft.exists_finish_iff.mp ⟨own, hown⟩⟩
    | _ => cases h
  · rintro ⟨fields, given, d, hd, typed⟩
    cases given with
    | object =>
      rw [ofJson, hd]
      exact Draft.exists_finish_iff.mpr typed
    | list short =>
      have finished : ∀ missing, ∃ p, d.finish missing = .ok p := fun _ => Draft.exists_finish_iff.mpr typed
      obtain ⟨p, hp⟩ := finished (.wrongLength 1 "struct Param with 5 elements")
      refine ⟨p, ?_⟩
      rw [ofJson, draftOfItems_eq, hd]
      change (d.finish _ >>= fun param => _) = _
      rw [hp]
      exact if_pos short

end Param

theorem Json.Gives.height_lt {names : List String} {value inner : Json} {fields : List (String × Json)}
    {name : String} (h : value.Gives names fields) (hf : (name, inner) ∈ fields) :
    inner.height < value.height := by
  cases h with
  | object =>
    have within := heightOfFields_le_iff.mp (Nat.le_refl _) _ hf
    exact Nat.lt_succ_of_le within
  | list =>
    have within := heightOfItems_le_iff.mp (Nat.le_refl _) _ (List.of_mem_zip hf).2
    exact Nat.lt_succ_of_le within

theorem Json.isParam_iff {value : Json} :
    value.IsParam ↔ ∃ fields, value.Gives Param.fieldNames fields ∧ (∃ type, ("type", type) ∈ fields) ∧
      Each fields ["name", "type"] IsText ∧ Each fields ["internalType"] (NullOr IsText) ∧
      Each fields ["indexed"] (NullOr IsBool) ∧ Each fields ["components"] IsParamList := by
  constructor
  · rintro ⟨given, typed, texts, internalType, indexed, components, nested⟩
    refine ⟨_, given, typed, texts, internalType, indexed, fun name hn inner hf => ?_⟩
    obtain ⟨items, rfl⟩ := components name hn inner hf
    obtain rfl := List.mem_singleton.mp hn
    exact ⟨items, rfl, nested items hf⟩
  · rintro ⟨fields, given, typed, texts, internalType, indexed, lists⟩
    refine .intro given typed texts internalType indexed (fun name hn inner hf => ?_) fun items hf => ?_
    · obtain ⟨items, same, -⟩ := lists name hn inner hf
      exact ⟨items, same⟩
    · obtain ⟨items', same, valid⟩ := lists "components" (by simp) _ hf
      cases same
      exact valid

namespace Param

theorem exists_draftOfFields_iff {fields : List (String × Json)}
    (nested : ∀ field ∈ fields, (∃ items, field.2 = .list items ∧ ∃ params, ofItems items = .ok params) ↔
      field.2.IsParamList) :
    (∃ d, draftOfFields {} fields = .ok d) ↔
      Json.Each fields ["name", "type"] Json.IsText ∧
      Json.Each fields ["internalType"] (Json.NullOr Json.IsText) ∧
      Json.Each fields ["indexed"] (Json.NullOr Json.IsBool) ∧
      Json.Each fields ["components"] Json.IsParamList := by
  have taken : (∃ d, draftOfFields {} fields = .ok d) ↔ ∀ field ∈ fields, Takes field.1 field.2 := by
    rw [draftOfFields_eq_foldlM]
    exact exists_foldlM_iff (fun d field => exists_draftWith_iff d field.1 field.2) fields {}
  simp only [Json.each_iff, ← forall₂_and, List.mem_singleton]
  rw [taken]
  refine forall₂_congr fun field hf => ?_
  rw [Takes, nested field hf]

theorem exists_ofJson_iff (value : Json) : (∃ p, ofJson value = .ok p) ↔ value.IsParam := by
  induction hn : value.height using Nat.strongRecOn generalizing value with
  | ind n ih =>
    subst hn
    rw [exists_ofJson_iff_gives, Json.isParam_iff]
    refine exists_congr fun fields => and_congr_right fun given => ?_
    have nested : ∀ field ∈ fields, (∃ items, field.2 = .list items ∧ ∃ params, ofItems items = .ok params) ↔
        field.2.IsParamList := by
      intro field hf
      refine exists_congr fun items => and_congr_right fun same => ?_
      rw [ofItems_eq_mapM, exists_mapM_iff]
      refine forall₂_congr fun item hitem => ih _ ?_ item rfl
      have outer := given.height_lt hf
      have inner := Json.heightOfItems_le_iff.mp (Nat.le_refl _) item hitem
      rw [same, Json.height] at outer
      omega
    rw [← exists_draftOfFields_iff nested]
    constructor
    · rintro ⟨d, hd, typed⟩
      exact ⟨by simpa using (type_of_draftOfFields hd).mp typed, d, hd⟩
    · rintro ⟨typed, d, hd⟩
      exact ⟨d, hd, (type_of_draftOfFields hd).mpr (.inr typed)⟩

theorem exists_decodeList_iff {value : Json} :
    (∃ params, decodeList value = .ok params) ↔ value.IsParamList := by
  cases value with
  | list items =>
    change (∃ params, ofItems items = .ok params) ↔ _
    rw [ofItems_eq_mapM, exists_mapM_iff]
    simp [exists_ofJson_iff, Json.IsParamList]
  | _ => exact iff_of_false nofun nofun

mutual

/-- A parameter without the fields that do not count, and without those of its components. -/
def pruned : Json → Json
  | .object fields => .object (prunedFields fields)
  | value => value

def prunedFields : List (String × Json) → List (String × Json)
  | [] => []
  | (name, value) :: rest =>
    if name ∈ fieldNames then (name, prunedWith name value) :: prunedFields rest else prunedFields rest

def prunedWith (name : String) : Json → Json
  | .list items => .list (if name = "components" then prunedItems items else items)
  | value => value

def prunedItems : List Json → List Json
  | [] => []
  | item :: rest => pruned item :: prunedItems rest

end

theorem Draft.set_unknown {name : String} (h : name ∉ fieldNames) (d : Draft) (value : Json) :
    d.set name value = .ok d := by
  simp [fieldNames] at h
  simp [Draft.set, h]

mutual

theorem ofJson_pruned : (value : Json) → ofJson (pruned value) = ofJson value
  | .object fields => by rw [pruned, ofJson, draftOfFields_pruned, ofJson]
  | .list _ => rfl
  | .null => rfl
  | .bool _ => rfl
  | .int _ => rfl
  | .float _ => rfl
  | .str _ => rfl

theorem draftOfFields_pruned : (fields : List (String × Json)) → (d : Draft) →
    draftOfFields d (prunedFields fields) = draftOfFields d fields
  | [], _ => rfl
  | (name, value) :: rest, d => by
    rw [prunedFields, draftOfFields]
    split_ifs with known
    · rw [draftOfFields, draftWith_pruned]
      exact congrArg _ (funext fun d' => draftOfFields_pruned rest d')
    · have isComponents : name ≠ "components" := fun same => known (same ▸ by decide)
      rw [draftWith_of_ne isComponents, Draft.set_unknown known]
      exact draftOfFields_pruned rest d

theorem draftWith_pruned (d : Draft) (name : String) : (value : Json) →
    draftWith d name (prunedWith name value) = draftWith d name value
  | .list items => by
    rw [prunedWith]
    split_ifs with isComponents
    · rw [draftWith, draftWith, ofItems_pruned]
      simp only [isComponents, if_true]
    · rfl
  | .object _ => rfl
  | .null => rfl
  | .bool _ => rfl
  | .int _ => rfl
  | .float _ => rfl
  | .str _ => rfl

theorem ofItems_pruned : (items : List Json) → ofItems (prunedItems items) = ofItems items
  | [] => rfl
  | item :: rest => by rw [prunedItems, ofItems, ofItems, ofJson_pruned, ofItems_pruned]

end

def prunedList : Json → Json
  | .list items => .list (prunedItems items)
  | value => value

theorem decodeList_prunedList (value : Json) : decodeList (prunedList value) = decodeList value := by
  cases value with
  | list items => exact ofItems_pruned items
  | _ => rfl

end Param

end AbiCalls
