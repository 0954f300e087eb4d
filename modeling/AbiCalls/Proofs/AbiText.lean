import AbiCalls.Proofs.Classification
import AbiCalls.Proofs.RoundTrip
import AbiCalls.Proofs.WrittenText
import Mathlib.Order.MinMax

namespace AbiCalls

theorem Json.heightOfFields_append (fields others : List (String × Json)) :
    heightOfFields (fields ++ others) = max (heightOfFields fields) (heightOfFields others) := by
  induction fields with
  | nil => simp [heightOfFields]
  | cons field fields ih =>
    obtain ⟨name, value⟩ := field
    simp [heightOfFields, ih, Nat.max_assoc]

namespace Param

mutual

theorem numberless_toJson : (p : Param) → p.toJson.Numberless
  | ⟨name, type, internalType, components, indexed⟩ => by
    have inner := numberless_listToJson components
    refine .object fun field hf => ?_
    simp only [List.mem_cons, List.mem_append] at hf
    rcases hf with rfl | rfl | (hf | hf) | hf
    · exact .str name
    · exact .str type
    · cases internalType with
      | none => cases hf
      | some text =>
        cases List.mem_singleton.mp hf
        exact .str text
    · cases components with
      | nil => cases hf
      | cons p components =>
        cases List.mem_singleton.mp hf
        exact .list inner
    · cases indexed with
      | none => cases hf
      | some value =>
        cases List.mem_singleton.mp hf
        exact .bool value

theorem numberless_listToJson : (params : List Param) → ∀ item ∈ listToJson params, item.Numberless
  | [], _, h => nomatch h
  | p :: params, item, h => by
    rcases List.mem_cons.mp h with rfl | h
    · exact numberless_toJson p
    · exact numberless_listToJson params item h

end

theorem numberless_encodeList (params : List Param) : (encodeList params).Numberless :=
  .list (numberless_listToJson params)

theorem height_toJson (p : Param) :
    p.toJson.height = Json.heightOfFields (componentsField p.components) + 1 := by
  obtain ⟨name, type, internalType, components, indexed⟩ := p
  simp only [toJson, Json.height, Json.heightOfFields, Json.heightOfFields_append]
  cases internalType <;> cases indexed <;> simp [optionalField, Json.heightOfFields, Json.height]

theorem height_componentsField (params : List Param) :
    Json.heightOfFields (componentsField params) ≤ Json.heightOfItems (listToJson params) + 1 := by
  cases params with
  | nil => simp [componentsField, Json.heightOfFields]
  | cons p params => simp [componentsField, listToJson, Json.heightOfFields, Json.height]

def Draft.Within (d : Draft) (n : Nat) : Prop :=
  Json.heightOfFields (componentsField d.components) ≤ n

theorem Draft.components_set {d d' : Draft} {name : String} {value : Json}
    (h : d.set name value = .ok d') : d'.components = d.components := by
  unfold Draft.set at h
  split_ifs at h
  case neg => exact (Except.ok.inj h) ▸ rfl
  all_goals
    obtain ⟨_, _, h⟩ := bind_eq_ok h
    cases h
    rfl

theorem Draft.within_of_set {d d' : Draft} {name : String} {value : Json} {n : Nat}
    (h : d.set name value = .ok d') (within : d.Within n) : d'.Within n := by
  rw [Within, components_set h]
  exact within

theorem Draft.within_of_plain {d d' : Draft} {name : String} {value : Json} {m : Mismatch} {n : Nat}
    (h : (if name = "components" then .error m else d.set name value) = .ok d')
    (within : d.Within n) : d'.Within n := by
  split_ifs at h
  exact within_of_set h within

theorem Draft.height_of_finish {d : Draft} {missing : Mismatch} {p : Param} {n : Nat}
    (h : d.finish missing = .ok p) (within : d.Within n) : p.toJson.height ≤ n + 1 := by
  unfold Draft.finish at h
  split at h
  next =>
    cases h
    rw [height_toJson]
    exact Nat.succ_le_succ within
  next => cases h

mutual

theorem height_of_ofJson : (value : Json) → ∀ {p : Param}, ofJson value = .ok p →
    p.toJson.height ≤ value.height
  | .object fields, p, h => by
    obtain ⟨d, hd, h⟩ := bind_eq_ok h
    exact Draft.height_of_finish h (within_of_draftOfFields fields hd (Nat.zero_le _) (Nat.le_refl _))
  | .list items, p, h => by
    obtain ⟨d, hd, h⟩ := bind_eq_ok h
    obtain ⟨own, hown, h⟩ := bind_eq_ok h
    have bound := Draft.height_of_finish hown
      (within_of_draftOfItems items hd (Nat.zero_le _) (Nat.le_refl _))
    split at h
    · cases h
      exact bound
    · cases h
  | .null, _, h => nomatch h
  | .bool _, _, h => nomatch h
  | .int _, _, h => nomatch h
  | .float _, _, h => nomatch h
  | .str _, _, h => nomatch h

theorem within_of_draftOfFields : (fields : List (String × Json)) → ∀ {d d' : Draft} {n : Nat},
    draftOfFields d fields = .ok d' → d.Within n → Json.heightOfFields fields ≤ n → d'.Within n
  | [], d, d', n, h, within, _ => by
    cases h
    exact within
  | (name, value) :: fields, d, d', n, h, within, bound => by
    obtain ⟨next, hnext, h⟩ := bind_eq_ok h
    have bounds := Nat.max_le.mp bound
    exact within_of_draftOfFields fields h (within_of_draftWith value hnext within bounds.1) bounds.2

theorem within_of_draftOfItems : (items : List Json) → ∀ {d d' : Draft} {names : List String} {n : Nat},
    draftOfItems d names items = .ok d' → d.Within n → Json.heightOfItems items ≤ n → d'.Within n
  | [], d, d', names, n, h, within, _ => by
    cases h
    exact within
  | value :: items, d, d', [], n, h, within, _ => by
    cases h
    exact within
  | value :: items, d, d', name :: names, n, h, within, bound => by
    obtain ⟨next, hnext, h⟩ := bind_eq_ok h
    have bounds := Nat.max_le.mp bound
    exact within_of_draftOfItems items h (within_of_draftWith value hnext within bounds.1) bounds.2

theorem within_of_draftWith : (value : Json) → ∀ {d d' : Draft} {name : String} {n : Nat},
    draftWith d name value = .ok d' → d.Within n → value.height ≤ n → d'.Within n
  | .list items, d, d', name, n, h, within, bound => by
    unfold draftWith at h
    split_ifs at h
    · obtain ⟨params, hparams, h⟩ := bind_eq_ok h
      cases h
      have items := Nat.succ_le_succ (height_of_ofItems items hparams)
      exact ((height_componentsField params).trans items).trans bound
    · exact Draft.within_of_set h within
  | .null, _, _, _, _, h, within, _ => Draft.within_of_plain h within
  | .bool _, _, _, _, _, h, within, _ => Draft.within_of_plain h within
  | .int _, _, _, _, _, h, within, _ => Draft.within_of_plain h within
  | .float _, _, _, _, _, h, within, _ => Draft.within_of_plain h within
  | .str _, _, _, _, _, h, within, _ => Draft.within_of_plain h within
  | .object _, _, _, _, _, h, within, _ => Draft.within_of_plain h within

theorem height_of_ofItems : (items : List Json) → ∀ {params : List Param}, ofItems items = .ok params →
    Json.heightOfItems (listToJson params) ≤ Json.heightOfItems items
  | [], params, h => by
    cases h
    exact Nat.le_refl _
  | item :: items, params, h => by
    obtain ⟨p, hp, h⟩ := bind_eq_ok h
    obtain ⟨rest, hrest, h⟩ := bind_eq_ok h
    cases h
    exact max_le_max (height_of_ofJson item hp) (height_of_ofItems items hrest)

end

theorem height_encodeList_of_decodeList {value : Json} {params : List Param}
    (h : decodeList value = .ok params) : (encodeList params).height ≤ value.height := by
  obtain ⟨items, hitems, h⟩ := bind_eq_ok h
  cases value <;> cases hitems
  exact Nat.succ_le_succ (height_of_ofItems items h)

end Param

theorem Json.heightOfFields_zip_le (names : List String) (items : List Json) :
    heightOfFields (names.zip items) ≤ heightOfItems items := by
  rw [heightOfFields_le_iff]
  intro field hf
  exact heightOfItems_le_iff.mp (Nat.le_refl _) field.2 (List.of_mem_zip hf).2

namespace Member

theorem numberless_fields (m : Member) : ∀ field ∈ m.fields, field.2.Numberless := by
  have params := Param.numberless_encodeList
  have mutability : ∀ m : Mutability, m.toJson.Numberless := fun m => .str m.name
  intro field hf
  cases m with
  | function f =>
    simp only [fields, ContractFunction.fields, List.mem_cons, List.not_mem_nil, or_false] at hf
    rcases hf with rfl | rfl | rfl | rfl
    · exact .str f.name
    · exact params f.inputs
    · exact params f.outputs
    · exact mutability f.mutability
  | event name inputs anonymous =>
    simp only [fields, List.mem_cons, List.not_mem_nil, or_false] at hf
    rcases hf with rfl | rfl | rfl
    · exact .str name
    · exact params inputs
    · exact .bool anonymous
  | error name inputs =>
    simp only [fields, List.mem_cons, List.not_mem_nil, or_false] at hf
    rcases hf with rfl | rfl
    · exact .str name
    · exact params inputs
  | constructor inputs own =>
    simp only [fields, List.mem_cons, List.not_mem_nil, or_false] at hf
    rcases hf with rfl | rfl
    · exact params inputs
    · exact mutability own
  | fallback own =>
    cases List.mem_singleton.mp hf
    exact mutability own
  | receive own =>
    cases List.mem_singleton.mp hf
    exact mutability own
  | other type => cases hf

theorem numberless_toJson (m : Member) : m.toJson.Numberless := by
  refine .object fun field hf => ?_
  rcases List.mem_cons.mp hf with rfl | hf
  · exact .str m.type
  · exact numberless_fields m field hf

structure Draft.Within (d : Draft) (n : Nat) : Prop where
  inputs : (Param.encodeList d.inputs).height ≤ n
  outputs : (Param.encodeList d.outputs).height ≤ n

theorem Draft.within_of_set {d d' : Draft} {name : String} {value : Json} {n : Nat}
    (h : d.set name value = .ok d') (within : d.Within n) (bound : value.height ≤ n) : d'.Within n := by
  rcases set_cases h with ⟨x, _, _, rfl⟩ | ⟨x, _, _, rfl⟩ | ⟨x, _, hx, rfl⟩ | ⟨x, _, hx, rfl⟩ |
    ⟨x, _, _, rfl⟩ | ⟨x, _, _, rfl⟩ | ⟨x, _, _, rfl⟩ | ⟨x, _, _, rfl⟩ | ⟨_, rfl⟩
  case inr.inr.inl => exact ⟨(Param.height_encodeList_of_decodeList hx).trans bound, within.outputs⟩
  case inr.inr.inr.inl => exact ⟨within.inputs, (Param.height_encodeList_of_decodeList hx).trans bound⟩
  all_goals exact ⟨within.inputs, within.outputs⟩

theorem Draft.within_of_foldlM {fields : List (String × Json)} {start d : Draft} {n : Nat}
    (h : fields.foldlM (fun d field => Draft.set d field.1 field.2) start = .ok d)
    (within : start.Within n) (bound : Json.heightOfFields fields ≤ n) : d.Within n := by
  induction fields generalizing start with
  | nil =>
    cases h
    exact within
  | cons field fields ih =>
    obtain ⟨name, value⟩ := field
    obtain ⟨next, hnext, h⟩ := bind_eq_ok h
    have bounds := Nat.max_le.mp bound
    exact ih h (within_of_set hnext within bounds.1) bounds.2

theorem height_toJson (m : Member) : m.toJson.height = Json.heightOfFields m.fields + 1 := by
  simp [toJson, Json.height, Json.heightOfFields]

theorem Draft.height_of_finish {d : Draft} {m : Member} {n : Nat} (h : d.finish = .ok m)
    (within : d.Within n) : m.toJson.height ≤ n + 1 := by
  obtain ⟨inputs, outputs⟩ := within
  rw [height_toJson]
  refine Nat.succ_le_succ ?_
  rcases finish_cases h with ⟨name, -, -, -, rfl⟩ | ⟨name, -, -, -, rfl⟩ | ⟨name, -, -, -, rfl⟩ |
    ⟨-, rfl⟩ | ⟨-, rfl⟩ | ⟨-, rfl⟩ | ⟨-, rfl⟩
  · simp [fields, ContractFunction.fields, Json.heightOfFields, Json.height, Mutability.toJson, *]
  · simp [fields, Json.heightOfFields, Json.height, *]
  · simp [fields, Json.heightOfFields, Json.height, *]
  · simp [fields, Json.heightOfFields, Json.height, Mutability.toJson, *]
  · simp [fields, Json.heightOfFields, Json.height, Mutability.toJson]
  · simp [fields, Json.heightOfFields, Json.height, Mutability.toJson]
  · simp [fields, Json.heightOfFields]

theorem height_of_ofJson {raw : Json} {m : Member} (h : ofJson raw = .ok m) :
    m.toJson.height ≤ max 2 raw.height := by
  obtain ⟨d, hd, hfinish⟩ := ofJson_eq_ok h
  have given : Json.heightOfFields raw.givenFields ≤ raw.height - 1 := by
    cases raw with
    | object fields => exact Nat.le_refl _
    | list items => exact Json.heightOfFields_zip_le fieldNames items
    | _ => exact Nat.zero_le _
  have least : ({} : Draft).Within (max 1 (raw.height - 1)) :=
    ⟨Nat.le_max_left _ _, Nat.le_max_left _ _⟩
  have within := Draft.within_of_foldlM hd least (given.trans (Nat.le_max_right _ _))
  have bound := Draft.height_of_finish hfinish within
  omega

end Member

namespace Abi

theorem numberless_toJson (abi : Abi) : abi.toJson.Numberless := by
  refine .list fun item h => ?_
  obtain ⟨m, _, rfl⟩ := List.mem_map.mp h
  exact m.numberless_toJson

theorem height_members {value : Json} {items : List Json} (h : value.members? = some items) :
    Json.heightOfItems items + 1 ≤ value.height := by
  cases value with
  | list own =>
    cases h
    exact Nat.le_refl _
  | object fields =>
    simp only [Json.members?] at h
    split at h
    next own hown =>
      cases h
      obtain ⟨before, after, rfl, _⟩ := List.lookup_eq_some_iff.mp hown
      have bound := Json.heightOfFields_le_iff.mp (Nat.le_refl (Json.heightOfFields
        (before ++ ("abi", .list items) :: after))) ("abi", .list items) (by simp)
      exact bound.trans (Nat.le_succ _)
    next => cases h
  | _ => cases h

/-- An ABI is written no deeper than it was read, but for a member with an empty list of parameters. -/
theorem height_of_ofJson {value : Json} {abi : Abi} (h : ofJson value = .ok abi) :
    abi.toJson.height ≤ max 3 value.height := by
  obtain ⟨items, hitems, hread⟩ := ofJson_eq_ok_iff.mp h
  have bound := height_members hitems
  have members : Json.heightOfItems (abi.members.map Member.toJson) ≤
      max 2 (Json.heightOfItems items) := by
    rw [Json.heightOfItems_le_iff]
    intro written hw
    obtain ⟨m, hm, rfl⟩ := List.mem_map.mp hw
    obtain ⟨i, hi, rfl⟩ := List.getElem_of_mem hm
    have own := Member.height_of_ofJson (hread.get (hread.length_eq ▸ hi) hi)
    have item := Json.heightOfItems_le_iff.mp (Nat.le_refl _) _
      (List.getElem_mem (l := items) (hread.length_eq ▸ hi))
    exact own.trans (max_le_max (Nat.le_refl 2) item)
  have height : abi.toJson.height = Json.heightOfItems (abi.members.map Member.toJson) + 1 := rfl
  omega

end Abi

theorem Json.ofTextOrError_eq_ok_iff {text : String} {value : Json} :
    ofTextOrError text = .ok value ↔ ofText text = .ok value := by
  unfold ofTextOrError
  split <;> simp_all

/-- The text of an ABI that was read from text is read as the same ABI, and is written the same again. It is
nested as deep as the text before it, or three deep, and so within the limit of the reader. -/
theorem text_round_trip {text : String} {abi : Abi} (h : Abi.ofText text = .ok abi) :
    Abi.ofText abi.text = .ok abi ∧
    (∀ again, Abi.ofText abi.text = .ok again → again.text = abi.text) ∧
    Json.ofText abi.text = .ok abi.toJson.sorted ∧
    abi.toJson.height ≤ nestingLimit ∧
    ∃ value, Json.ofText text = .ok value ∧ abi.toJson.height ≤ max 3 value.height := by
  obtain ⟨value, hvalue, hread⟩ := bind_eq_ok h
  have hvalue := Json.ofTextOrError_eq_ok_iff.mp hvalue
  have bound := Abi.height_of_ofJson hread
  have within : abi.toJson.height ≤ nestingLimit :=
    bound.trans (Nat.max_le.mpr ⟨by decide, Json.height_of_ofText hvalue⟩)
  have written : Json.ofText abi.text = .ok abi.toJson.sorted :=
    Json.ofText_compact abi.numberless_toJson within
  have again : Abi.ofText abi.text = .ok abi := by
    rw [Abi.ofText, Json.ofTextOrError_eq_ok_iff.mpr written]
    exact (Abi.ofJson_sorted_toJson_iff abi).mpr (Abi.isProper_of_ofJson hread)
  refine ⟨again, ?_, written, within, value, hvalue, bound⟩
  intro other hother
  rw [again] at hother
  cases hother
  rfl

/-- An artifact with escapes in a name, an old flag, lists for objects, and no parameters in its event. -/
def escapedText : String :=
  "\x7b \"abi\" : [\x7b\"name\":\"caf\\u00e9\\n\\ud83d\\ude00\",\"constant\":true,"
    ++ "\"inputs\":[[\"\\u0001\",\"uint\"]]\x7d, [\"event\",\"Paid\"]]\x7d"

def escapedAbi : Abi :=
  ⟨[.function ⟨"café\n😀", [⟨"\x01", "uint", none, [], none⟩], [], .view⟩, .event "Paid" [] false]⟩

theorem escapedText_round_trip :
    Abi.ofText escapedText = .ok escapedAbi ∧ Abi.ofText escapedAbi.text = .ok escapedAbi ∧
      escapedAbi.toJson.height = 4 := by
  have found : (Abi.ofText escapedText).toOption = some escapedAbi := by decide +kernel
  cases read : Abi.ofText escapedText with
  | error e =>
    rw [read] at found
    cases found
  | ok abi =>
    rw [read] at found
    cases found
    exact ⟨rfl, (text_round_trip read).1, rfl⟩

end AbiCalls
