import AbiCalls.Proofs.ParamGrammar
import AbiCalls.Proofs.RoundTrip

namespace AbiCalls

def Member.name? : Member → Option String
  | .function f => some f.name
  | .event name _ _ | .error name _ => some name
  | _ => none

namespace Json

def statedType (fields : List (String × Json)) : String :=
  match fields.reverse.lookup "type" with
  | some (.str text) => text
  | _ => "function"

/-- The known fields are as they should be even where the member does not need them. -/
structure MemberFields (fields : List (String × Json)) : Prop where
  texts : Each fields ["type", "name"] (NullOr IsText)
  params : Each fields ["inputs", "outputs"] IsParamList
  mutability : Each fields ["stateMutability"]
    (NullOr fun value => ∃ name ∈ ["pure", "view", "nonpayable", "payable"], value.Spells name)
  flags : Each fields ["constant", "payable"] (NullOr IsBool)
  anonymous : Each fields ["anonymous"] IsBool
  named : statedType fields ∈ ["function", "event", "error"] →
    ∃ name, fields.reverse.lookup "name" = some (.str name) ∧ ProperName name

def IsMember (value : Json) : Prop :=
  ∃ fields, value.Gives Member.fieldNames fields ∧ MemberFields fields

/-- A member has the type it states, and its name is the one it states. -/
def Heads (value : Json) (m : Member) : Prop :=
  ∃ fields, value.Gives Member.fieldNames fields ∧ m.type = statedType fields ∧
    ∀ name ∈ m.name?, fields.reverse.lookup "name" = some (.str name)

end Json

theorem Mutability.exists_ofJson_iff {value : Json} :
    (∃ m, ofJson value = .ok m) ↔ ∃ name ∈ ["pure", "view", "nonpayable", "payable"], value.Spells name := by
  simp only [ofJson_eq_ok_iff]
  constructor
  · rintro ⟨m, spelled⟩
    exact ⟨m.name, by cases m <;> simp [name], spelled⟩
  · simp only [List.mem_cons, List.not_mem_nil, or_false]
    rintro ⟨_, rfl | rfl | rfl | rfl, spelled⟩
    · exact ⟨.pure, spelled⟩
    · exact ⟨.view, spelled⟩
    · exact ⟨.nonpayable, spelled⟩
    · exact ⟨.payable, spelled⟩

namespace Member

theorem Draft.exists_set_iff (d : Draft) (name : String) (value : Json) :
    (∃ d', d.set name value = .ok d') ↔
      (name ∈ ["type", "name"] → value.NullOr Json.IsText) ∧
      (name ∈ ["inputs", "outputs"] → value.IsParamList) ∧
      (name ∈ ["stateMutability"] → value.NullOr fun value =>
        ∃ name ∈ ["pure", "view", "nonpayable", "payable"], value.Spells name) ∧
      (name ∈ ["constant", "payable"] → value.NullOr Json.IsBool) ∧
      (name ∈ ["anonymous"] → value.IsBool) := by
  unfold Draft.set
  split_ifs with isType isName isInputs isOutputs isMutability isConstant isPayable isAnonymous
  · rw [exists_bind_pure_iff, Json.exists_asOptional_iff]
    simp [isType, Json.exists_asText_iff]
  · rw [exists_bind_pure_iff, Json.exists_asOptional_iff]
    simp [isName, Json.exists_asText_iff]
  · rw [exists_bind_pure_iff, Param.exists_decodeList_iff]
    simp [isInputs]
  · rw [exists_bind_pure_iff, Param.exists_decodeList_iff]
    simp [isOutputs]
  · rw [exists_bind_pure_iff, Json.exists_asOptional_iff]
    simp only [Mutability.exists_ofJson_iff]
    simp [isMutability]
  · rw [exists_bind_pure_iff, Json.exists_asOptional_iff]
    simp only [Json.exists_asBool_iff]
    simp [isConstant]
  · rw [exists_bind_pure_iff, Json.exists_asOptional_iff]
    simp only [Json.exists_asBool_iff]
    simp [isPayable]
  · rw [exists_bind_pure_iff, Json.exists_asBool_iff]
    simp [isAnonymous]
  · simp [*]

theorem Draft.set_keeps_heading {d d' : Draft} {name : String} {value : Json}
    (h : d.set name value = .ok d') :
    Keeps "type" (Json.asOptional Json.asText) Draft.type d d' name value ∧
      Keeps "name" (Json.asOptional Json.asText) Draft.name d d' name value := by
  rcases set_cases h with ⟨x, hn, hx, rfl⟩ | ⟨x, hn, hx, rfl⟩ | ⟨x, hn, hx, rfl⟩ | ⟨x, hn, hx, rfl⟩ |
    ⟨x, hn, hx, rfl⟩ | ⟨x, hn, hx, rfl⟩ | ⟨x, hn, hx, rfl⟩ | ⟨x, hn, hx, rfl⟩ | ⟨hn, rfl⟩
  all_goals simp_all [Keeps, fieldNames]

theorem Draft.type_of_draftOfFields {fields : List (String × Json)} {d : Draft}
    (h : draftOfFields fields = .ok d) : d.type.getD "function" = Json.statedType fields := by
  obtain ⟨given, absent⟩ := kept_of_draftOfFields (fun h => (set_keeps_heading h).1) h
  rw [Json.statedType]
  cases hv : fields.reverse.lookup "type" with
  | none => rw [absent hv]; rfl
  | some value =>
    rcases Json.asOptional_eq_ok (given value hv) with ⟨rfl, ht⟩ | ⟨text, hr, ht⟩
    · rw [ht]; rfl
    · rw [ht, Json.asText_eq_ok_iff.mp hr]; rfl

theorem Draft.name_of_draftOfFields {fields : List (String × Json)} {d : Draft} {name : String}
    (h : draftOfFields fields = .ok d) :
    d.name = some name ↔ fields.reverse.lookup "name" = some (.str name) := by
  obtain ⟨given, absent⟩ := kept_of_draftOfFields (fun h => (set_keeps_heading h).2) h
  cases hv : fields.reverse.lookup "name" with
  | none => simp [absent hv]
  | some value =>
    rcases Json.asOptional_eq_ok (given value hv) with ⟨rfl, ht⟩ | ⟨text, hr, ht⟩
    · simp [ht]
    · simp [ht, Json.asText_eq_ok_iff.mp hr]

theorem Draft.exists_properName_iff {d : Draft} {type : String} :
    (∃ name, d.properName type = .ok name) ↔ ∃ name, d.name = some name ∧ ProperName name := by
  simp only [properName_eq_ok_iff]

theorem Draft.exists_finish_iff {d : Draft} :
    (∃ m, d.finish = .ok m) ↔ (d.type.getD "function" ∈ ["function", "event", "error"] →
      ∃ name, d.name = some name ∧ ProperName name) := by
  unfold Draft.finish
  simp only
  split_ifs with isFunction isEvent isError
  · rw [exists_bind_pure_iff, exists_properName_iff]
    simp [isFunction]
  · rw [exists_bind_pure_iff, exists_properName_iff]
    simp [isEvent]
  · rw [exists_bind_pure_iff, exists_properName_iff]
    simp [isError]
  all_goals simp [*]

theorem ofJson_eq_ok_iff_gives {value : Json} {m : Member} :
    ofJson value = .ok m ↔ ∃ fields, value.Gives fieldNames fields ∧
      ∃ d, draftOfFields fields = .ok d ∧ d.finish = .ok m := by
  constructor
  · intro h
    obtain ⟨d, hd, finished⟩ := bind_eq_ok h
    cases value with
    | object fields => exact ⟨fields, .object fields, d, hd, finished⟩
    | list items =>
      obtain ⟨d', hd', hd⟩ := bind_eq_ok hd
      split_ifs at hd with short
      cases hd
      exact ⟨_, .list short, d, hd', finished⟩
    | _ => cases hd
  · rintro ⟨fields, given, d, hd, finished⟩
    cases given with
    | object =>
      rw [ofJson, draftOfJson, hd]
      exact finished
    | list short =>
      rw [ofJson, draftOfJson, hd]
      change (if _ then pure d else _ : Except Mismatch Draft) >>= _ = _
      rw [if_pos short]
      exact finished

theorem exists_draftOfFields_iff {fields : List (String × Json)} :
    (∃ d, draftOfFields fields = .ok d) ↔
      Json.Each fields ["type", "name"] (Json.NullOr Json.IsText) ∧
      Json.Each fields ["inputs", "outputs"] Json.IsParamList ∧
      Json.Each fields ["stateMutability"] (Json.NullOr fun value =>
        ∃ name ∈ ["pure", "view", "nonpayable", "payable"], value.Spells name) ∧
      Json.Each fields ["constant", "payable"] (Json.NullOr Json.IsBool) ∧
      Json.Each fields ["anonymous"] Json.IsBool := by
  simp only [Json.each_iff, ← forall₂_and]
  exact exists_foldlM_iff (fun d field => Draft.exists_set_iff d field.1 field.2) fields ({} : Draft)

theorem exists_ofJson_iff {value : Json} : (∃ m, ofJson value = .ok m) ↔ value.IsMember := by
  constructor
  · rintro ⟨m, h⟩
    obtain ⟨fields, given, d, hd, finished⟩ := ofJson_eq_ok_iff_gives.mp h
    obtain ⟨texts, params, mutability, flags, anonymous⟩ := exists_draftOfFields_iff.mp ⟨d, hd⟩
    refine ⟨fields, given, texts, params, mutability, flags, anonymous, fun needed => ?_⟩
    rw [← Draft.type_of_draftOfFields hd] at needed
    obtain ⟨name, stated, proper⟩ := Draft.exists_finish_iff.mp ⟨m, finished⟩ needed
    exact ⟨name, (Draft.name_of_draftOfFields hd).mp stated, proper⟩
  · rintro ⟨fields, given, texts, params, mutability, flags, anonymous, named⟩
    obtain ⟨d, hd⟩ := exists_draftOfFields_iff.mpr ⟨texts, params, mutability, flags, anonymous⟩
    have needed : d.type.getD "function" ∈ ["function", "event", "error"] →
        ∃ name, d.name = some name ∧ ProperName name := by
      intro needed
      rw [Draft.type_of_draftOfFields hd] at needed
      obtain ⟨name, stated, proper⟩ := named needed
      exact ⟨name, (Draft.name_of_draftOfFields hd).mpr stated, proper⟩
    obtain ⟨m, finished⟩ := Draft.exists_finish_iff.mpr needed
    exact ⟨m, ofJson_eq_ok_iff_gives.mpr ⟨fields, given, d, hd, finished⟩⟩

theorem Draft.heading_of_finish {d : Draft} {m : Member} (h : d.finish = .ok m) :
    m.type = d.type.getD "function" ∧ ∀ name ∈ m.name?, d.name = some name := by
  rcases finish_cases h with ⟨name, type, stated, -, rfl⟩ | ⟨name, type, stated, -, rfl⟩ |
    ⟨name, type, stated, -, rfl⟩ | ⟨type, rfl⟩ | ⟨type, rfl⟩ | ⟨type, rfl⟩ | ⟨-, rfl⟩
  · exact ⟨type.symm, fun _ same => stated.trans same⟩
  · exact ⟨type.symm, fun _ same => stated.trans same⟩
  · exact ⟨type.symm, fun _ same => stated.trans same⟩
  · exact ⟨type.symm, nofun⟩
  · exact ⟨type.symm, nofun⟩
  · exact ⟨type.symm, nofun⟩
  · exact ⟨rfl, nofun⟩

theorem heads_of_ofJson {value : Json} {m : Member} (h : ofJson value = .ok m) : value.Heads m := by
  obtain ⟨fields, given, d, hd, finished⟩ := ofJson_eq_ok_iff_gives.mp h
  obtain ⟨type, named⟩ := Draft.heading_of_finish finished
  rw [Draft.type_of_draftOfFields hd] at type
  exact ⟨fields, given, type, fun name hn => (Draft.name_of_draftOfFields hd).mp (named name hn)⟩

def prunedField (field : String × Json) : String × Json :=
  (field.1, if field.1 ∈ ["inputs", "outputs"] then Param.prunedList field.2 else field.2)

/-- A member without the fields that do not count, and without those of its parameters. -/
def pruned : Json → Json
  | .object fields => .object ((fields.filter fun field => field.1 ∈ fieldNames).map prunedField)
  | value => value

theorem Draft.set_unknown {name : String} (h : name ∉ fieldNames) (d : Draft) (value : Json) :
    d.set name value = .ok d := by
  simp [fieldNames] at h
  simp [Draft.set, h]

theorem Draft.set_prunedField (d : Draft) (field : String × Json) :
    d.set (prunedField field).1 (prunedField field).2 = d.set field.1 field.2 := by
  obtain ⟨name, value⟩ := field
  simp only [prunedField]
  split_ifs with lists
  · rcases List.mem_pair.mp lists with rfl | rfl
    · simp [Draft.set, Param.decodeList_prunedList]
    · simp [Draft.set, Param.decodeList_prunedList]
  · rfl

theorem ofJson_pruned (value : Json) : ofJson (pruned value) = ofJson value := by
  cases value with
  | object fields =>
    have same : ∀ d : Draft,
        ((fields.filter fun field => field.1 ∈ fieldNames).map prunedField).foldlM
            (fun d field => d.set field.1 field.2) d =
          fields.foldlM (fun d field => d.set field.1 field.2) d := by
      induction fields with
      | nil => exact fun _ => rfl
      | cons field fields ih =>
        intro d
        rw [List.foldlM_cons]
        by_cases known : field.1 ∈ fieldNames
        · rw [List.filter_cons_of_pos (by simpa using known), List.map_cons, List.foldlM_cons,
            Draft.set_prunedField]
          exact congrArg _ (funext ih)
        · rw [List.filter_cons_of_neg (by simpa using known), Draft.set_unknown known]
          exact ih d
    rw [pruned, ofJson, ofJson, draftOfJson, draftOfJson, draftOfFields, draftOfFields, same]
  | _ => rfl

end Member

namespace Abi

theorem ofList_list (items : List Json) :
    ofList (.list items) = match items.mapM Member.ofJson with
      | .ok members => .ok ⟨members⟩
      | .error m => .error m.toError := by
  rw [ofList, ofMembers]
  simp only [Json.asItems, bind, Except.bind]
  cases items.mapM Member.ofJson <;> rfl

theorem ofJson_of_members? {value : Json} {items : List Json} (h : value.members? = some items) :
    ofJson value = ofList (.list items) := by
  cases value with
  | list others =>
    obtain rfl := Option.some.inj h
    rfl
  | object fields =>
    rw [Json.members?] at h
    rw [ofJson]
    cases found : fields.lookup "abi" with
    | none => simp [found] at h
    | some inner =>
      cases inner with
      | list others =>
        obtain rfl : others = items := by simpa [found] using h
        rfl
      | _ => simp [found] at h
  | _ => cases h

theorem exists_ofJson_iff {value : Json} :
    (∃ abi, ofJson value = .ok abi) ↔
      ∃ items, value.members? = some items ∧ ∀ item ∈ items, item.IsMember := by
  simp only [ofJson_eq_ok_iff, ← Member.exists_ofJson_iff, ← exists_mapM_iff, mapM_eq_ok_iff]
  constructor
  · rintro ⟨abi, items, members, read⟩
    exact ⟨items, members, abi.members, read⟩
  · rintro ⟨items, members, ms, read⟩
    exact ⟨⟨ms⟩, items, members, read⟩

theorem ofJson_singleton {item : Json} {m : Member} (h : Member.ofJson item = .ok m) :
    ofJson (.list [item]) = .ok ⟨[m]⟩ :=
  ofJson_eq_ok_iff.mpr ⟨[item], rfl, .cons h .nil⟩

theorem members_of_ofJson {value : Json} {abi : Abi} {items : List Json} (h : ofJson value = .ok abi)
    (members : value.members? = some items) :
    abi.members.length = items.length ∧
    ∀ (i : Nat) item m, items[i]? = some item → abi.members[i]? = some m →
      ofJson (.list [item]) = .ok ⟨[m]⟩ ∧ item.Heads m := by
  obtain ⟨items', members', read⟩ := ofJson_eq_ok_iff.mp h
  obtain rfl := Option.some.inj (members.symm.trans members')
  refine ⟨read.length_eq.symm, fun i item m hitem hm => ?_⟩
  obtain ⟨bound, rfl⟩ := List.getElem?_eq_some_iff.mp hitem
  obtain ⟨bound', rfl⟩ := List.getElem?_eq_some_iff.mp hm
  have own := read.get bound bound'
  exact ⟨ofJson_singleton own, Member.heads_of_ofJson own⟩

theorem error_of_ofJson {value : Json} {items : List Json} {e : Error} (h : ofJson value = .error e)
    (members : value.members? = some items) :
    e.kind = .badData ∧ ∃ before item after, items = before ++ item :: after ∧
      (∀ other ∈ before, other.IsMember) ∧ ¬item.IsMember ∧ ofJson (.list [item]) = .error e := by
  rw [ofJson_of_members? members, ofList_list] at h
  cases read : items.mapM Member.ofJson with
  | ok ms =>
    rw [read] at h
    cases h
  | error m =>
    rw [read] at h
    cases h
    obtain ⟨before, item, after, rfl, earlier, failed⟩ := mapM_eq_error read
    refine ⟨rfl, before, item, after, rfl,
      fun other ho => Member.exists_ofJson_iff.mp (earlier other ho), ?_, ?_⟩
    · rw [← Member.exists_ofJson_iff, failed]
      nofun
    · change ofList (.list [item]) = _
      rw [ofList_list, List.mapM_cons, failed]
      rfl

theorem ofJson_pruned (items : List Json) :
    ofJson (.list (items.map Member.pruned)) = ofJson (.list items) := by
  have read : (items.map Member.pruned).mapM Member.ofJson = items.mapM Member.ofJson := by
    have same : Member.ofJson ∘ Member.pruned = Member.ofJson := funext Member.ofJson_pruned
    rw [List.mapM_map, same]
  change ofList _ = ofList _
  rw [ofList_list, ofList_list, read]

end Abi

/-- A description is accepted exactly if its members follow the grammar. What is read has the members in their
order, each as if it stood alone. A rejected description is rejected as its first member that does not follow
the grammar would be. Fields that are unknown never matter, at any depth. -/
theorem description_grammar (value : Json) :
    ((∃ abi, Abi.ofJson value = .ok abi) ↔
      ∃ items, value.members? = some items ∧ ∀ item ∈ items, item.IsMember) ∧
    (∀ abi items, Abi.ofJson value = .ok abi → value.members? = some items →
      abi.members.length = items.length ∧
      ∀ (i : Nat) item m, items[i]? = some item → abi.members[i]? = some m →
        Abi.ofJson (.list [item]) = .ok ⟨[m]⟩ ∧ item.Heads m) ∧
    (∀ e items, Abi.ofJson value = .error e → value.members? = some items →
      e.kind = .badData ∧ ∃ before item after, items = before ++ item :: after ∧
        (∀ other ∈ before, other.IsMember) ∧ ¬item.IsMember ∧ Abi.ofJson (.list [item]) = .error e) ∧
    ∀ items, Abi.ofJson (.list (items.map Member.pruned)) = Abi.ofJson (.list items) :=
  ⟨Abi.exists_ofJson_iff, fun _ _ h members => Abi.members_of_ofJson h members,
    fun _ _ h members => Abi.error_of_ofJson h members, Abi.ofJson_pruned⟩

/-- Null for a missing type, the long spelling of a mutability, fields of a kind that does not need them, and
fields that are unknown. -/
def looseMembers : List Json :=
  [.object [("name", .str "pay"), ("type", .null), ("stateMutability", .object [("view", .null)]),
      ("inputs", .list [.object [("type", .str "tuple[]"), ("name", .str "orders"),
        ("components", .list [.object [("type", .str "uint"), ("indexed", .null), ("unit", .list [])]])]]),
      ("gas", .int 21000)],
    .object [("type", .str "receive"), ("name", .str " "), ("outputs", .list []), ("payable", .bool true)],
    .object [("type", .str "mystery"), ("anonymous", .bool false)]]

def looseAbi : Abi :=
  ⟨[.function ⟨"pay", [⟨"orders", "tuple[]", none, [⟨"", "uint", none, [], none⟩], none⟩], [], .view⟩,
    .receive .payable, .other "mystery"]⟩

/-- Null where a list of parameters may be missing, before a name that consists of a blank. -/
def faultyMembers : List Json :=
  [.object [("type", .str "mystery")], .object [("type", .str "fallback"), ("inputs", .null)],
    .object [("type", .str "event"), ("name", .str " ")]]

theorem looseMembers_judged :
    (∀ item ∈ looseMembers, item.IsMember) ∧
    (Abi.ofJson (.object [("abi", .list looseMembers)]) = .ok looseAbi ∧
      ∃ item, looseMembers[1]? = some item ∧ Abi.ofJson (.list [item]) = .ok ⟨[.receive .payable]⟩) ∧
    Abi.ofJson (.list faultyMembers) = .error (Mismatch.wrongType .null "a sequence").toError ∧
    ∃ before item after, faultyMembers = before ++ item :: after ∧ (∀ other ∈ before, other.IsMember) ∧
      Abi.ofJson (.list [item]) = .error (Mismatch.wrongType .null "a sequence").toError := by
  obtain ⟨accepted, read, -⟩ := description_grammar (.object [("abi", .list looseMembers)])
  obtain ⟨items, members, valid⟩ := accepted.mp ⟨looseAbi, rfl⟩
  obtain rfl : looseMembers = items := Option.some.inj members
  obtain ⟨-, before, item, after, split, earlier, -, alone⟩ :=
    (description_grammar (.list faultyMembers)).2.2.1 _ faultyMembers rfl rfl
  exact ⟨valid, ⟨rfl, _, rfl, ((read looseAbi looseMembers rfl rfl).2 1 _ _ rfl rfl).1⟩, rfl,
    before, item, after, split, earlier, alone⟩

end AbiCalls
