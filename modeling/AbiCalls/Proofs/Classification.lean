import AbiCalls.Proofs.Reading
import Mathlib.Data.List.Induction

namespace AbiCalls

theorem Json.asOptional_eq_ok {α : Type} {read : Json → Except Mismatch α} {value : Json}
    {found : Option α} (h : value.asOptional read = .ok found) :
    value = .null ∧ found = none ∨ ∃ a, read value = .ok a ∧ found = some a := by
  cases value with
  | null => exact .inl ⟨rfl, (Except.ok.inj h).symm⟩
  | _ =>
    obtain ⟨a, ha, h⟩ := bind_eq_ok h
    exact .inr ⟨a, ha, (Except.ok.inj h).symm⟩

theorem Json.asBool_eq_ok_iff {value : Json} {b : Bool} : value.asBool = .ok b ↔ value = .bool b := by
  cases value <;> simp [Json.asBool]

/-- The fields that a member gives, by name in an object and by place in a list. -/
def Json.givenFields : Json → List (String × Json)
  | .object fields => fields
  | .list items => Member.fieldNames.zip items
  | _ => []

/-- What a member gives for a field. Of several fields with that name the last one counts. -/
def Json.given? (raw : Json) (name : String) : Option Json :=
  raw.givenFields.reverse.lookup name

/-- The two spellings of a name that is one of a few: alone, or as the only field of an object. -/
def Json.Spells (value : Json) (name : String) : Prop :=
  value = .str name ∨ value = .object [(name, .null)]

/-- A member describes something that only reads, if it says so, or if it says nothing and is constant
without being payable. -/
def Json.DescribesRead (raw : Json) : Prop :=
  match raw.given? "stateMutability" with
  | none | some .null =>
    raw.given? "payable" ≠ some (.bool true) ∧ raw.given? "constant" = some (.bool true)
  | some stated => stated.Spells "pure" ∨ stated.Spells "view"

namespace Mutability

theorem ofName?_eq_some_iff {name : String} {m : Mutability} : ofName? name = some m ↔ name = m.name := by
  constructor
  · intro h
    have found := List.find?_some h
    exact (of_decide_eq_true found).symm
  · rintro rfl
    exact ofName?_name m

theorem ofVariant_eq_ok_iff {name : String} {m : Mutability} :
    ofVariant name = .ok m ↔ name = m.name := by
  rw [← ofName?_eq_some_iff]
  unfold ofVariant
  split <;> simp_all

theorem ofJson_eq_ok_iff {value : Json} {m : Mutability} :
    ofJson value = .ok m ↔ value.Spells m.name := by
  constructor
  · intro h
    unfold ofJson at h
    split at h
    next name => exact .inl (congrArg Json.str (ofVariant_eq_ok_iff.mp h))
    next name content =>
      obtain ⟨variant, hv, h⟩ := bind_eq_ok h
      split at h
      next =>
        cases h
        rw [ofVariant_eq_ok_iff.mp hv]
        exact .inr rfl
      next => cases h
    next => cases h
    next => cases h
  · rintro (rfl | rfl)
    · exact ofVariant_eq_ok_iff.mpr rfl
    · simp only [ofJson, ofVariant_eq_ok_iff.mpr rfl]
      rfl

end Mutability

namespace Member

theorem Draft.set_cases {d d' : Draft} {name : String} {value : Json} (h : d.set name value = .ok d') :
    (∃ x, name = "type" ∧ value.asOptional Json.asText = .ok x ∧ d' = { d with type := x }) ∨
    (∃ x, name = "name" ∧ value.asOptional Json.asText = .ok x ∧ d' = { d with name := x }) ∨
    (∃ x, name = "inputs" ∧ Param.decodeList value = .ok x ∧ d' = { d with inputs := x }) ∨
    (∃ x, name = "outputs" ∧ Param.decodeList value = .ok x ∧ d' = { d with outputs := x }) ∨
    (∃ x, name = "stateMutability" ∧ value.asOptional Mutability.ofJson = .ok x ∧
      d' = { d with mutability := x }) ∨
    (∃ x, name = "constant" ∧ value.asOptional Json.asBool = .ok x ∧ d' = { d with constant := x }) ∨
    (∃ x, name = "payable" ∧ value.asOptional Json.asBool = .ok x ∧ d' = { d with payable := x }) ∨
    (∃ x, name = "anonymous" ∧ value.asBool = .ok x ∧ d' = { d with anonymous := x }) ∨
    (name ∉ fieldNames ∧ d' = d) := by
  unfold Draft.set at h
  split_ifs at h with h₁ h₂ h₃ h₄ h₅ h₆ h₇ h₈
  case neg =>
    have fresh : name ∉ fieldNames := by simp [fieldNames, *]
    exact .inr (.inr (.inr (.inr (.inr (.inr (.inr (.inr ⟨fresh, (Except.ok.inj h).symm⟩)))))))
  all_goals
    obtain ⟨x, hx, h⟩ := bind_eq_ok h
    cases h
  · exact .inl ⟨x, h₁, hx, rfl⟩
  · exact .inr (.inl ⟨x, h₂, hx, rfl⟩)
  · exact .inr (.inr (.inl ⟨x, h₃, hx, rfl⟩))
  · exact .inr (.inr (.inr (.inl ⟨x, h₄, hx, rfl⟩)))
  · exact .inr (.inr (.inr (.inr (.inl ⟨x, h₅, hx, rfl⟩))))
  · exact .inr (.inr (.inr (.inr (.inr (.inl ⟨x, h₆, hx, rfl⟩)))))
  · exact .inr (.inr (.inr (.inr (.inr (.inr (.inl ⟨x, h₇, hx, rfl⟩))))))
  · exact .inr (.inr (.inr (.inr (.inr (.inr (.inr (.inl ⟨x, h₈, hx, rfl⟩)))))))

/-- Taking in a field reads a part of the draft from it, or leaves the part as it is. -/
def Draft.Keeps {β : Type} (field : String) (read : Json → Except Mismatch β) (part : Draft → β)
    (d d' : Draft) (name : String) (value : Json) : Prop :=
  (name = field → read value = .ok (part d')) ∧ (name ≠ field → part d' = part d)

theorem Draft.set_keeps {d d' : Draft} {name : String} {value : Json}
    (h : d.set name value = .ok d') :
    Keeps "stateMutability" (Json.asOptional Mutability.ofJson) Draft.mutability d d' name value ∧
      Keeps "constant" (Json.asOptional Json.asBool) Draft.constant d d' name value ∧
      Keeps "payable" (Json.asOptional Json.asBool) Draft.payable d d' name value := by
  rcases set_cases h with ⟨x, hn, hx, rfl⟩ | ⟨x, hn, hx, rfl⟩ | ⟨x, hn, hx, rfl⟩ | ⟨x, hn, hx, rfl⟩ |
    ⟨x, hn, hx, rfl⟩ | ⟨x, hn, hx, rfl⟩ | ⟨x, hn, hx, rfl⟩ | ⟨x, hn, hx, rfl⟩ | ⟨hn, rfl⟩
  all_goals simp_all [Keeps, fieldNames]

theorem Draft.kept_of_draftOfFields {β : Type} {field : String} {read : Json → Except Mismatch β}
    {part : Draft → β}
    (keeps : ∀ {d d' : Draft} {name : String} {value : Json}, d.set name value = .ok d' →
      Keeps field read part d d' name value)
    {fields : List (String × Json)} {d : Draft} (h : draftOfFields fields = .ok d) :
    (∀ value, fields.reverse.lookup field = some value → read value = .ok (part d)) ∧
      (fields.reverse.lookup field = none → part d = part {}) := by
  induction fields using List.reverseRecOn generalizing d with
  | nil =>
    cases h
    simp
  | append_singleton fields last ih =>
    obtain ⟨name, value⟩ := last
    rw [Member.draftOfFields, List.foldlM_append] at h
    obtain ⟨before, hbefore, h⟩ := bind_eq_ok h
    obtain ⟨after, hset, h⟩ := bind_eq_ok h
    cases h
    obtain ⟨own, other⟩ := keeps hset
    rw [List.reverse_append, List.reverse_singleton, List.singleton_append]
    by_cases hn : name = field
    · subst hn
      simp [List.lookup_cons_self, own]
    · rw [lookup_cons_ne value _ (Ne.symm hn), other hn]
      exact ih hbefore

theorem draftOfFields_givenFields {raw : Json} {d : Draft} (h : draftOfJson raw = .ok d) :
    draftOfFields raw.givenFields = .ok d := by
  cases raw with
  | object fields => exact h
  | list items =>
    obtain ⟨d', hd, h⟩ := bind_eq_ok h
    split at h
    · cases h
      exact hd
    · cases h
  | _ => cases h

theorem ofJson_eq_ok {raw : Json} {m : Member} (h : ofJson raw = .ok m) :
    ∃ d, draftOfFields raw.givenFields = .ok d ∧ d.finish = .ok m := by
  obtain ⟨d, hd, h⟩ := bind_eq_ok h
  exact ⟨d, draftOfFields_givenFields hd, h⟩

theorem Draft.mutability_of_finish {d : Draft} {f : ContractFunction}
    (h : d.finish = .ok (.function f)) : f.mutability = d.effectiveMutability := by
  unfold Draft.finish at h
  simp only at h
  split_ifs at h
  · obtain ⟨name, _, h⟩ := bind_eq_ok h
    cases h
    rfl
  · obtain ⟨name, _, h⟩ := bind_eq_ok h
    cases h
  · obtain ⟨name, _, h⟩ := bind_eq_ok h
    cases h
  all_goals cases h

theorem Draft.flag_eq_true_iff {field : String} {part : Draft → Option Bool}
    (keeps : ∀ {d d' : Draft} {name : String} {value : Json}, d.set name value = .ok d' →
      Keeps field (Json.asOptional Json.asBool) part d d' name value)
    (unset : part {} = none) {raw : Json} {d : Draft}
    (h : draftOfFields raw.givenFields = .ok d) :
    part d = some true ↔ raw.given? field = some (.bool true) := by
  obtain ⟨given, absent⟩ := kept_of_draftOfFields keeps h
  cases hv : raw.given? field with
  | none => simp [absent hv, unset]
  | some value =>
    rcases Json.asOptional_eq_ok (given value hv) with ⟨rfl, hd⟩ | ⟨b, hb, hd⟩
    · simp [hd]
    · simp [hd, Json.asBool_eq_ok_iff.mp hb]

end Member

theorem Mutability.access_ofFlags_eq_read_iff {constant payable : Option Bool} :
    (ofFlags constant payable).access = .read ↔ payable ≠ some true ∧ constant = some true := by
  unfold ofFlags
  split_ifs <;> simp_all [access]

theorem Mutability.access_eq_read_iff {m : Mutability} {value : Json} (h : value.Spells m.name) :
    m.access = .read ↔ value.Spells "pure" ∨ value.Spells "view" := by
  rcases h with rfl | rfl <;> cases m <;> simp [access, name, Json.Spells]

/-- A function only reads, if and only if its description says so. -/
theorem Member.access_eq_read_iff {raw : Json} {f : ContractFunction}
    (h : Member.ofJson raw = .ok (.function f)) : f.mutability.access = .read ↔ raw.DescribesRead := by
  obtain ⟨d, hd, hfinish⟩ := Member.ofJson_eq_ok h
  obtain ⟨given, absent⟩ := Draft.kept_of_draftOfFields (fun h => (Draft.set_keeps h).1) hd
  have flags : (Mutability.ofFlags d.constant d.payable).access = .read ↔
      raw.given? "payable" ≠ some (.bool true) ∧ raw.given? "constant" = some (.bool true) := by
    have hpayable := Draft.flag_eq_true_iff (fun h => (Draft.set_keeps h).2.2) rfl hd
    have hconstant := Draft.flag_eq_true_iff (fun h => (Draft.set_keeps h).2.1) rfl hd
    rw [Mutability.access_ofFlags_eq_read_iff, Ne, hpayable, hconstant]
  rw [Draft.mutability_of_finish hfinish, Draft.effectiveMutability, Json.DescribesRead]
  split
  next hv => rwa [absent hv]
  next hv =>
    rcases Json.asOptional_eq_ok (given .null hv) with ⟨_, hm⟩ | ⟨m, hm, _⟩
    · rwa [hm]
    · cases hm
  next stated hnull hv =>
    rcases Json.asOptional_eq_ok (given stated hv) with ⟨rfl, _⟩ | ⟨m, hm, hd⟩
    · exact (hnull rfl).elim
    · rw [hd]
      exact Mutability.access_eq_read_iff (Mutability.ofJson_eq_ok_iff.mp hm)

end AbiCalls
