import AbiCalls.Proofs.Classification
import AbiCalls.Proofs.Grouping
import AbiCalls.Proofs.Isolation
import AbiCalls.Proofs.Operations

namespace AbiCalls

/-- How many functions of that name are declared before a member. -/
def Abi.placeOf (abi : Abi) (i : Nat) (name : String) : Nat :=
  (Abi.mk (abi.members.take i)).functions.countP fun f => f.name = name

def Abi.methodAt? (abi : Abi) (ctx : Context) (address : Address) (i : Nat) : Option Method :=
  match abi.members[i]? with
  | some (.function f) =>
    ((MethodTable.ofAbi ctx abi address).overloads f.name)[abi.placeOf i f.name]?
  | _ => none

structure Errand where
  member : Nat
  operation : Operation

def Errand.call (e : Errand) (abi : Abi) (ctx : Context) (address : Address) : Call Upshot :=
  match abi.methodAt? ctx address e.member with
  | some m => e.operation.on m
  | none => .done (.reply (.skipped .noMethod))

def Abi.runErrands (abi : Abi) (ctx : Context) (address : Address) (executors : Executors)
    (errands : List Errand) (schedule : List Nat) : Flights Upshot :=
  Flights.run executors (errands.map fun e => e.call abi ctx address) schedule

def Context.AgreeFor (a b : Context) : Access → Prop
  | .read => a.reader = b.reader ∧ a.pollInterval = b.pollInterval
  | .write => a.writer = b.writer ∧ a.caller = b.caller

/-- An errand to a method with an access, as far as the descriptions of the members say. -/
def Errand.DescribedAs (e : Errand) (raws : List Json) (access : Access) : Prop :=
  ∀ raw, raws[e.member]? = some raw → (access = .read ↔ raw.DescribesRead)

/-- Reads and writes are kept apart by the descriptions of the members of an ABI. -/
structure Abi.SeparatedBy (abi : Abi) (raws : List Json) (address : Address) : Prop where
  classified : ∀ (ctx : Context) (i : Nat) (raw : Json) (f : ContractFunction),
    raws[i]? = some raw → abi.members[i]? = some (.function f) →
      ∃ m, abi.methodAt? ctx address i = some m ∧ m.function = f ∧
        (m.access = .read ↔ raw.DescribesRead) ∧ (m.access = .write ↔ ¬raw.DescribesRead)
  covered : ∀ (ctx : Context), ∀ m ∈ (MethodTable.ofAbi ctx abi address).toList,
    ∃ i, abi.methodAt? ctx address i = some m
  separated : ∀ (ctx : Context) (executors : Executors) (errands : List Errand) (schedule : List Nat)
    (i : Nat) (e : Errand) (raw : Json), errands[i]? = some e → raws[e.member]? = some raw →
      ∀ r, .asked r ∈ (abi.runErrands ctx address executors errands schedule).history.of i →
        (r.access = .read ↔ raw.DescribesRead)
  /-- Runs with errands of one kind do not depend on the part of the context for the other kind. -/
  alone : ∀ (access : Access) (ctx₁ ctx₂ : Context) (executors : Executors) (errands : List Errand)
    (schedule : List Nat), ctx₁.AgreeFor ctx₂ access → (∀ e ∈ errands, e.DescribedAs raws access) →
      abi.runErrands ctx₁ address executors errands schedule =
        abi.runErrands ctx₂ address executors errands schedule
  /-- Nor do errands of one kind among others, if their answers do not depend on the others. -/
  among : ∀ (access : Access) (ctx₁ ctx₂ : Context) (executors : Executors) (visible : Nat → Bool)
    (errands₁ errands₂ : List Errand) (schedule₁ schedule₂ : List Nat),
      ctx₁.AgreeFor ctx₂ access → executors.Heed visible →
      (∀ i, visible i → errands₁[i]? = errands₂[i]?) →
      (∀ i e, visible i → errands₁[i]? = some e → e.DescribedAs raws access) →
      schedule₁.filter visible = schedule₂.filter visible →
        Flights.Alike visible (abi.runErrands ctx₁ address executors errands₁ schedule₁)
          (abi.runErrands ctx₂ address executors errands₂ schedule₂)

namespace Abi

variable {abi : Abi} {ctx : Context} {address : Address}

theorem getElem?_filter_functions {i : Nat} {f : ContractFunction}
    (h : abi.members[i]? = some (.function f)) :
    (abi.functions.filter fun g => g.name = f.name)[abi.placeOf i f.name]? = some f := by
  obtain ⟨bound, hget⟩ := List.getElem?_eq_some_iff.mp h
  have hsplit : abi.members = abi.members.take i ++ .function f :: abi.members.drop (i + 1) := by
    rw [← hget, List.getElem_cons_drop, List.take_append_drop]
  have hfunctions : abi.functions = (Abi.mk (abi.members.take i)).functions ++
      f :: (Abi.mk (abi.members.drop (i + 1))).functions := by
    unfold functions
    nth_rewrite 1 [hsplit]
    rw [List.filterMap_append]
    rfl
  have hplace : abi.placeOf i f.name =
      ((Abi.mk (abi.members.take i)).functions.filter fun g => g.name = f.name).length :=
    List.countP_eq_length_filter
  rw [hfunctions, List.filter_append, List.filter_cons_of_pos (by simp), hplace,
    List.getElem?_append_right (Nat.le_refl _), Nat.sub_self]
  rfl

theorem methodAt?_of_function {i : Nat} {f : ContractFunction}
    (h : abi.members[i]? = some (.function f)) :
    abi.methodAt? ctx address i = some (abi.methodOf ctx address f) := by
  simp only [methodAt?, h, MethodTable.overloads_ofAbi, List.getElem?_map,
    getElem?_filter_functions h, Option.map_some]

theorem function_of_methodAt? {i : Nat} {m : Method} (h : abi.methodAt? ctx address i = some m) :
    ∃ f, abi.members[i]? = some (.function f) ∧ m = abi.methodOf ctx address f := by
  cases hm : abi.members[i]? with
  | none => simp [methodAt?, hm] at h
  | some member =>
    cases member with
    | function f =>
      rw [methodAt?_of_function hm] at h
      exact ⟨f, rfl, (Option.some.inj h).symm⟩
    | _ => simp [methodAt?, hm] at h

theorem methodAt?_of_mem_toList {m : Method}
    (h : m ∈ (MethodTable.ofAbi ctx abi address).toList) :
    ∃ i, abi.methodAt? ctx address i = some m := by
  obtain ⟨f, hmem, rfl⟩ := MethodTable.mem_toList_ofAbi.mp h
  obtain ⟨member, hmember, hfunction⟩ := List.mem_filterMap.mp hmem
  cases member with
  | function g =>
    cases hfunction
    obtain ⟨i, hi⟩ := List.mem_iff_getElem?.mp hmember
    exact ⟨i, methodAt?_of_function hi⟩
  | _ => cases hfunction

theorem methodOf_eq_of_agree {ctx₁ ctx₂ : Context} {f : ContractFunction}
    (h : ctx₁.AgreeFor ctx₂ f.mutability.access) :
    abi.methodOf ctx₁ address f = abi.methodOf ctx₂ address f := by
  unfold methodOf Method.ofFunction ContractFunction.access
  cases hf : f.mutability.access with
  | read =>
    rw [hf] at h
    simp only [h.1, h.2]
  | write =>
    rw [hf] at h
    simp only [h.1, h.2]

theorem access_of_described {raws : List Json}
    (read : List.Forall₂ (fun item m => Member.ofJson item = .ok m) raws abi.members) {i : Nat}
    {raw : Json} {f : ContractFunction} (hraw : raws[i]? = some raw)
    (hf : abi.members[i]? = some (.function f)) : f.mutability.access = .read ↔ raw.DescribesRead := by
  obtain ⟨hi, rfl⟩ := List.getElem?_eq_some_iff.mp hraw
  obtain ⟨hmember, hf⟩ := List.getElem?_eq_some_iff.mp hf
  have hread := read.get hi hmember
  apply Member.access_eq_read_iff
  simpa [hf] using hread

theorem asksOnly_errand {raws : List Json}
    (read : List.Forall₂ (fun item m => Member.ofJson item = .ok m) raws abi.members) {e : Errand}
    {raw : Json} (hraw : raws[e.member]? = some raw) :
    (e.call abi ctx address).AsksOnly fun r => r.access = .read ↔ raw.DescribesRead := by
  unfold Errand.call
  cases hm : abi.methodAt? ctx address e.member with
  | none => trivial
  | some m =>
    obtain ⟨f, hf, rfl⟩ := function_of_methodAt? hm
    have asks := e.operation.asksOnly_on (abi.methodOf ctx address f)
    rw [access_methodOf] at asks
    refine asks.imp fun r hr => ?_
    rw [hr]
    exact access_of_described read hraw hf

theorem errand_eq_of_agree {raws : List Json}
    (read : List.Forall₂ (fun item m => Member.ofJson item = .ok m) raws abi.members) {e : Errand}
    {access : Access} (described : e.DescribedAs raws access) {ctx₁ ctx₂ : Context}
    (h : ctx₁.AgreeFor ctx₂ access) : e.call abi ctx₁ address = e.call abi ctx₂ address := by
  have hmethod : abi.methodAt? ctx₁ address e.member = abi.methodAt? ctx₂ address e.member := by
    cases hm : abi.methodAt? ctx₁ address e.member with
    | none =>
      cases hm' : abi.methodAt? ctx₂ address e.member with
      | none => rfl
      | some m' =>
        obtain ⟨f, hf, _⟩ := function_of_methodAt? hm'
        rw [methodAt?_of_function hf] at hm
        cases hm
    | some m =>
      obtain ⟨f, hf, rfl⟩ := function_of_methodAt? hm
      have hlength : e.member < raws.length := by
        rw [read.length_eq]
        exact (List.getElem?_eq_some_iff.mp hf).1
      have hraw : raws[e.member]? = some raws[e.member] := List.getElem?_eq_getElem hlength
      have hclass := access_of_described read hraw hf
      have hsame : access = f.mutability.access := by
        have hiff := (described _ hraw).trans hclass.symm
        cases access <;> cases hf : f.mutability.access <;> simp_all
      rw [methodAt?_of_function hf, methodOf_eq_of_agree (hsame ▸ h)]
  unfold Errand.call
  rw [hmethod]

theorem runErrands_alike {raws : List Json}
    (read : List.Forall₂ (fun item m => Member.ofJson item = .ok m) raws abi.members)
    {access : Access} {ctx₁ ctx₂ : Context} (hctx : ctx₁.AgreeFor ctx₂ access)
    {executors : Executors} {visible : Nat → Bool} (heed : executors.Heed visible)
    {errands₁ errands₂ : List Errand} (herrands : ∀ i, visible i → errands₁[i]? = errands₂[i]?)
    (described : ∀ i e, visible i → errands₁[i]? = some e → e.DescribedAs raws access)
    {schedule₁ schedule₂ : List Nat}
    (hschedule : schedule₁.filter visible = schedule₂.filter visible) :
    Flights.Alike visible (abi.runErrands ctx₁ address executors errands₁ schedule₁)
      (abi.runErrands ctx₂ address executors errands₂ schedule₂) := by
  apply Flights.run_alike heed _ hschedule
  intro i hi
  rw [List.getElem?_map, List.getElem?_map, ← herrands i hi]
  cases he : errands₁[i]? with
  | none => rfl
  | some e =>
    have hcall : e.call abi ctx₁ address = e.call abi ctx₂ address :=
      errand_eq_of_agree read (described i e hi he) hctx
    rw [Option.map_some, Option.map_some, hcall]

end Abi

/-- An ABI that has been read keeps its reads and its writes apart, as the descriptions of its members say,
in every context, for every run and whoever answers. -/
theorem ofJson_separates_access {value : Json} {abi : Abi} (h : Abi.ofJson value = .ok abi)
    (address : Address) : ∃ raws, value.members? = some raws ∧ abi.SeparatedBy raws address := by
  obtain ⟨raws, hraws, read⟩ := Abi.ofJson_eq_ok_iff.mp h
  refine ⟨raws, hraws, ?_, ?_, ?_, ?_, ?_⟩
  · intro ctx i raw f hraw hf
    have hclass := Abi.access_of_described read hraw hf
    refine ⟨abi.methodOf ctx address f, Abi.methodAt?_of_function hf, by simp, by simpa using hclass, ?_⟩
    rw [← hclass, Abi.access_methodOf]
    cases f.mutability.access <;> simp
  · intro ctx m hm
    exact Abi.methodAt?_of_mem_toList hm
  · intro ctx executors errands schedule i e raw he hraw r hr
    have hcall : (errands.map fun e => e.call abi ctx address)[i]? =
        some (e.call abi ctx address) := by
      simp [he]
    obtain ⟨f, _, path⟩ := Flights.run_path executors schedule hcall
    exact (Abi.asksOnly_errand read hraw).of_path path hr
  · intro access ctx₁ ctx₂ executors errands schedule hctx described
    have hdescribed : ∀ (i : Nat) (e : Errand), true → errands[i]? = some e →
        e.DescribedAs raws access := by
      intro i e _ he
      exact described e (List.mem_of_getElem? he)
    have halike : Flights.Alike (fun _ => true)
        (abi.runErrands ctx₁ address executors errands schedule)
        (abi.runErrands ctx₂ address executors errands schedule) :=
      Abi.runErrands_alike read hctx executors.heed_all (fun _ _ => rfl) hdescribed rfl
    exact halike.eq_of_all
  · intro access ctx₁ ctx₂ executors visible errands₁ errands₂ schedule₁ schedule₂ hctx heed herrands
      described hschedule
    exact Abi.runErrands_alike read hctx heed herrands described hschedule

/-- Three functions from different times: two with flags, and an overload that states its mutability in a
list and still has a flag. -/
def mixedDescription : Json :=
  .object [("abi", .list
    [.object [("constant", .bool true), ("name", .str "balance")],
      .object [("constant", .bool true), ("name", .str "pay"), ("payable", .bool true)],
      .list [.str "function", .str "balance", .list [], .list [], .str "nonpayable", .bool true]])]

def mixedAbi : Abi :=
  .ofFunctions [⟨"balance", [], [], .view⟩, ⟨"pay", [], [], .payable⟩,
    ⟨"balance", [], [], .nonpayable⟩]

theorem mixedAbi_separated :
    Abi.ofJson mixedDescription = .ok mixedAbi ∧
      ∃ raws, mixedDescription.members? = some raws ∧
        mixedAbi.SeparatedBy raws .zero :=
  ⟨rfl, ofJson_separates_access rfl _⟩

end AbiCalls
