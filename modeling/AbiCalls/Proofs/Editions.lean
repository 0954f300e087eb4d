import AbiCalls.Proofs.Addressing
import AbiCalls.Task

namespace AbiCalls

inductive Supply
  | refresh (ctx : Context)
  | provide (ctx : Context) (body : Task)

inductive Supplied
  | edition (edition : Edition)
  | task (task : Task)

namespace Supply

def context : Supply → Context
  | .refresh ctx => ctx
  | .provide ctx _ => ctx

def outcome : Supply → Edition → Supplied
  | .refresh _, edition => .edition edition
  | .provide _ body, edition => .task (.scoped edition body .finished)

def on (supply : Supply) (serial : Nat) (c : ContractCache) : Supplied × ContractCache :=
  match supply with
  | .refresh ctx =>
    let (edition, c) := c.refresh ctx serial
    (.edition edition, c)
  | .provide ctx body =>
    let (task, c) := c.provide ctx serial body
    (.task task, c)

theorem on_eq (supply : Supply) (serial : Nat) (c : ContractCache) :
    supply.on serial c =
      (supply.outcome (c.refresh supply.context serial).1, (c.refresh supply.context serial).2) := by
  cases supply <;> rfl

end Supply

def ContractCache.supplyAll (c : ContractCache) : List (Nat × Supply) → List Supplied × ContractCache
  | [] => ([], c)
  | (serial, supply) :: rest =>
    let (first, c) := supply.on serial c
    let (later, c) := c.supplyAll rest
    (first :: later, c)

theorem Context.eq_iff {a b : Context} :
    a = b ↔ a.reader = b.reader ∧ a.writer = b.writer ∧ a.caller = b.caller ∧
      a.pollInterval = b.pollInterval := by
  cases a
  cases b
  simp

theorem Context.agrees_iff {a b : Context} : a.agrees b ↔ a = b := by
  simp [Context.agrees, Context.eq_iff, and_assoc]

/-- The editions for a history of contexts, from what was given out last to what is given out last. -/
inductive Catalog.Gives (catalog : Catalog) : Option (Context × Edition) → List (Nat × Supply) →
    List Edition → Option (Context × Edition) → Prop
  | nil (last) : Gives catalog last [] [] last
  | kept {ctx e serial supply steps editions final} (same : supply.context = ctx)
      (h : Gives catalog (some (ctx, e)) steps editions final) :
    Gives catalog (some (ctx, e)) ((serial, supply) :: steps) (e :: editions) final
  | bound {last serial supply steps editions final} (new : ∀ e, last ≠ some (supply.context, e))
      (h : Gives catalog (some (supply.context, ⟨serial, catalog.bind supply.context⟩)) steps editions
        final) :
    Gives catalog last ((serial, supply) :: steps)
      (⟨serial, catalog.bind supply.context⟩ :: editions) final

namespace ContractCache

/-- A refresh gives out the last edition, if it was bound to the same context, and otherwise a new one. -/
theorem refresh_cases (c : ContractCache) (ctx : Context) (serial : Nat) :
    (∃ e, c.current = some (ctx, e) ∧ c.refresh ctx serial = (e, c)) ∨
      ((∀ e, c.current ≠ some (ctx, e)) ∧
        c.refresh ctx serial =
          (⟨serial, c.catalog.bind ctx⟩, ⟨c.catalog, some (ctx, ⟨serial, c.catalog.bind ctx⟩)⟩)) := by
  obtain ⟨catalog, current⟩ := c
  cases current with
  | none => exact .inr ⟨nofun, rfl⟩
  | some last =>
    obtain ⟨last, e⟩ := last
    by_cases same : last = ctx
    · subst same
      have agrees : last.agrees last := Context.agrees_iff.mpr rfl
      exact .inl ⟨e, rfl, by simp [refresh, agrees]⟩
    · have differs : ¬last.agrees ctx := fun h => same (Context.agrees_iff.mp h)
      exact .inr ⟨by simp [same], by simp [refresh, differs]⟩

theorem supplyAll_gives (c : ContractCache) (steps : List (Nat × Supply)) :
    ∃ editions, c.catalog.Gives c.current steps editions (c.supplyAll steps).2.current ∧
      (c.supplyAll steps).1 = List.zipWith (fun step e => step.2.outcome e) steps editions := by
  induction steps generalizing c with
  | nil => exact ⟨[], .nil c.current, rfl⟩
  | cons step steps ih =>
    obtain ⟨serial, supply⟩ := step
    simp only [supplyAll, supply.on_eq]
    rcases c.refresh_cases supply.context serial with ⟨e, last, kept⟩ | ⟨new, bound⟩
    · obtain ⟨editions, gives, outcomes⟩ := ih c
      rw [kept]
      refine ⟨e :: editions, ?_, by simp [outcomes]⟩
      rw [last] at gives ⊢
      exact .kept rfl gives
    · rw [bound]
      obtain ⟨editions, gives, outcomes⟩ := ih ⟨c.catalog, some (_, _)⟩
      exact ⟨_ :: editions, .bound new gives, by simp [outcomes]⟩

theorem latest_eq_ok_iff {c : ContractCache} {e : Edition} :
    c.latest = .ok e ↔ c.current.map Prod.snd = some e := by
  unfold latest
  cases c.current <;> simp

theorem latest_fails_iff {c : ContractCache} :
    (∃ error, c.latest = .error error ∧ error.kind = .configuration) ↔ c.current = none := by
  unfold latest
  cases c.current <;> simp [neverRefreshed, Error.kind]

end ContractCache

namespace Catalog.Gives

variable {catalog : Catalog} {last final : Option (Context × Edition)} {steps : List (Nat × Supply)}
  {editions : List Edition}

theorem length_eq (h : catalog.Gives last steps editions final) : editions.length = steps.length := by
  induction h with
  | nil last => rfl
  | kept same h ih => simp [ih]
  | bound new h ih => simp [ih]

theorem contracts_eq (h : catalog.Gives last steps editions final)
    (own : ∀ ctx e, last = some (ctx, e) → e.contracts = catalog.bind ctx) {k : Nat}
    {step : Nat × Supply} {e : Edition} (hstep : steps[k]? = some step) (he : editions[k]? = some e) :
    e.contracts = catalog.bind step.2.context := by
  induction h generalizing k with
  | nil last => cases hstep
  | kept same h ih =>
    cases k with
    | zero =>
      cases hstep
      cases he
      exact own _ _ (same ▸ rfl)
    | succ k => exact ih own hstep he
  | bound new h ih =>
    cases k with
    | zero =>
      cases hstep
      cases he
      rfl
    | succ k =>
      refine ih ?_ hstep he
      rintro ctx e heq
      cases heq
      rfl

theorem serial_eq (h : catalog.Gives last steps editions final) {k : Nat} {e : Edition}
    (he : editions[k]? = some e) :
    (∃ i ≤ k, (steps.map Prod.fst)[i]? = some e.serial) ∨ ∃ ctx, last = some (ctx, e) := by
  induction h generalizing k with
  | nil last => cases he
  | @kept ctx kept serial supply steps editions final same h ih =>
    cases k with
    | zero =>
      cases he
      exact .inr ⟨ctx, rfl⟩
    | succ k =>
      refine (ih he).imp_left ?_
      rintro ⟨i, hi, hserial⟩
      exact ⟨i + 1, by omega, hserial⟩
  | bound new h ih =>
    cases k with
    | zero =>
      cases he
      exact .inl ⟨0, Nat.le_refl 0, rfl⟩
    | succ k =>
      rcases ih he with ⟨i, hi, hserial⟩ | ⟨ctx, heq⟩
      · exact .inl ⟨i + 1, by omega, hserial⟩
      · cases heq
        exact .inl ⟨0, Nat.zero_le _, rfl⟩

theorem drop (h : catalog.Gives last steps editions final) {k : Nat} {step : Nat × Supply}
    {e : Edition} (hstep : steps[k]? = some step) (he : editions[k]? = some e) :
    catalog.Gives (some (step.2.context, e)) (steps.drop (k + 1)) (editions.drop (k + 1)) final := by
  induction h generalizing k with
  | nil last => cases hstep
  | kept same h ih =>
    cases k with
    | zero =>
      cases hstep
      cases he
      exact same ▸ h
    | succ k => exact ih hstep he
  | bound new h ih =>
    cases k with
    | zero =>
      cases hstep
      cases he
      exact h
    | succ k => exact ih hstep he

theorem first (h : catalog.Gives none steps editions final) {step : Nat × Supply} {e : Edition}
    (hstep : steps[0]? = some step) (he : editions[0]? = some e) : e.serial = step.1 := by
  cases h with
  | nil => cases hstep
  | bound =>
    cases hstep
    cases he
    rfl

theorem next (h : catalog.Gives last steps editions final) {k : Nat} {before after : Nat × Supply}
    {earlier later : Edition} (hbefore : steps[k]? = some before) (hafter : steps[k + 1]? = some after)
    (hearlier : editions[k]? = some earlier) (hlater : editions[k + 1]? = some later) :
    (before.2.context = after.2.context ∧ later = earlier) ∨
      (before.2.context ≠ after.2.context ∧ later.serial = after.1) := by
  have rest := h.drop hbefore hearlier
  obtain ⟨hi, rfl⟩ := List.getElem?_eq_some_iff.mp hafter
  obtain ⟨hj, rfl⟩ := List.getElem?_eq_some_iff.mp hlater
  rw [List.drop_eq_getElem_cons hi, List.drop_eq_getElem_cons hj] at rest
  generalize steps[k + 1] = after at rest
  generalize editions[k + 1] = later at rest
  cases rest with
  | kept same _ => exact .inl ⟨same.symm, rfl⟩
  | bound new _ =>
    refine .inr ⟨fun same => new earlier ?_, rfl⟩
    rw [same]

theorem serial_ne (h : catalog.Gives none steps editions final)
    (distinct : (steps.map Prod.fst).Nodup) {j k : Nat} {old : Edition} {step : Nat × Supply}
    (hold : editions[j]? = some old) (hstep : steps[k]? = some step) (earlier : j < k) :
    old.serial ≠ step.1 := by
  intro same
  rcases h.serial_eq hold with ⟨i, hi, hserial⟩ | ⟨ctx, absent⟩
  · have hown : (steps.map Prod.fst)[k]? = some step.1 := by simp [hstep]
    have bound : k < (steps.map Prod.fst).length := (List.getElem?_eq_some_iff.mp hown).1
    have hne := List.nodup_iff_getElem?_ne_getElem?.mp distinct i k (by omega) bound
    rw [hserial, hown, same] at hne
    exact hne rfl
  · cases absent

theorem final_eq (h : catalog.Gives last steps editions final) :
    final.map Prod.snd = editions.getLast?.or (last.map Prod.snd) := by
  induction h with
  | nil last => rfl
  | @kept ctx e serial supply steps editions final same h ih =>
    rw [ih, List.getLast?_cons]
    cases editions.getLast? <;> rfl
  | @bound last serial supply steps editions final new h ih =>
    rw [ih, List.getLast?_cons]
    cases editions.getLast? <;> rfl

end Catalog.Gives

def Method.BoundTo (ctx : Context) : Method → Prop
  | .read m => m.reader = ctx.reader ∧ m.pollInterval = ctx.pollInterval
  | .write m => m.writer = ctx.writer ∧ m.account = ctx.caller

theorem Abi.boundTo_methodOf (abi : Abi) (ctx : Context) (address : Address) (f : ContractFunction) :
    (abi.methodOf ctx address f).BoundTo ctx := by
  unfold Abi.methodOf Method.ofFunction
  cases f.access <;> exact ⟨rfl, rfl⟩

/-- Contracts that cannot be told from those of a catalog when they are bound to a context anew. -/
structure Edition.Presents (e : Edition) (catalog : Catalog) (ctx : Context) : Prop where
  contracts : e.contracts = catalog.bind ctx
  names : e.contracts.names = catalog.names
  contract : ∀ name, e.contracts.get? name =
    (catalog.get? name).map fun entry => ⟨name, entry.abi, entry.defaultAddress, ctx⟩
  resolves : ∀ name address, catalog.Resolves ctx name address (e.contracts.methods name address)
  bound : ∀ name address t, e.contracts.methods name address = .ok t →
    ∃ entry, catalog.get? name = some entry ∧ t = .ofAbi ctx entry.abi t.address ∧
      ∀ m ∈ t.toList, m.function ∈ entry.abi.functions ∧
        m.target = ⟨t.address, entry.abi, m.function.name⟩ ∧ m.BoundTo ctx

theorem Edition.presents {e : Edition} {catalog : Catalog} {ctx : Context}
    (h : e.contracts = catalog.bind ctx) : e.Presents catalog ctx := by
  refine ⟨h, ?_, ?_, ?_, ?_⟩
  · rw [h]
    exact NameMap.names_mapValues _ catalog
  · rw [h]
    exact catalog.get?_bind ctx
  · rw [h]
    exact Catalog.resolves catalog ctx
  · intro name address t ht
    rw [h] at ht
    rcases catalog.methods_bind_cases ctx name address with
      ⟨_, failed⟩ | ⟨entry, known, ⟨_, _, message, failed⟩ | ⟨a, _, made⟩⟩
    · cases failed.symm.trans ht
    · cases failed.symm.trans ht
    · cases made.symm.trans ht
      rw [MethodTable.address_ofAbi]
      refine ⟨entry, known, rfl, fun m hm => ?_⟩
      obtain ⟨f, hf, rfl⟩ := MethodTable.mem_toList_ofAbi.mp hm
      simpa using ⟨hf, entry.abi.boundTo_methodOf ctx a f⟩

structure Catalog.History (catalog : Catalog) (steps : List (Nat × Supply)) (editions : List Edition)
    (outcomes : List Supplied) (cache : ContractCache) : Prop where
  length : editions.length = steps.length
  outcomes : outcomes = List.zipWith (fun step e => step.2.outcome e) steps editions
  presents : ∀ (k : Nat) (step : Nat × Supply) (e : Edition), steps[k]? = some step →
    editions[k]? = some e → e.Presents catalog step.2.context
  first : ∀ (step : Nat × Supply) (e : Edition), steps[0]? = some step → editions[0]? = some e →
    e.serial = step.1
  /-- An edition is given out again if and only if nothing of the context has changed. -/
  again : ∀ (k : Nat) (before after : Nat × Supply) (earlier later : Edition),
    steps[k]? = some before → steps[k + 1]? = some after → editions[k]? = some earlier →
    editions[k + 1]? = some later →
      (later.serial = earlier.serial ↔
        before.2.context.reader = after.2.context.reader ∧
        before.2.context.writer = after.2.context.writer ∧
        before.2.context.caller = after.2.context.caller ∧
        before.2.context.pollInterval = after.2.context.pollInterval) ∧
      (later.serial = earlier.serial → later = earlier) ∧
      (later.serial ≠ earlier.serial → later.serial = after.1 ∧
        ∀ j ≤ k, ∀ old, editions[j]? = some old → old.serial ≠ later.serial)
  latest : ∀ e, cache.latest = .ok e ↔ editions.getLast? = some e
  unconfigured : (∃ error, cache.latest = .error error ∧ error.kind = .configuration) ↔ steps = []

/-- A cache is no different from contracts that are bound anew for every context, but that it gives out the
last edition again while its context stays the same. -/
theorem editions_follow_contexts (catalog : Catalog) {steps : List (Nat × Supply)}
    (distinct : (steps.map Prod.fst).Nodup) :
    let supplied := ContractCache.supplyAll { catalog } steps
    ∃ editions, catalog.History steps editions supplied.1 supplied.2 := by
  intro supplied
  obtain ⟨editions, gives, outcomes⟩ := ContractCache.supplyAll_gives { catalog } steps
  have last := gives.final_eq
  rw [Option.map_none, Option.or_none] at last
  refine ⟨editions, gives.length_eq, outcomes, ?_, fun _ _ => gives.first, ?_, ?_, ?_⟩
  · intro k step e hstep he
    exact Edition.presents (gives.contracts_eq nofun hstep he)
  · intro k before after earlier later hbefore hafter hearlier hlater
    rw [← Context.eq_iff]
    rcases gives.next hbefore hafter hearlier hlater with ⟨same, rfl⟩ | ⟨differs, renewed⟩
    · exact ⟨⟨fun _ => same, fun _ => rfl⟩, fun _ => rfl, fun h => absurd rfl h⟩
    · have fresh : ∀ j ≤ k, ∀ old, editions[j]? = some old → old.serial ≠ later.serial := by
        intro j hj old hold
        rw [renewed]
        exact gives.serial_ne distinct hold hafter (by omega)
      have other : later.serial ≠ earlier.serial := (fresh k (Nat.le_refl k) earlier hearlier).symm
      exact ⟨⟨fun h => absurd h other, fun h => absurd h differs⟩, fun h => absurd h other,
        fun _ => ⟨renewed, fresh⟩⟩
  · intro e
    rw [ContractCache.latest_eq_ok_iff, last]
  · rw [ContractCache.latest_fails_iff, ← Option.map_eq_none_iff, last, List.getLast?_eq_none_iff,
      ← List.length_eq_zero_iff, gives.length_eq, List.length_eq_zero_iff]

/-- A context comes twice, makes way for one with another interval, and comes back. -/
def vaultHistory : List (Nat × Supply) :=
  [(0, .refresh vaultContext), (1, .provide vaultContext .finished),
    (2, .refresh (vaultContext.withInterval (.ofMillis 0))), (3, .refresh vaultContext)]

theorem vaultHistory_editions :
    (vaultHistory.map Prod.fst).Nodup ∧
      ∃ e₀ e₂ e₃ : Edition, e₂.serial ≠ e₀.serial ∧ e₃.serial ≠ e₀.serial ∧ e₃.serial ≠ e₂.serial ∧
        e₃.contracts = e₀.contracts ∧
        (ContractCache.supplyAll { catalog := vaultCatalog } vaultHistory).1 =
          [.edition e₀, .task (.scoped e₀ .finished .finished), .edition e₂, .edition e₃] ∧
        (ContractCache.supplyAll { catalog := vaultCatalog } vaultHistory).2.latest = .ok e₃ := by
  have distinct : (vaultHistory.map Prod.fst).Nodup := by decide
  obtain ⟨editions, history⟩ := editions_follow_contexts vaultCatalog distinct
  obtain ⟨e₀, e₁, e₂, e₃, rfl⟩ : ∃ e₀ e₁ e₂ e₃, editions = [e₀, e₁, e₂, e₃] := by
    match editions, history.length with
    | [e₀, e₁, e₂, e₃], _ => exact ⟨e₀, e₁, e₂, e₃, rfl⟩
  have repeated : e₁ = e₀ := by
    obtain ⟨unchanged, same, _⟩ := history.again 0 _ _ e₀ e₁ rfl rfl rfl rfl
    exact same (unchanged.mpr ⟨rfl, rfl, rfl, rfl⟩)
  have renewed : e₂.serial ≠ e₁.serial := by
    intro h
    have interval := ((history.again 1 _ _ e₁ e₂ rfl rfl rfl rfl).1.mp h).2.2.2
    exact absurd interval (by decide)
  have back : e₃.serial ≠ e₂.serial := by
    intro h
    have interval := ((history.again 2 _ _ e₂ e₃ rfl rfl rfl rfl).1.mp h).2.2.2
    exact absurd interval (by decide)
  have newest := ((history.again 2 _ _ e₂ e₃ rfl rfl rfl rfl).2.2 back).2
  subst repeated
  refine ⟨distinct, e₁, e₂, e₃, renewed, (newest 0 (by decide) e₁ rfl).symm, back, ?_,
    history.outcomes, (history.latest e₃).mpr rfl⟩
  have old := (history.presents 0 _ e₁ rfl rfl).contracts
  exact (history.presents 3 _ e₃ rfl rfl).contracts.trans old.symm

end AbiCalls
