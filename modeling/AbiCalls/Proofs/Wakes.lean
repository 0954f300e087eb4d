import AbiCalls.Proofs.SideBySide
import AbiCalls.Proofs.TwoPhase

namespace AbiCalls

def Call.Within {α : Type} : Call α → Nat → Prop
  | .done _, _ => True
  | .note _ rest, n => rest.Within n
  | .query _ _ resume, n => ∃ m, n = m + 1 ∧ ∀ answer, (resume answer).Within m
  | .trial _ _ resume, n => ∃ m, n = m + 1 ∧ ∀ answer, (resume answer).Within m
  | .submission _ _ resume, n => ∃ m, n = m + 1 ∧ ∀ answer, (resume answer).Within m

namespace World

variable {α : Type}

/-- A running call that is woken at most `n` times until it has finished. -/
inductive Running.Within : Running α → Nat → Prop
  | finished (result : α) (n : Nat) : Within (.finished result) n
  | asleep {wake n : Nat} {rest : Call α} (h : rest.Within n) : Within (.asleep wake rest) (n + 1)

/-- Running calls that are woken at most `n` times, all together. -/
inductive AllWithin : List (Running α) → Nat → Prop
  | nil : AllWithin [] 0
  | cons {r : Running α} {rest : List (Running α)} {m n : Nat} (first : r.Within m)
    (others : AllWithin rest n) : AllWithin (r :: rest) (m + n)

def Running.IsDue (r : Running α) (now : Nat) : Prop :=
  ∃ wake rest, r = .asleep wake rest ∧ wake ≤ now

theorem Running.Within.succ {r : Running α} {n : Nat} (h : r.Within n) : r.Within (n + 1) := by
  have mono : ∀ {call : Call α} {n : Nat}, call.Within n → call.Within (n + 1) := by
    intro call
    induction call with
    | done result => exact fun _ => trivial
    | note notice rest ih => exact ih
    | query reader q resume ih =>
      rintro n ⟨m, rfl, h⟩
      exact ⟨m + 1, rfl, fun answer => ih answer (h answer)⟩
    | trial writer t resume ih =>
      rintro n ⟨m, rfl, h⟩
      exact ⟨m + 1, rfl, fun answer => ih answer (h answer)⟩
    | submission writer payload resume ih =>
      rintro n ⟨m, rfl, h⟩
      exact ⟨m + 1, rfl, fun answer => ih answer (h answer)⟩
  cases h with
  | finished result n => exact .finished result (n + 1)
  | asleep h => exact .asleep (mono h)

theorem within_advance {call : Call α} {n : Nat} (h : call.Within n) (w : World) :
    (advance call w).1.Within n := by
  induction call generalizing n w with
  | done result => exact .finished result n
  | note notice rest ih => exact ih h (w.log notice)
  | query reader q resume ih =>
    obtain ⟨m, rfl, h⟩ := h
    simp only [advance]
    split
    next => exact (ih _ (h _) _).succ
    next => exact .asleep (h _)
  | trial writer t resume ih =>
    obtain ⟨m, rfl, h⟩ := h
    simp only [advance]
    split
    next => exact (ih _ (h _) _).succ
    next => exact .asleep (h _)
  | submission writer payload resume ih =>
    obtain ⟨m, rfl, h⟩ := h
    simp only [advance]
    split
    next => exact (ih _ (h _) _).succ
    next => exact .asleep (h _)

theorem now_woken (r : Running α) (w : World) : (r.woken w).2.now = w.now := by
  cases r with
  | finished result => rfl
  | asleep wake call =>
    simp only [Running.woken]
    split
    next => exact now_advance call w
    next => rfl

theorem within_woken {r : Running α} {n : Nat} (h : r.Within n) (w : World) :
    (r.woken w).1.Within n ∧ (r.IsDue w.now → ∃ m < n, (r.woken w).1.Within m) := by
  cases h with
  | finished result n =>
    refine ⟨.finished result n, ?_⟩
    rintro ⟨wake, rest, heq, _⟩
    cases heq
  | @asleep wake n call h =>
    simp only [Running.woken]
    split
    next hdue =>
      have hgone := within_advance h w
      exact ⟨hgone.succ, fun _ => ⟨n, Nat.lt_succ_self n, hgone⟩⟩
    next hdue =>
      refine ⟨.asleep h, ?_⟩
      rintro ⟨wake', rest, heq, hwake⟩
      cases heq
      exact absurd hwake hdue

theorem allWithin_wakeDue {running : List (Running α)} {n : Nat} (h : AllWithin running n)
    (w : World) :
    ∃ m ≤ n, AllWithin (wakeDue running w).1 m ∧ ((∃ r ∈ running, r.IsDue w.now) → m < n) := by
  induction h generalizing w with
  | nil => exact ⟨0, Nat.le_refl 0, .nil, by simp⟩
  | @cons r rest m n first others ih =>
    obtain ⟨hkept, hless⟩ := within_woken first w
    obtain ⟨n', hn', hrest, hdue⟩ := ih (r.woken w).2
    rw [now_woken] at hdue
    rw [wakeDue_cons]
    by_cases hr : r.IsDue w.now
    · obtain ⟨m', hm', hfirst⟩ := hless hr
      exact ⟨m' + n', by omega, .cons hfirst hrest, fun _ => by omega⟩
    · refine ⟨m + n', by omega, .cons hkept hrest, ?_⟩
      rintro ⟨r', hr', hnow⟩
      rcases List.mem_cons.mp hr' with rfl | hr'
      · exact absurd hnow hr
      · have hlt := hdue ⟨r', hr', hnow⟩
        omega

theorem nextWake?_none {running : List (Running α)} (h : nextWake? running = none) :
    ∀ r ∈ running, r.result?.isSome := by
  intro r hr
  cases r with
  | finished result => rfl
  | asleep wake rest =>
    rw [nextWake?, List.min?_eq_none_iff, List.filterMap_eq_nil_iff] at h
    have habsent := h _ hr
    cases habsent

theorem nextWake?_some {running : List (Running α)} {wake : Nat} (h : nextWake? running = some wake) :
    ∃ rest, .asleep wake rest ∈ running := by
  have hmem := List.min?_mem h
  obtain ⟨r, hr, hwake⟩ := List.mem_filterMap.mp hmem
  cases r with
  | finished result => cases hwake
  | asleep wake' rest =>
    cases hwake
    exact ⟨rest, hr⟩

theorem finished_of_allWithin_zero {running : List (Running α)} (h : AllWithin running 0) :
    ∀ r ∈ running, r.result?.isSome := by
  generalize hn : 0 = n at h
  induction h with
  | nil => simp
  | @cons r rest m n first others ih =>
    have hm : m = 0 := by omega
    have hrest : 0 = n := by omega
    subst hm
    intro r' hr'
    rcases List.mem_cons.mp hr' with rfl | hr'
    · cases first
      rfl
    · exact ih hrest r' hr'

theorem finished_runAwake {running : List (Running α)} {n wakes : Nat} (h : AllWithin running n)
    (hn : n ≤ wakes) (w : World) : ∀ r ∈ (runAwake wakes running w).1, r.result?.isSome := by
  induction wakes generalizing running n w with
  | zero =>
    have hzero : n = 0 := by omega
    subst hzero
    exact finished_of_allWithin_zero h
  | succ wakes ih =>
    simp only [runAwake]
    split
    next hnone => exact nextWake?_none hnone
    next wake hsome =>
      obtain ⟨rest, hmem⟩ := nextWake?_some hsome
      obtain ⟨m, _, hwithin, hless⟩ := allWithin_wakeDue h { w with now := max w.now wake }
      have hlt := hless ⟨_, hmem, wake, rest, rfl, Nat.le_max_right _ _⟩
      exact ih hwithin (by omega) _

theorem allWithin_start {calls : List (Call α)} {k : Nat} (h : ∀ call ∈ calls, call.Within k)
    {now : Nat} (w : World) (hnow : now ≤ w.now) :
    AllWithin (wakeDue (calls.map fun call => Running.asleep now call) w).1 (k * calls.length) := by
  induction calls generalizing w with
  | nil => exact .nil
  | cons call calls ih =>
    have hfirst := within_advance (h call List.mem_cons_self) w
    have hwoken : (Running.asleep now call).woken w = advance call w := if_pos hnow
    have hrest := ih (fun call hcall => h call (List.mem_cons_of_mem _ hcall)) (advance call w).2
      (by rwa [now_advance])
    rw [List.map_cons, wakeDue_cons, hwoken, List.length_cons, Nat.mul_succ, Nat.add_comm]
    exact .cons hfirst hrest

theorem runAll_finishes {calls : List (Call α)} (h : ∀ call ∈ calls, call.Within waitsPerCall)
    (w : World) : ∀ result ∈ (runAll calls w).1, result.isSome := by
  intro result hresult
  rw [runAll_eq] at hresult
  obtain ⟨r, hr, rfl⟩ := List.mem_map.mp hresult
  have hstart := allWithin_start h w (Nat.le_refl w.now)
  exact finished_runAwake hstart (Nat.le_refl _) _ r hr

end World

theorem ReadMethod.within_call (m : ReadMethod) (args : List Json) :
    (m.call args).Within World.waitsPerCall := by
  rw [ReadMethod.call_eq]
  refine ⟨1, rfl, fun answer => ?_⟩
  cases answer <;> trivial

theorem WriteMethod.within_call (m : WriteMethod) (args : List Json) :
    (m.call args).Within World.waitsPerCall := by
  rw [WriteMethod.call_eq]
  refine ⟨1, rfl, fun answer => ?_⟩
  cases answer with
  | error failure => trivial
  | ok result =>
    simp only [PendingWrite.call_eq]
    refine ⟨0, rfl, fun answer => ?_⟩
    rcases answer with failure | _ | transaction <;> trivial

theorem Invocation.within_call (invocation : Invocation) :
    invocation.call.Within World.waitsPerCall := by
  cases invocation with
  | method m args =>
    cases m with
    | read m => exact m.within_call args
    | write m => exact m.within_call args
  | read m args => exact m.within_call args
  | write m args => exact m.within_call args
  | prepared m args => exact (WriteMethod.prepared_eq m args).symm ▸ m.within_call args

/-- Invocations that run side by side in a session all come to an end. Each has gone through its own phases,
whatever the others did in between. -/
theorem World.runAll_invocations (invocations : List Invocation) (w : World) :
    ∃ history : History,
      (runAll (invocations.map Invocation.call) w).2.events.map Event.request =
        history.requests.reverse ++ w.events.map Event.request ∧
      ∀ (i : Nat) (invocation : Invocation), invocations[i]? = some invocation → ∃ outcome,
        (runAll (invocations.map Invocation.call) w).1[i]? = some (some outcome) ∧
          invocation.Phase (history.of i) (some outcome) := by
  obtain ⟨schedule, hresults, hrequests⟩ := runAll_interleaves (invocations.map Invocation.call) w
  refine ⟨_, hrequests, ?_⟩
  intro i invocation hi
  have hcall : (invocations.map Invocation.call)[i]? = some invocation.call := by simp [hi]
  obtain ⟨f, hf, path⟩ := Flights.run_path w.executors schedule hcall
  have hresult : (runAll (invocations.map Invocation.call) w).1[i]? = some f.result? := by
    rw [← hresults, List.getElem?_map, hf, Option.map_some]
  have hwithin : ∀ call ∈ invocations.map Invocation.call, call.Within waitsPerCall := by
    intro call hmem
    obtain ⟨invocation, _, rfl⟩ := List.mem_map.mp hmem
    exact invocation.within_call
  have hended := runAll_finishes hwithin w _ (List.mem_of_getElem? hresult)
  obtain ⟨outcome, houtcome⟩ := Option.isSome_iff_exists.mp hended
  have hphase := (Invocation.phase_of_path path).1
  rw [houtcome] at hphase hresult
  exact ⟨outcome, hresult, hphase⟩

end AbiCalls
