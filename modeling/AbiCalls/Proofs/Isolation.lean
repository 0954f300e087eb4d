import AbiCalls.Proofs.Interleaving

namespace AbiCalls

def History.seenBy (visible : Nat → Bool) (history : History) : History :=
  history.filter fun e => visible e.call

/-- Executors that answer a visible call by what has been visible, and by nothing else. -/
structure Executors.Heed (executors : Executors) (visible : Nat → Bool) : Prop where
  query : ∀ {h₁ h₂ : History} {i : Nat}, visible i → h₁.seenBy visible = h₂.seenBy visible →
    executors.query h₁ i = executors.query h₂ i
  trial : ∀ {h₁ h₂ : History} {i : Nat}, visible i → h₁.seenBy visible = h₂.seenBy visible →
    executors.trial h₁ i = executors.trial h₂ i
  submission : ∀ {h₁ h₂ : History} {i : Nat}, visible i → h₁.seenBy visible = h₂.seenBy visible →
    executors.submission h₁ i = executors.submission h₂ i

/-- States that cannot be told apart by the visible calls. -/
structure Flights.Alike {α : Type} (visible : Nat → Bool) (s t : Flights α) : Prop where
  history : s.history.seenBy visible = t.history.seenBy visible
  flights : ∀ {i : Nat}, visible i → s.flights[i]? = t.flights[i]?

theorem History.seenBy_append (visible : Nat → Bool) (history more : History) :
    (history ++ more).seenBy visible = history.seenBy visible ++ more.seenBy visible :=
  List.filter_append ..

theorem History.seenBy_all (history : History) : history.seenBy (fun _ => true) = history := by
  simp [History.seenBy]

theorem History.seenBy_hidden {visible : Nat → Bool} {i : Nat} (hidden : ¬visible i)
    (seen : List Happening) :
    History.seenBy visible (seen.map fun happening => ⟨i, happening⟩) = [] := by
  simp [History.seenBy, hidden]

theorem Executors.heed_all (executors : Executors) : executors.Heed fun _ => true := by
  have same : ∀ {h₁ h₂ : History},
      h₁.seenBy (fun _ => true) = h₂.seenBy (fun _ => true) → h₁ = h₂ := by
    intro h₁ h₂ h
    rwa [History.seenBy_all, History.seenBy_all] at h
  refine ⟨?_, ?_, ?_⟩
  · intro h₁ h₂ i _ h
    rw [same h]
  · intro h₁ h₂ i _ h
    rw [same h]
  · intro h₁ h₂ i _ h
    rw [same h]

theorem Flight.step_eq_of_seenBy {α : Type} {executors : Executors} {visible : Nat → Bool}
    (heed : executors.Heed visible) {h₁ h₂ : History} (h : h₁.seenBy visible = h₂.seenBy visible)
    {i : Nat} (hi : visible i) (f : Flight α) : f.step executors h₁ i = f.step executors h₂ i := by
  have hquery := heed.query hi h
  have htrial := heed.trial hi h
  have hsubmission := heed.submission hi h
  unfold Flight.step
  split <;> simp only [hquery, htrial, hsubmission]

namespace Flights

variable {α : Type} {visible : Nat → Bool}

theorem Alike.refl (s : Flights α) : Alike visible s s :=
  ⟨rfl, fun _ => rfl⟩

theorem Alike.symm {s t : Flights α} (h : Alike visible s t) : Alike visible t s :=
  ⟨h.history.symm, fun hi => (h.flights hi).symm⟩

theorem Alike.trans {s t u : Flights α} (h : Alike visible s t) (h' : Alike visible t u) :
    Alike visible s u :=
  ⟨h.history.trans h'.history, fun hi => (h.flights hi).trans (h'.flights hi)⟩

theorem Alike.eq_of_all {s t : Flights α} (h : Alike (fun _ => true) s t) : s = t := by
  have hhistory := h.history
  rw [History.seenBy_all, History.seenBy_all] at hhistory
  have hflights : s.flights = t.flights := List.ext_getElem? fun i => h.flights rfl
  obtain ⟨flights, history⟩ := s
  cases hhistory
  cases hflights
  rfl

theorem step_hidden (executors : Executors) (s : Flights α) {i : Nat} (hidden : ¬visible i) :
    Alike visible s (s.step executors i) := by
  refine ⟨?_, ?_⟩
  · unfold step
    split
    next => rfl
    next =>
      rw [History.seenBy_append, History.seenBy_hidden hidden, List.append_nil]
  · intro j hj
    have hij : i ≠ j := by
      rintro rfl
      exact hidden hj
    exact (step_other executors s hij).1.symm

theorem Alike.step {executors : Executors} (heed : executors.Heed visible) {s t : Flights α}
    (h : Alike visible s t) (i : Nat) : Alike visible (s.step executors i) (t.step executors i) := by
  by_cases hi : visible i
  · have hflight := h.flights hi
    cases hf : s.flights[i]? with
    | none =>
      rwa [step_of_none executors hf, step_of_none executors (hflight ▸ hf)]
    | some f =>
      have hstep := Flight.step_eq_of_seenBy heed h.history hi f
      refine ⟨?_, ?_⟩
      · simp only [Flights.step, ← hflight, hf, hstep, History.seenBy_append, h.history]
      · intro j hj
        by_cases hij : i = j
        · subst hij
          have hs := (step_own executors hf).1
          have ht := (step_own executors (hflight ▸ hf)).1
          rw [hs, ht, hstep]
        · rw [(step_other executors s hij).1, (step_other executors t hij).1]
          exact h.flights hj
  · exact ((step_hidden executors s hi).symm.trans h).trans (step_hidden executors t hi)

theorem Alike.foldl_step {executors : Executors} (heed : executors.Heed visible) {s t : Flights α}
    (h : Alike visible s t) (schedule : List Nat) :
    Alike visible (schedule.foldl (Flights.step executors) s)
      (schedule.foldl (Flights.step executors) t) := by
  induction schedule generalizing s t with
  | nil => exact h
  | cons i schedule ih => exact ih (h.step heed i)

theorem foldl_step_filter {executors : Executors} (heed : executors.Heed visible) (s : Flights α)
    (schedule : List Nat) :
    Alike visible (schedule.foldl (step executors) s)
      ((schedule.filter visible).foldl (step executors) s) := by
  induction schedule generalizing s with
  | nil => exact .refl s
  | cons i schedule ih =>
    rw [List.filter_cons]
    split
    next => exact ih (s.step executors i)
    next hi =>
      have skipped := (step_hidden executors s hi).symm.foldl_step heed schedule
      exact skipped.trans (ih s)

/-- Two runs with the same visible calls, whose turns come in the same order, look alike, whatever else is
called and whenever. -/
theorem run_alike {executors : Executors} (heed : executors.Heed visible)
    {calls₁ calls₂ : List (Call α)} (hcalls : ∀ i, visible i → calls₁[i]? = calls₂[i]?)
    {schedule₁ schedule₂ : List Nat}
    (hschedule : schedule₁.filter visible = schedule₂.filter visible) :
    Alike visible (run executors calls₁ schedule₁) (run executors calls₂ schedule₂) := by
  have hstart : Alike visible (start calls₁) (start calls₂) := by
    refine ⟨rfl, fun {i} hi => ?_⟩
    simp [start, hcalls i hi]
  have left := foldl_step_filter heed (start calls₁) schedule₁
  have right := foldl_step_filter heed (start calls₂) schedule₂
  have middle := hstart.foldl_step heed (schedule₁.filter visible)
  rw [← hschedule] at right
  exact (left.trans middle).trans right.symm

end Flights

end AbiCalls
