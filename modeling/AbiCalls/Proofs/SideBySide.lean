import AbiCalls.Proofs.Scripted

namespace AbiCalls

variable {α : Type}

namespace World

variable {w₀ : World} {i : Nat}

/-- The flight of a running call can go to where the call stands in a world. -/
def Followed (w₀ : World) (i : Nat) (s : Flights α) (running : Running α × World) : Prop :=
  ∃ s' f, Flights.Onward w₀.executors i s s' ∧ s'.flights[i]? = some f ∧
    running.2.Alike (w₀.tookAll s'.history.requests) ∧
    f.Mirrors w₀.executors s'.history i running.1

theorem Followed.onward {s s' : Flights α} {running : Running α × World}
    (onward : Flights.Onward w₀.executors i s s') (h : Followed w₀ i s' running) :
    Followed w₀ i s running := by
  obtain ⟨s'', f, further, rest⟩ := h
  exact ⟨s'', f, onward.trans further, rest⟩

theorem followed_request {call rest : Call α} {request : Request} {w : World} {s : Flights α}
    (hf : s.flights[i]? = some ⟨call, false⟩)
    (asks : ∀ history, Flight.step w₀.executors history i ⟨call, false⟩ =
      ([.asked request], ⟨call, true⟩))
    (settled : Flight.Settled w₀.executors (s.history ++ [⟨i, .asked request⟩]) i ⟨call, true⟩ rest)
    (h : w.Alike (w₀.tookAll (s.history.requests ++ [request])))
    (goes : ∀ {s' : Flights α}, s'.flights[i]? = some ⟨rest, false⟩ →
      w.Alike (w₀.tookAll s'.history.requests) → Followed w₀ i s' (advance rest w))
    (delay wake : Nat) :
    Followed w₀ i s (if delay = 0 then advance rest w else (.asleep wake rest, w)) := by
  have hstep := Flights.step_of_some w₀.executors hf
  rw [asks] at hstep
  have hasked : (s.step w₀.executors i).flights[i]? = some ⟨call, true⟩ := by
    have hown := (Flights.step_own w₀.executors hf).1
    rwa [asks] at hown
  have hhistory : (s.step w₀.executors i).history = s.history ++ [⟨i, .asked request⟩] := by
    rw [hstep]
    rfl
  rw [← hhistory] at settled
  have hrequests : (s.step w₀.executors i).history.requests = s.history.requests ++ [request] := by
    rw [hhistory, History.requests_append]
    rfl
  rw [← hrequests] at h
  have asked : Flights.Onward w₀.executors i s (s.step w₀.executors i) := .step .refl
  split
  next =>
    obtain ⟨hanswered, hsame⟩ := Flights.step_settled hasked settled
    rw [← hsame] at h
    exact (goes hanswered h).onward asked.step
  next => exact ⟨_, _, asked, hasked, h, .asleep settled⟩

theorem followed_advance (call : Call α) {w : World} {s : Flights α}
    (hf : s.flights[i]? = some ⟨call, false⟩) (h : w.Alike (w₀.tookAll s.history.requests)) :
    Followed w₀ i s (advance call w) := by
  induction call generalizing w s with
  | done result => exact ⟨s, _, .refl, hf, h, .finished result false⟩
  | note notice rest ih =>
    have hstep := Flights.step_of_some w₀.executors hf
    have hflight := (Flights.step_own w₀.executors hf).1
    have halike : (w.log notice).Alike
        (w₀.tookAll (s.step w₀.executors i).history.requests) := by
      rw [hstep]
      simpa [Flight.step] using (alike_log w notice).trans h
    exact (ih hflight halike).onward Flights.Onward.refl.step
  | query reader q resume ih =>
    have hasked : (w.ask reader q).2.Alike
        (w₀.tookAll (s.history.requests ++ [.query reader q])) := by
      rw [tookAll_append]
      exact (h.ask reader q).2
    exact followed_request hf (fun _ => rfl) (Flight.settled_query h reader q resume) hasked
      (ih _) _ _
  | trial writer t resume ih =>
    have hasked : (w.attempt writer t).2.Alike
        (w₀.tookAll (s.history.requests ++ [.trial writer t])) := by
      rw [tookAll_append]
      exact (h.attempt writer t).2
    exact followed_request hf (fun _ => rfl) (Flight.settled_trial h writer t resume) hasked
      (ih _) _ _
  | submission writer payload resume ih =>
    have hasked : (w.submit writer payload).2.Alike
        (w₀.tookAll (s.history.requests ++ [.submission writer payload])) := by
      rw [tookAll_append]
      exact (h.submit writer payload).2
    exact followed_request hf (fun _ => rfl) (Flight.settled_submission h writer payload resume)
      hasked (ih _) _ _

theorem now_advance (call : Call α) (w : World) : (advance call w).2.now = w.now := by
  induction call generalizing w with
  | done result => rfl
  | note notice rest ih => exact ih (w.log notice)
  | query reader q resume ih =>
    simp only [advance]
    split
    next => exact ih _ _
    next => rfl
  | trial writer t resume ih =>
    simp only [advance]
    split
    next => exact ih _ _
    next => rfl
  | submission writer payload resume ih =>
    simp only [advance]
    split
    next => exact ih _ _
    next => rfl

def Running.FreshAt (now : Nat) (f : Flight α) (r : Running α) : Prop :=
  ∃ wake rest, wake ≤ now ∧ r = .asleep wake rest ∧ f = ⟨rest, false⟩

/-- Flights that stand where the running calls stand, of which a number have been woken. The others may not
have begun. -/
structure Mirrored (w₀ : World) (s : Flights α) (running : List (Running α)) (w : World)
    (woken : Nat) : Prop where
  alike : w.Alike (w₀.tookAll s.history.requests)
  length_eq : s.flights.length = running.length
  flights : ∀ {i : Nat} {r : Running α}, running[i]? = some r → ∃ f, s.flights[i]? = some f ∧
    (f.Mirrors w₀.executors s.history i r ∨ woken ≤ i ∧ r.FreshAt w.now f)

variable {s : Flights α} {w : World}

theorem Mirrored.follow {before rest : List (Running α)} {r r' : Running α} {w' : World}
    (h : Mirrored w₀ s (before ++ r :: rest) w before.length)
    (followed : Followed w₀ before.length s (r', w')) (hnow : w'.now = w.now) :
    ∃ s', Flights.Reaches w₀.executors s s' ∧
      Mirrored w₀ s' (before ++ r' :: rest) w' (before ++ [r']).length := by
  obtain ⟨s', f', onward, hf', halike, hmirrors⟩ := followed
  refine ⟨s', onward.reaches, halike, ?_, ?_⟩
  · have hlength := onward.length_eq.trans h.length_eq
    simpa using hlength
  · intro j r'' hr
    by_cases hj : j = before.length
    · subst hj
      have hsame : r' = r'' := by simpa using hr
      subst hsame
      exact ⟨f', hf', .inl hmirrors⟩
    · have hset : before ++ r' :: rest = (before ++ r :: rest).set before.length r' := by simp
      rw [hset, List.getElem?_set_ne (Ne.symm hj)] at hr
      obtain ⟨f, hf, hstands⟩ := h.flights hr
      refine ⟨f, (onward.others hj).trans hf, ?_⟩
      rcases hstands with hmirrors | ⟨hlate, hfresh⟩
      · exact .inl (onward.mirrors hj hmirrors)
      · refine .inr ⟨?_, hnow ▸ hfresh⟩
        rw [List.length_append, List.length_singleton]
        omega

def Running.woken (r : Running α) (w : World) : Running α × World :=
  match r with
  | .finished result => (.finished result, w)
  | .asleep wake call => if wake ≤ w.now then advance call w else (.asleep wake call, w)

theorem runAll_eq (calls : List (Call α)) (w : World) :
    let woken := wakeDue (calls.map fun call => Running.asleep w.now call) w
    let ended := runAwake (waitsPerCall * calls.length) woken.1 woken.2
    runAll calls w = (ended.1.map Running.result?, ended.2) :=
  rfl

theorem wakeDue_cons (r : Running α) (rest : List (Running α)) (w : World) :
    wakeDue (r :: rest) w =
      ((r.woken w).1 :: (wakeDue rest (r.woken w).2).1, (wakeDue rest (r.woken w).2).2) := by
  cases r <;> rfl

theorem Mirrored.followed_woken {before rest : List (Running α)} {r : Running α}
    (h : Mirrored w₀ s (before ++ r :: rest) w before.length) :
    Followed w₀ before.length s (r.woken w) ∧ (r.woken w).2.now = w.now := by
  have hr : (before ++ r :: rest)[before.length]? = some r := by simp
  obtain ⟨f, hf, hstands⟩ := h.flights hr
  cases r with
  | finished result =>
    refine ⟨⟨s, f, .refl, hf, h.alike, ?_⟩, rfl⟩
    rcases hstands with hmirrors | ⟨_, wake, rest, _, hfresh, _⟩
    · exact hmirrors
    · cases hfresh
  | asleep wake call =>
    simp only [Running.woken]
    split
    next hdue =>
      refine ⟨?_, now_advance call w⟩
      rcases hstands with hmirrors | ⟨_, wake, rest, _, hfresh, hflight⟩
      · cases hmirrors with
        | asleep settled =>
          obtain ⟨hgoes, hsame⟩ := Flights.step_settled hf settled
          have halike := h.alike
          rw [← hsame] at halike
          exact (followed_advance call hgoes halike).onward Flights.Onward.refl.step
      · cases hfresh
        exact followed_advance call (hflight ▸ hf) h.alike
    next hdue =>
      refine ⟨⟨s, f, .refl, hf, h.alike, ?_⟩, rfl⟩
      rcases hstands with hmirrors | ⟨_, wake, rest, hwake, hfresh, _⟩
      · exact hmirrors
      · cases hfresh
        exact absurd hwake hdue

theorem Mirrored.wakeDue (rest : List (Running α)) {before : List (Running α)}
    (h : Mirrored w₀ s (before ++ rest) w before.length) :
    ∃ s', Flights.Reaches w₀.executors s s' ∧
      Mirrored w₀ s' (before ++ (World.wakeDue rest w).1) (World.wakeDue rest w).2
        (before ++ (World.wakeDue rest w).1).length := by
  induction rest generalizing before w s with
  | nil => exact ⟨s, ⟨[], rfl⟩, by simpa [World.wakeDue] using h⟩
  | cons r rest ih =>
    obtain ⟨followed, hnow⟩ := h.followed_woken
    obtain ⟨s', reaches, next⟩ := h.follow followed hnow
    have hnext : Mirrored w₀ s' (before ++ [(r.woken w).1] ++ rest) (r.woken w).2
        (before ++ [(r.woken w).1]).length := by
      rw [List.append_assoc, List.singleton_append]
      exact next
    obtain ⟨s'', further, last⟩ := ih hnext
    refine ⟨s'', reaches.trans further, ?_⟩
    rw [wakeDue_cons]
    simpa using last

theorem Mirrored.clock {running : List (Running α)} (h : Mirrored w₀ s running w running.length)
    (now : Nat) : Mirrored w₀ s running { w with now } 0 := by
  refine ⟨(alike_now w now).trans h.alike, h.length_eq, ?_⟩
  intro i r hr
  obtain ⟨f, hf, hmirrors | ⟨hlate, _⟩⟩ := h.flights hr
  · exact ⟨f, hf, .inl hmirrors⟩
  · have hbound := (List.getElem?_eq_some_iff.mp hr).1
    omega

theorem Mirrored.runAwake (wakes : Nat) {running : List (Running α)}
    (h : Mirrored w₀ s running w running.length) :
    ∃ s', Flights.Reaches w₀.executors s s' ∧
      Mirrored w₀ s' (World.runAwake wakes running w).1 (World.runAwake wakes running w).2
        (World.runAwake wakes running w).1.length := by
  induction wakes generalizing running w s with
  | zero => exact ⟨s, ⟨[], rfl⟩, h⟩
  | succ wakes ih =>
    simp only [World.runAwake]
    split
    next => exact ⟨s, ⟨[], rfl⟩, h⟩
    next wake _ =>
      have hclock : Mirrored w₀ s ([] ++ running) { w with now := max w.now wake } 0 :=
        h.clock (max w.now wake)
      obtain ⟨s', reaches, next⟩ := hclock.wakeDue
      obtain ⟨s'', further, last⟩ := ih next
      exact ⟨s'', reaches.trans further, last⟩

theorem Mirrored.results_eq {running : List (Running α)} (h : Mirrored w₀ s running w running.length) :
    s.flights.map Flight.result? = running.map Running.result? := by
  apply List.ext_getElem?
  intro i
  rw [List.getElem?_map, List.getElem?_map]
  cases hr : running[i]? with
  | none =>
    have hbound := List.getElem?_eq_none_iff.mp hr
    rw [← h.length_eq] at hbound
    rw [List.getElem?_eq_none hbound]
    rfl
  | some r =>
    obtain ⟨f, hf, hmirrors | ⟨hlate, _⟩⟩ := h.flights hr
    · rw [hf, Option.map_some, Option.map_some, hmirrors.result?_eq]
    · have hbound := (List.getElem?_eq_some_iff.mp hr).1
      omega

/-- Calls that run side by side in a session are flights under some schedule, with the same results and the
same requests in the same order. -/
theorem runAll_interleaves (calls : List (Call α)) (w : World) :
    ∃ schedule, (Flights.run w.executors calls schedule).flights.map Flight.result? =
        (runAll calls w).1 ∧
      (runAll calls w).2.events.map Event.request =
        (Flights.run w.executors calls schedule).history.requests.reverse ++
          w.events.map Event.request := by
  have hstart : Mirrored w (Flights.start calls)
      ([] ++ calls.map fun call => Running.asleep w.now call) w 0 := by
    refine ⟨.refl w, by simp [Flights.start], ?_⟩
    intro i r hr
    rw [List.nil_append, List.getElem?_map] at hr
    obtain ⟨call, hcall, rfl⟩ := Option.map_eq_some_iff.mp hr
    refine ⟨⟨call, false⟩, by simp [Flights.start, hcall], .inr ⟨Nat.zero_le i, ?_⟩⟩
    exact ⟨w.now, call, Nat.le_refl _, rfl, rfl⟩
  obtain ⟨s, reaches, hwoken⟩ := hstart.wakeDue
  obtain ⟨s', further, hended⟩ := Mirrored.runAwake (waitsPerCall * calls.length) hwoken
  obtain ⟨schedule, hrun⟩ := reaches.trans further
  refine ⟨schedule, ?_, ?_⟩
  · have hflights : (Flights.run w.executors calls schedule).flights = s'.flights := by
      rw [← hrun]
      rfl
    rw [hflights, runAll_eq]
    exact hended.results_eq
  · have hrequests := hended.alike.requests
    rw [requests_tookAll] at hrequests
    rw [Flights.run, hrun]
    exact hrequests

end World

end AbiCalls
