import AbiCalls.Proofs.Polling
import AbiCalls.Session.World

namespace AbiCalls

def WatchLog.requests (log : WatchLog) : List Event :=
  log.filterMap fun
    | (time, .happened (.asked request)) => some ⟨time, request⟩
    | _ => none

theorem WatchLog.requests_append (log more : WatchLog) :
    requests (log ++ more) = requests log ++ requests more :=
  List.filterMap_append

namespace Answers

def none : Answers where
  query _ _ := .none
  trial _ _ := .none
  submission _ _ := .none

def ofQuery (answer : Except Failure Json) : Answers :=
  { none with query := fun _ _ => some answer }

end Answers

/-- Polls between two times, none before the one ahead of it. -/
structure PolledWithin (polls : List Poll) (first last : Nat) : Prop where
  le : first ≤ last
  within : ∀ p ∈ polls, first ≤ p.time ∧ p.time ≤ last
  ordered : polls.Pairwise fun p q => p.time ≤ q.time

namespace PolledWithin

variable {polls more : List Poll} {first middle last : Nat}

theorem nil (le : first ≤ last) : PolledWithin [] first last :=
  ⟨le, by simp, .nil⟩

theorem of_le (h : PolledWithin polls middle last) (le : first ≤ middle) : PolledWithin polls first last where
  le := Nat.le_trans le h.le
  within p hp := ⟨Nat.le_trans le (h.within p hp).1, (h.within p hp).2⟩
  ordered := h.ordered

theorem append (h : PolledWithin polls first middle) (h' : PolledWithin more middle last) :
    PolledWithin (polls ++ more) first last where
  le := Nat.le_trans h.le h'.le
  within p hp := by
    rcases List.mem_append.mp hp with hp | hp
    · exact ⟨(h.within p hp).1, Nat.le_trans (h.within p hp).2 h'.le⟩
    · exact (h'.of_le h.le).within p hp
  ordered := List.pairwise_append.mpr ⟨h.ordered, h'.ordered, fun p hp q hq =>
    Nat.le_trans (h.within p hp).2 (h'.within q hq).1⟩

end PolledWithin

namespace Subscription

variable (s : Subscription) (ticker : Option Ticker)

def itemInSession (w : World) : Except Error Json × World :=
  World.run (s.method.run s.args) { w with now := (s.tickerAt ticker w.now).tickTime w.now }

def tickerAfter (now : Nat) : Option Ticker :=
  some ((s.tickerAt ticker now).after ((s.tickerAt ticker now).tickTime now))

theorem watchItems_succ (pause count : Nat) (w : World) :
    World.watchItems pause (count + 1) (s.feed ticker false).watch w =
      ((s.itemInSession ticker w).1 ::
          (World.watchItems pause count (s.feed (s.tickerAfter ticker w.now) false).watch
            ((s.itemInSession ticker w).2.sleep pause)).1,
        (World.watchItems pause count (s.feed (s.tickerAfter ticker w.now) false).watch
          ((s.itemInSession ticker w).2.sleep pause)).2) := rfl

/-- The polls of someone who waits for the next item from `now` on, and gets it at `finish`. -/
def waiting (now finish : Nat) (answer : Except Failure Json) : List Poll :=
  [⟨now, .none⟩, ⟨(s.tickerAt ticker now).tickTime now, .none⟩, ⟨finish, .ofQuery answer⟩]

theorem poll_open_none (now : Nat) :
    (s.feed ticker true).poll ⟨now, .none⟩ = ([], s.feed ticker true) :=
  s.poll_asking ticker ⟨now, .none⟩

theorem poll_open_ofQuery (now : Nat) (answer : Except Failure Json) :
    (s.feed ticker true).poll ⟨now, .ofQuery answer⟩ = (answered now answer, s.feed ticker false) :=
  s.poll_asking ticker ⟨now, .ofQuery answer⟩

variable {ticker}

theorem poll_due_none {now : Nat} (due : (s.tickerAt ticker now).due ≤ now) :
    (s.feed ticker false).poll ⟨now, .none⟩ =
      (s.asked ⟨(s.tickerAt ticker now).due, now⟩, s.feed (some ((s.tickerAt ticker now).after now)) true) :=
  (s.poll_due (p := ⟨now, .none⟩) due).trans (by simp [afterAsking, answer?, Answers.none])

theorem tickerAt_some (t : Ticker) (now : Nat) : s.tickerAt (some t) now = t := rfl

theorem run_waiting (now finish : Nat) (answer : Except Failure Json) :
    (s.feed ticker false).run (s.waiting ticker now finish answer) =
      (s.asked ⟨(s.tickerAt ticker now).due, (s.tickerAt ticker now).tickTime now⟩ ++ answered finish answer,
        s.feed (s.tickerAfter ticker now) false) := by
  by_cases due : (s.tickerAt ticker now).due ≤ now
  · have hnow : (s.tickerAt ticker now).tickTime now = now := Nat.max_eq_left due
    simp only [waiting, tickerAfter, hnow, Feed.run, s.poll_due_none due, poll_open_none, poll_open_ofQuery,
      List.nil_append, List.append_nil]
  · have early := Nat.lt_of_not_le due
    have htick : (s.tickerAt ticker now).tickTime now = (s.tickerAt ticker now).due :=
      Nat.max_eq_right (Nat.le_of_lt early)
    have started : (s.tickerAt (some (s.tickerAt ticker now)) (s.tickerAt ticker now).due).due ≤
        (s.tickerAt ticker now).due := Nat.le_refl _
    have hearly := s.poll_early (p := ⟨now, .none⟩) early
    simp only [waiting, tickerAfter, htick, Feed.run, hearly, s.poll_due_none started, poll_open_ofQuery,
      tickerAt_some, List.nil_append, List.append_nil]

theorem exists_itemInSession_eq (ticker : Option Ticker) (w : World) :
    ∃ answer, (s.tickerAt ticker w.now).tickTime w.now ≤ (s.itemInSession ticker w).2.now ∧
      (s.itemInSession ticker w).1 = readOutcome answer ∧
      (s.itemInSession ticker w).2.events =
        ⟨(s.tickerAt ticker w.now).tickTime w.now, s.request⟩ :: w.events := by
  unfold itemInSession
  rw [ReadMethod.run_eq]
  exact ⟨_, Nat.le_add_right _ _, rfl, rfl⟩

theorem waiting_polledWithin {now finish : Nat} (ends : (s.tickerAt ticker now).tickTime now ≤ finish)
    (answer : Except Failure Json) : PolledWithin (s.waiting ticker now finish answer) now finish := by
  have begins : now ≤ (s.tickerAt ticker now).tickTime now := Nat.le_max_left _ _
  have whole := Nat.le_trans begins ends
  constructor <;> simp [waiting, begins, ends, whole]

theorem item_eq_run (ticker : Option Ticker) (w : World) :
    ∃ polls log, (s.feed ticker false).run polls = (log, s.feed (s.tickerAfter ticker w.now) false) ∧
      PolledWithin polls w.now (s.itemInSession ticker w).2.now ∧
      WatchLog.items log = [(s.itemInSession ticker w).1] ∧
      (s.itemInSession ticker w).2.events.reverse = w.events.reverse ++ WatchLog.requests log := by
  obtain ⟨answer, ends, hitem, hevents⟩ := s.exists_itemInSession_eq ticker w
  refine ⟨_, _, s.run_waiting w.now _ answer, s.waiting_polledWithin ends answer, ?_, ?_⟩
  · rw [hitem]
    rfl
  · rw [hevents, List.reverse_cons]
    rfl

/-- What a session takes of a watch is what polls of it bring, with the same requests at the same times. -/
theorem watchItems_eq_run (ticker : Option Ticker) (pause count : Nat) (w : World) :
    ∃ polls : List Poll,
      PolledWithin polls w.now (World.watchItems pause count (s.feed ticker false).watch w).2.now ∧
      (World.watchItems pause count (s.feed ticker false).watch w).1 =
        WatchLog.items ((s.feed ticker false).run polls).1 ∧
      (World.watchItems pause count (s.feed ticker false).watch w).2.events.reverse =
        w.events.reverse ++ WatchLog.requests ((s.feed ticker false).run polls).1 := by
  induction count generalizing ticker w with
  | zero => exact ⟨[], .nil (Nat.le_refl _), rfl, by simp [World.watchItems, Feed.run, WatchLog.requests]⟩
  | succ count ih =>
    obtain ⟨polls, log, hrun, hwithin, hitem, hrequests⟩ := s.item_eq_run ticker w
    obtain ⟨more, hmore, hitems, hevents⟩ :=
      ih (s.tickerAfter ticker w.now) ((s.itemInSession ticker w).2.sleep pause)
    have hstep := s.watchItems_succ ticker pause count w
    refine ⟨polls ++ more, ?_, ?_, ?_⟩
    · rw [hstep]
      exact hwithin.append (hmore.of_le (Nat.le_add_right _ _))
    · rw [hstep, Feed.run_append, hrun, WatchLog.items_append, hitem, hitems, List.singleton_append]
    · rw [hstep, Feed.run_append, hrun, WatchLog.requests_append, ← List.append_assoc, ← hrequests]
      exact hevents

end Subscription

end AbiCalls
