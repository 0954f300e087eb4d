import AbiCalls.Proofs.PollTimes

namespace AbiCalls

inductive WatchMark
  | ticked (due : Nat)
  | asked (request : Request)
  | answered
  | yielded

def WatchEvent.mark : WatchEvent → WatchMark
  | .ticked due => .ticked due
  | .happened (.asked request) => .asked request
  | .happened _ => .answered
  | .yielded _ => .yielded

def WatchLog.outline (log : WatchLog) : List (Nat × WatchMark) :=
  log.map fun (time, event) => (time, event.mark)

theorem WatchLog.outline_append (log more : WatchLog) :
    outline (log ++ more) = outline log ++ outline more :=
  List.map_append

/-- The earliest time of a poll that can bring the next item. -/
def Account.nextDue (a : Account) (period : Nat) : Nat :=
  if a.opened.isSome then 0 else (a.ticks.getLast?.map (Tick.dueNext period)).getD 0

namespace Subscription

variable (s : Subscription)

/-- Polls at the same time, which both find an answer or both find none. -/
structure Matched (p q : Poll) : Prop where
  time : p.time = q.time
  ready : (s.answer? p).isSome = (s.answer? q).isSome

def SameButAnswers (r r' : WatchLog × Feed) : Prop :=
  WatchLog.outline r.1 = WatchLog.outline r'.1 ∧ r.2 = r'.2

theorem SameButAnswers.append {log log' : WatchLog} {r r' : WatchLog × Feed}
    (h : WatchLog.outline log = WatchLog.outline log') (hr : SameButAnswers r r') :
    SameButAnswers (log ++ r.1, r.2) (log' ++ r'.1, r'.2) :=
  ⟨by rw [WatchLog.outline_append, WatchLog.outline_append, h, hr.1], hr.2⟩

variable {s} {p q : Poll}

theorem Matched.afterAsking (h : s.Matched p q) (ticker : Option Ticker) :
    SameButAnswers (s.afterAsking ticker p) (s.afterAsking ticker q) := by
  have ready := h.ready
  unfold Subscription.afterAsking
  cases hp : s.answer? p <;> cases hq : s.answer? q <;> rw [hp, hq] at ready
  · exact ⟨rfl, rfl⟩
  · cases ready
  · cases ready
  · rw [h.time]
    exact ⟨rfl, rfl⟩

theorem Matched.poll (h : s.Matched p q) (ticker : Option Ticker) (asking : Bool) :
    SameButAnswers ((s.feed ticker asking).poll p) ((s.feed ticker asking).poll q) := by
  cases asking with
  | true =>
    rw [s.poll_asking, s.poll_asking]
    exact h.afterAsking ticker
  | false =>
    by_cases due : (s.tickerAt ticker p.time).due ≤ p.time
    · rw [s.poll_due due, s.poll_due (h.time ▸ due), ← h.time]
      exact (h.afterAsking _).append rfl
    · rw [s.poll_early (Nat.lt_of_not_le due), s.poll_early (h.time ▸ Nat.lt_of_not_le due), h.time]
      exact ⟨rfl, rfl⟩

theorem exists_afterAsking_eq (s : Subscription) (ticker : Option Ticker) (p : Poll) :
    ∃ asking, (s.afterAsking ticker p).2 = s.feed ticker asking := by
  unfold Subscription.afterAsking
  split
  next => exact ⟨false, rfl⟩
  next => exact ⟨true, rfl⟩

theorem exists_poll_eq (s : Subscription) (ticker : Option Ticker) (asking : Bool) (p : Poll) :
    ∃ ticker' asking', ((s.feed ticker asking).poll p).2 = s.feed ticker' asking' := by
  cases asking with
  | true =>
    rw [s.poll_asking]
    exact ⟨ticker, s.exists_afterAsking_eq ticker p⟩
  | false =>
    by_cases due : (s.tickerAt ticker p.time).due ≤ p.time
    · rw [s.poll_due due]
      exact ⟨_, s.exists_afterAsking_eq _ p⟩
    · rw [s.poll_early (Nat.lt_of_not_le due)]
      exact ⟨_, false, rfl⟩

theorem run_matched {polls polls' : List Poll} (h : List.Forall₂ s.Matched polls polls')
    (ticker : Option Ticker) (asking : Bool) :
    SameButAnswers ((s.feed ticker asking).run polls) ((s.feed ticker asking).run polls') := by
  induction h generalizing ticker asking with
  | nil => exact ⟨rfl, rfl⟩
  | @cons p q polls polls' matched _ ih =>
    obtain ⟨seen, left⟩ := matched.poll ticker asking
    obtain ⟨ticker', asking', hfeed⟩ := s.exists_poll_eq ticker asking p
    rw [Feed.run_cons, Feed.run_cons, ← left, hfeed]
    exact (ih ticker' asking').append seen

theorem afterAsking_yields {answer : Except Failure Json} (h : s.answer? p = some answer)
    (ticker : Option Ticker) :
    (s.afterAsking ticker p).1 =
      [(p.time, .happened (.queried answer)), (p.time, .yielded (readOutcome answer))] := by
  simp only [Subscription.afterAsking, h, answered]

/-- A watch is never at its end. An answer that is there when the next question is due becomes an item. -/
theorem Accounts.yields {polls : List Poll} {log : WatchLog} {feed : Feed} {a : Account}
    (h : s.Accounts polls log feed a) {answer : Except Failure Json} (due : a.nextDue s.period ≤ p.time)
    (hanswer : s.answer? p = some answer) :
    ∃ before, (feed.poll p).1 = before ++ [(p.time, .yielded (readOutcome answer))] := by
  obtain ⟨rounds, _ | t⟩ := a
  · have due : (s.tickerOf ⟨rounds, none⟩ p.time).due ≤ p.time := by
      cases hlast : (Account.ticks ⟨rounds, none⟩).getLast? with
      | none => rw [tickerOf_none hlast]
      | some last =>
        rw [Account.nextDue, if_neg (by simp), hlast, Option.map_some, Option.getD_some] at due
        rw [tickerOf_some hlast]
        exact due
    rw [h.feed_eq, Option.isSome_none, s.poll_due due, afterAsking_yields hanswer]
    exact ⟨_, List.append_cons _ _ _⟩
  · rw [h.feed_eq, Option.isSome_some, s.poll_asking, afterAsking_yields hanswer]
    exact ⟨[_], rfl⟩

end Subscription

end AbiCalls
