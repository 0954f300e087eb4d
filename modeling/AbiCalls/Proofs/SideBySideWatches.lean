import AbiCalls.Proofs.SessionWatches
import AbiCalls.Proofs.SteadyWatches

namespace AbiCalls

abbrev ByWatch (α : Type) := List (Nat × α)

namespace ByWatch

variable {α : Type}

def of (things : ByWatch α) (i : Nat) : List α :=
  (things.filter fun thing => thing.1 = i).map Prod.snd

theorem of_append (things more : ByWatch α) (i : Nat) : of (things ++ more) i = of things i ++ of more i := by
  simp [of]

theorem of_own (things : List α) (i : Nat) : of (things.map fun thing => (i, thing)) i = things := by
  simp [of, List.filter_map, Function.comp_def]

theorem of_other (things : List α) {i j : Nat} (h : i ≠ j) :
    of (things.map fun thing => (i, thing)) j = [] := by
  simp [of, List.filter_map, Function.comp_def, h]

theorem of_append_own (things : ByWatch α) (i : Nat) (thing : α) :
    of (things ++ [(i, thing)]) i = of things i ++ [thing] := by
  simp [of]

theorem of_append_other (things : ByWatch α) {i j : Nat} (h : i ≠ j) (thing : α) :
    of (things ++ [(i, thing)]) j = of things j := by
  simp [of, h]

end ByWatch

/-- Watches between polls, with all that has been seen of them and all polls that there have been. -/
structure Watches where
  feeds : List Feed
  log : ByWatch (Nat × WatchEvent) := []
  polls : ByWatch Poll := []

/-- Whoever answers. Which answers are there may depend on all that has happened, on whose question it is, and on
the time. -/
abbrev Answering := Watches → Nat → Nat → Answers

namespace Watches

def poll (answering : Answering) (w : Watches) (turn : Nat × Nat) : Watches :=
  match w.feeds[turn.1]? with
  | none => w
  | some f =>
    let p : Poll := ⟨turn.2, answering w turn.1 turn.2⟩
    let (seen, f) := f.poll p
    ⟨w.feeds.set turn.1 f, w.log ++ seen.map fun event => (turn.1, event), w.polls ++ [(turn.1, p)]⟩

def run (answering : Answering) (feeds : List Feed) (schedule : ByWatch Nat) : Watches :=
  schedule.foldl (poll answering) { feeds }

variable (answering : Answering)

theorem run_append_singleton (feeds : List Feed) (schedule : ByWatch Nat) (turn : Nat × Nat) :
    run answering feeds (schedule ++ [turn]) = (run answering feeds schedule).poll answering turn := by
  simp [run]

/-- What a watch has come to is what its own polls have made of it. -/
structure Own (start : Feed) (times : List Nat) (w : Watches) (i : Nat) : Prop where
  times : (w.polls.of i).map Poll.time = times
  log : w.log.of i = (start.run (w.polls.of i)).1
  feed : w.feeds[i]? = some (start.run (w.polls.of i)).2

variable {start : Feed} {times : List Nat} {w : Watches} {i : Nat}

theorem Own.poll_own (h : Own start times w i) (time : Nat) :
    Own start (times ++ [time]) (w.poll answering (i, time)) i := by
  have bound := (List.getElem?_eq_some_iff.mp h.feed).1
  simp only [poll, h.feed]
  constructor
  · rw [ByWatch.of_append_own, List.map_append, h.times, List.map_singleton]
  · rw [ByWatch.of_append_own, Feed.run_append_singleton, ByWatch.of_append, ByWatch.of_own, h.log]
  · rw [ByWatch.of_append_own, Feed.run_append_singleton]
    exact List.getElem?_set_self bound

theorem Own.poll_other (h : Own start times w i) {j : Nat} (hj : j ≠ i) (time : Nat) :
    Own start times (w.poll answering (j, time)) i := by
  unfold poll
  split
  next => exact h
  next =>
    constructor
    · rw [ByWatch.of_append_other _ hj, h.times]
    · rw [ByWatch.of_append_other _ hj, ByWatch.of_append, ByWatch.of_other _ hj, List.append_nil, h.log]
    · rw [ByWatch.of_append_other _ hj, List.getElem?_set_ne hj, h.feed]

theorem run_own {feeds : List Feed} (h : feeds[i]? = some start) (schedule : ByWatch Nat) :
    Own start (schedule.of i) (run answering feeds schedule) i := by
  induction schedule using List.reverseRecOn with
  | nil => exact ⟨rfl, rfl, h⟩
  | append_singleton schedule turn ih =>
    obtain ⟨j, time⟩ := turn
    rw [run_append_singleton]
    by_cases hj : j = i
    · rw [hj, ByWatch.of_append_own]
      exact ih.poll_own answering time
    · rw [ByWatch.of_append_other _ hj]
      exact ih.poll_other answering hj time

end Watches

namespace Subscription

/-- All that a watch is held to. Its account says which questions it has asked, and with which answers. -/
structure Steady (s : Subscription) (polls : List Poll) (log : WatchLog) (feed : Feed) (a : Account) : Prop
    extends s.Accounts polls log feed a where
  run_eq : s.start.run polls = (log, feed)
  pursues : feed.Pursues s.start.watch log
  silent : polls = [] → log = []
  period_eq : ∀ ticker ∈ feed.watch.ticker, ticker.period = s.period
  period_pos : 0 < s.period
  le_time : ∀ {first k : Nat} {t : Tick}, polls.head?.map Poll.time = some first → a.ticks[k]? = some t →
    first + k * s.period ≤ t.time
  le_time_of_late : ∀ {k : Nat} {t later : Tick}, a.ticks[k]? = some t → a.ticks[k + 1]? = some later →
    tolerance + t.due < t.time → t.time + s.period ≤ later.time
  /-- Other answers, good or bad, would change neither what it asks nor when. -/
  same : ∀ {polls' : List Poll}, List.Forall₂ s.Matched polls polls' →
    SameButAnswers (log, feed) (s.start.run polls')
  /-- It never ends: the next question that is due, once answered, gives an item. -/
  yields : ∀ {p : Poll} {answer : Except Failure Json}, a.nextDue s.period ≤ p.time →
    s.answer? p = some answer → ∃ before, (feed.poll p).1 = before ++ [(p.time, .yielded (readOutcome answer))]

theorem period_pos (s : Subscription) : 0 < s.period :=
  Nat.lt_of_lt_of_le (by decide : 0 < nanosPerMilli) (Nat.le_max_right _ _)

theorem period_of_millis {s : Subscription} {ms : UInt64} (h : s.every = some (.ofMillis ms)) :
    s.period = nanosPerMilli * max ms.toNat 1 := by
  have every : s.interval = .ofMillis ms := by rw [interval, h, Option.getD_some]
  rw [period, every, Interval.nanos_ofMillis, ← Nat.mul_max_mul_left, Nat.mul_one]

theorem Accounts.period_eq {s : Subscription} {polls : List Poll} {log : WatchLog} {feed : Feed} {a : Account}
    (h : s.Accounts polls log feed a) : ∀ ticker ∈ feed.watch.ticker, ticker.period = s.period := by
  intro ticker hticker
  rw [h.feed_eq] at hticker
  obtain ⟨last, _, rfl⟩ := Option.map_eq_some_iff.mp hticker
  rfl

theorem exists_steady (s : Subscription) (polls : List Poll) :
    ∃ a, s.Steady polls (s.start.run polls).1 (s.start.run polls).2 a := by
  obtain ⟨a, h⟩ := s.exists_account polls
  exact ⟨a, {
    toAccounts := h
    run_eq := rfl
    pursues := Feed.run_pursues s.start.watch polls
    silent := fun none => none ▸ rfl
    period_eq := h.period_eq
    period_pos := s.period_pos
    le_time := h.paced.le_time
    le_time_of_late := h.paced.le_time_of_late
    same := fun matched => run_matched matched none false
    yields := h.yields }⟩

end Subscription

/-- Whoever answers, and whichever watch is polled at which time, each watch is steady, and goes by its own polls
alone. A question with its answer is a read that is run to its end. Without an interval of its own a watch has that
of the method, which is the one of the context. Sessions take their items from such watches. -/
theorem watches_poll_faithfully (answering : Answering) (watches : List Subscription) (schedule : ByWatch Nat)
    (i : Fin watches.length) :
    let s := watches[i]
    let w := Watches.run answering (watches.map Subscription.start) schedule
    (∃ feed a, w.feeds[i.val]? = some feed ∧ (w.polls.of i).map Poll.time = schedule.of i ∧
      s.Steady (w.polls.of i) (w.log.of i) feed a) ∧
    (∀ answer, (s.method.run s.args).Path 3 [.asked s.request, .queried answer]
      ⟨.done (readOutcome answer), false⟩) ∧
    (∀ ms, s.every = some (.ofMillis ms) → s.period = nanosPerMilli * max ms.toNat 1) ∧
    { s with every := none }.start.watch = Watch.ofMethod s.method s.args ∧
    { s with every := some s.method.pollInterval }.start.watch = Watch.ofMethod s.method s.args ∧
    (∀ target f ctx, Method.ofFunction target f ctx = .read s.method →
      s.method.pollInterval = ctx.pollInterval) ∧
    ∀ pause count world, ∃ polls : List Poll,
      PolledWithin polls world.now (World.watchItems pause count s.start.watch world).2.now ∧
      (World.watchItems pause count s.start.watch world).1 = WatchLog.items (s.start.run polls).1 ∧
      (World.watchItems pause count s.start.watch world).2.events.reverse =
        world.events.reverse ++ WatchLog.requests (s.start.run polls).1 := by
  intro s w
  have hstart : (watches.map Subscription.start)[i.val]? = some s.start := by simp [s]
  have own := Watches.run_own answering hstart schedule
  obtain ⟨a, steady⟩ := s.exists_steady (w.polls.of i)
  refine ⟨⟨_, a, own.feed, own.times, own.log ▸ steady⟩, s.method.path_run s.args,
    fun _ => Subscription.period_of_millis, rfl, rfl, ?_,
    s.watchItems_eq_run none⟩
  intro target f ctx h
  unfold Method.ofFunction at h
  split at h
  next => rw [← Method.read.inj h]
  next => cases h

def hurriedWatch : Subscription :=
  ⟨totalRead, [], some (.ofMillis 0)⟩

def recovering : Answering := fun _ _ now =>
  .ofQuery (if now < 20 * nanosPerMilli then .error (.plain .other "busy") else .ok .null)

/-- Times in milliseconds, for either of two watches. -/
def hurriedSchedule : ByWatch Nat :=
  [(0, 10), (1, 10), (0, 10), (1, 11), (0, 30), (0, 30), (1, 31), (0, 31)].map fun (i, ms) =>
    (i, nanosPerMilli * ms)

/-- Two watches of one method without a pause between their questions. One of them is left alone for too long. -/
theorem hurriedWatches_steady :
    let w := Watches.run recovering [hurriedWatch.start, hurriedWatch.start] hurriedSchedule
    (∃ feed a, w.feeds[0]? = some feed ∧ hurriedWatch.Steady (w.polls.of 0) (w.log.of 0) feed a) ∧
      WatchLog.items (w.log.of 0) =
        [.error (.carrying .query (.plain .other "busy")), .ok .null, .ok .null] ∧
      (WatchLog.requests (w.log.of 0)).map Event.time = [10000000, 30000000, 31000000] ∧
      (WatchLog.requests (w.log.of 1)).map Event.time = [10000000, 11000000, 31000000] := by
  intro w
  obtain ⟨⟨feed, a, hfeed, -, steady⟩, -⟩ :=
    watches_poll_faithfully recovering [hurriedWatch, hurriedWatch] hurriedSchedule ⟨0, by decide⟩
  exact ⟨⟨feed, a, hfeed, steady⟩, rfl, rfl, rfl⟩

end AbiCalls
