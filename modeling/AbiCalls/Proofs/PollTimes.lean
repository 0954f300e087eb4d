import AbiCalls.Proofs.Polling
import Mathlib.Data.List.Chain

namespace AbiCalls

namespace Tick

/-- When the tick after this one is due. The one that came too late puts it off. -/
def dueNext (period : Nat) (t : Tick) : Nat :=
  if tolerance + t.due < t.time then t.time + period else t.due + period

theorem due_add_le_dueNext (period : Nat) (t : Tick) : t.due + period ≤ t.dueNext period := by
  unfold dueNext
  split <;> omega

theorem dueNext_of_late (period : Nat) {t : Tick} (late : tolerance + t.due < t.time) :
    t.dueNext period = t.time + period :=
  if_pos late

end Tick

theorem Ticker.after_eq (ticker : Ticker) (now : Nat) :
    ticker.after now = ⟨ticker.period, Tick.dueNext ticker.period ⟨ticker.due, now⟩⟩ := by
  unfold Ticker.after Tick.dueNext
  split <;> rfl

/-- The ticks of a timer that is started at some time, or not at all. -/
structure Paced (period : Nat) (start : Option Nat) (ticks : List Tick) : Prop where
  first : ticks.head? = start.map fun now => ⟨now, now⟩
  due_le : ∀ t ∈ ticks, t.due ≤ t.time
  next : ticks.IsChain fun t later => later.due = t.dueNext period

namespace Paced

variable {period : Nat} {start : Option Nat} {ticks : List Tick}

theorem snoc (h : Paced period start ticks) {t : Tick} (due_le : t.due ≤ t.time)
    (next : ∀ last ∈ ticks.getLast?, t.due = last.dueNext period) (ticking : ticks ≠ []) :
    Paced period start (ticks ++ [t]) where
  first := by rw [List.head?_append_of_ne_nil _ ticking, h.first]
  due_le := by
    intro t' ht'
    rcases List.mem_append.mp ht' with ht' | ht'
    · exact h.due_le t' ht'
    · rwa [List.mem_singleton.mp ht']
  next := by
    refine List.isChain_append.mpr ⟨h.next, .singleton t, fun last hlast t' ht' => ?_⟩
    obtain rfl := Option.some.inj ht'
    exact next last hlast

theorem singleton (period now : Nat) : Paced period (some now) [⟨now, now⟩] where
  first := rfl
  due_le := by simp
  next := .singleton _

theorem next_getElem? (h : Paced period start ticks) {k : Nat} {t later : Tick} (ht : ticks[k]? = some t)
    (hlater : ticks[k + 1]? = some later) : later.due = t.dueNext period := by
  obtain ⟨bound, rfl⟩ := List.getElem?_eq_some_iff.mp hlater
  obtain ⟨_, rfl⟩ := List.getElem?_eq_some_iff.mp ht
  exact List.isChain_iff_getElem.mp h.next k bound

theorem le_due (h : Paced period start ticks) {now k : Nat} {t : Tick} (hstart : start = some now)
    (ht : ticks[k]? = some t) : now + k * period ≤ t.due := by
  induction k generalizing t with
  | zero =>
    rw [← List.head?_eq_getElem?, h.first, hstart] at ht
    obtain rfl := Option.some.inj ht
    simp
  | succ k ih =>
    have bound : k < ticks.length := Nat.lt_of_succ_lt (List.getElem?_eq_some_iff.mp ht).1
    have hprev : ticks[k]? = some ticks[k] := List.getElem?_eq_getElem bound
    have hnext := h.next_getElem? hprev ht
    have hdue := Tick.due_add_le_dueNext period ticks[k]
    have hprev := ih hprev
    rw [Nat.succ_mul]
    omega

/-- However the ticks are delayed, the one with number `k` comes after `k` periods at the earliest. -/
theorem le_time (h : Paced period start ticks) {now k : Nat} {t : Tick} (hstart : start = some now)
    (ht : ticks[k]? = some t) : now + k * period ≤ t.time :=
  (h.le_due hstart ht).trans (h.due_le t (List.mem_of_getElem? ht))

/-- A tick that came too late is followed by a whole period without any. -/
theorem le_time_of_late (h : Paced period start ticks) {k : Nat} {t later : Tick} (ht : ticks[k]? = some t)
    (hlater : ticks[k + 1]? = some later) (late : tolerance + t.due < t.time) :
    t.time + period ≤ later.time := by
  rw [← Tick.dueNext_of_late period late, ← h.next_getElem? ht hlater]
  exact h.due_le later (List.mem_of_getElem? hlater)

end Paced

structure Round where
  tick : Tick
  time : Nat
  answer : Except Failure Json

/-- What a watch has asked so far. The last question may have no answer yet. -/
structure Account where
  rounds : List Round := []
  opened : Option Tick := none

namespace Account

def ticks (a : Account) : List Tick :=
  a.rounds.map Round.tick ++ a.opened.toList

def ticker (a : Account) (period : Nat) : Option Ticker :=
  a.ticks.getLast?.map fun t => ⟨period, t.dueNext period⟩

theorem ticks_open (rounds : List Round) (t : Tick) :
    ticks ⟨rounds, some t⟩ = ticks ⟨rounds, none⟩ ++ [t] := by
  simp [ticks]

theorem ticks_answered (rounds : List Round) (r : Round) :
    ticks ⟨rounds ++ [r], none⟩ = ticks ⟨rounds, some r.tick⟩ := by
  simp [ticks]

end Account

namespace Subscription

variable (s : Subscription)

def round (r : Round) : WatchLog :=
  s.asked r.tick ++ answered r.time r.answer

def told (a : Account) : WatchLog :=
  a.rounds.flatMap s.round ++ a.opened.toList.flatMap s.asked

theorem told_open (rounds : List Round) (t : Tick) :
    s.told ⟨rounds, some t⟩ = s.told ⟨rounds, none⟩ ++ s.asked t := by
  simp [told]

theorem told_answered (rounds : List Round) (r : Round) :
    s.told ⟨rounds ++ [r], none⟩ = s.told ⟨rounds, some r.tick⟩ ++ answered r.time r.answer := by
  simp [told, round]

abbrev tickerOf (a : Account) (now : Nat) : Ticker :=
  s.tickerAt (a.ticker s.period) now

/-- An account that tells all that came of the polls, and where they left the watch. -/
structure Accounts (polls : List Poll) (log : WatchLog) (feed : Feed) (a : Account) : Prop where
  log_eq : log = s.told a
  feed_eq : feed = s.feed (a.ticker s.period) a.opened.isSome
  paced : Paced s.period (polls.head?.map Poll.time) a.ticks
  heard : ∀ r ∈ a.rounds, ∃ p ∈ polls, p.time = r.time ∧ s.answer? p = some r.answer

variable {s} {polls : List Poll} {log : WatchLog} {feed : Feed}

theorem Accounts.heard_later {a : Account} (h : s.Accounts polls log feed a) (p : Poll) :
    ∀ r ∈ a.rounds, ∃ q ∈ polls ++ [p], q.time = r.time ∧ s.answer? q = some r.answer := by
  intro r hr
  obtain ⟨q, hq, heard⟩ := h.heard r hr
  exact ⟨q, List.mem_append_left _ hq, heard⟩

theorem Accounts.later {a : Account} (h : s.Accounts polls log feed a) (ticking : a.ticks ≠ []) (p : Poll) :
    s.Accounts (polls ++ [p]) log feed a where
  log_eq := h.log_eq
  feed_eq := h.feed_eq
  paced := by
    cases polls with
    | nil => exact absurd (List.head?_eq_none_iff.mp h.paced.first) ticking
    | cons q polls => exact h.paced
  heard := h.heard_later p

theorem Accounts.answer {rounds : List Round} {t : Tick}
    (h : s.Accounts polls log feed ⟨rounds, some t⟩) {p : Poll} (hp : p ∈ polls)
    {answer : Except Failure Json} (hanswer : s.answer? p = some answer) :
    s.Accounts polls (log ++ answered p.time answer) (s.feed (Account.ticker ⟨rounds, some t⟩ s.period) false)
      ⟨rounds ++ [⟨t, p.time, answer⟩], none⟩ where
  log_eq := by rw [told_answered, ← h.log_eq]
  feed_eq := by simp only [Account.ticker, Account.ticks_answered, Option.isSome_none]
  paced := by
    rw [Account.ticks_answered]
    exact h.paced
  heard := by
    intro r hr
    rcases List.mem_append.mp hr with hr | hr
    · exact h.heard r hr
    · rw [List.mem_singleton.mp hr]
      exact ⟨p, hp, rfl, hanswer⟩

theorem Accounts.afterAsking {rounds : List Round} {t : Tick}
    (h : s.Accounts polls log feed ⟨rounds, some t⟩) {p : Poll} (hp : p ∈ polls) :
    ∃ a, s.Accounts polls (log ++ (s.afterAsking (Account.ticker ⟨rounds, some t⟩ s.period) p).1)
      (s.afterAsking (Account.ticker ⟨rounds, some t⟩ s.period) p).2 a := by
  unfold Subscription.afterAsking
  cases hanswer : s.answer? p with
  | none => exact ⟨⟨rounds, some t⟩, by simpa using h.feed_eq ▸ h⟩
  | some answer => exact ⟨_, h.answer hp hanswer⟩

theorem tickerOf_none {a : Account} (h : a.ticks.getLast? = none) (now : Nat) :
    s.tickerOf a now = ⟨s.period, now⟩ := by
  rw [tickerOf, Account.ticker, h]
  rfl

theorem tickerOf_some {a : Account} {last : Tick} (h : a.ticks.getLast? = some last) (now : Nat) :
    s.tickerOf a now = ⟨s.period, last.dueNext s.period⟩ := by
  rw [tickerOf, Account.ticker, h]
  rfl

theorem period_tickerOf (a : Account) (now : Nat) : (s.tickerOf a now).period = s.period := by
  cases h : a.ticks.getLast? with
  | none => rw [tickerOf_none h]
  | some last => rw [tickerOf_some h]

theorem Accounts.tick {rounds : List Round} (h : s.Accounts polls log feed ⟨rounds, none⟩) {p : Poll}
    (due : (s.tickerOf ⟨rounds, none⟩ p.time).due ≤ p.time) :
    Paced s.period ((polls ++ [p]).head?.map Poll.time)
      (Account.ticks ⟨rounds, none⟩ ++ [⟨(s.tickerOf ⟨rounds, none⟩ p.time).due, p.time⟩]) := by
  cases hlast : (Account.ticks ⟨rounds, none⟩).getLast? with
  | none =>
    have hticks := List.getLast?_eq_none_iff.mp hlast
    have hpolls : polls = [] := by
      have hfirst := h.paced.first
      rw [hticks] at hfirst
      simpa using hfirst.symm
    rw [tickerOf_none hlast, hticks, hpolls]
    exact .singleton s.period p.time
  | some last =>
    have ticking : Account.ticks ⟨rounds, none⟩ ≠ [] := List.ne_nil_of_mem (List.mem_of_getLast? hlast)
    refine (h.later ticking p).paced.snoc due ?_ ticking
    intro last' hlast'
    rw [tickerOf_some hlast, Option.some.inj (hlast.symm.trans hlast')]

theorem ticker_open (rounds : List Round) (now : Nat) :
    Account.ticker ⟨rounds, some ⟨(s.tickerOf ⟨rounds, none⟩ now).due, now⟩⟩ s.period =
      some ((s.tickerOf ⟨rounds, none⟩ now).after now) := by
  rw [Ticker.after_eq, period_tickerOf]
  simp [Account.ticker, Account.ticks_open]

theorem Accounts.ask {rounds : List Round} (h : s.Accounts polls log feed ⟨rounds, none⟩) {p : Poll}
    (due : (s.tickerOf ⟨rounds, none⟩ p.time).due ≤ p.time) :
    s.Accounts (polls ++ [p]) (log ++ s.asked ⟨(s.tickerOf ⟨rounds, none⟩ p.time).due, p.time⟩)
      (s.feed (some ((s.tickerOf ⟨rounds, none⟩ p.time).after p.time)) true)
      ⟨rounds, some ⟨(s.tickerOf ⟨rounds, none⟩ p.time).due, p.time⟩⟩ where
  log_eq := by rw [told_open, ← h.log_eq]
  feed_eq := by rw [ticker_open, Option.isSome_some]
  paced := by
    rw [Account.ticks_open]
    exact h.tick due
  heard := h.heard_later p

theorem Accounts.early {rounds : List Round} (h : s.Accounts polls log feed ⟨rounds, none⟩) {p : Poll}
    (early : p.time < (s.tickerOf ⟨rounds, none⟩ p.time).due) :
    s.Accounts (polls ++ [p]) log (s.feed (some (s.tickerOf ⟨rounds, none⟩ p.time)) false)
      ⟨rounds, none⟩ := by
  have hfeed := h.feed_eq
  cases hlast : (Account.ticks ⟨rounds, none⟩).getLast? with
  | none =>
    rw [tickerOf_none hlast] at early
    exact absurd early (Nat.lt_irrefl p.time)
  | some last =>
    have ticking : Account.ticks ⟨rounds, none⟩ ≠ [] := List.ne_nil_of_mem (List.mem_of_getLast? hlast)
    rw [Account.ticker, hlast] at hfeed
    rw [tickerOf_some hlast]
    exact hfeed ▸ h.later ticking p

theorem Accounts.poll {a : Account} (h : s.Accounts polls log feed a) (p : Poll) :
    ∃ a, s.Accounts (polls ++ [p]) (log ++ (feed.poll p).1) (feed.poll p).2 a := by
  have last : p ∈ polls ++ [p] := List.mem_append_right _ (List.mem_singleton_self p)
  obtain ⟨rounds, _ | t⟩ := a
  · rw [h.feed_eq, Option.isSome_none]
    by_cases due : (s.tickerOf ⟨rounds, none⟩ p.time).due ≤ p.time
    · rw [s.poll_due due, ← List.append_assoc, ← ticker_open]
      exact (h.ask due).afterAsking last
    · rw [s.poll_early (Nat.lt_of_not_le due), List.append_nil]
      exact ⟨_, h.early (Nat.lt_of_not_le due)⟩
  · rw [h.feed_eq, Option.isSome_some, s.poll_asking]
    exact (h.later (by simp [Account.ticks]) p).afterAsking last

theorem exists_account (s : Subscription) (polls : List Poll) :
    ∃ a, s.Accounts polls (s.start.run polls).1 (s.start.run polls).2 a := by
  induction polls using List.reverseRecOn with
  | nil => exact ⟨{}, rfl, rfl, ⟨rfl, by simp [Account.ticks], .nil⟩, by simp⟩
  | append_singleton polls p ih =>
    obtain ⟨a, h⟩ := ih
    rw [Feed.run_append_singleton]
    exact h.poll p

end Subscription

end AbiCalls
