import AbiCalls.Proofs.Operations
import AbiCalls.Proofs.TwoPhase

namespace AbiCalls

/-- The answers that are there at some time. None is no answer yet. -/
structure Answers where
  query : ReaderId → Query → Option (Except Failure Json)
  trial : WriterId → Trial → Option (Except Failure TrialResult)
  submission : WriterId → Json → Option (Except Failure (Option TransactionId))

/-- Goes on with a call for as long as there are answers. If it was waiting already, the request at its head has
been made. -/
def Call.poll {α : Type} (answers : Answers) : Call α → Bool → List Happening × Flight α
  | .done result, _ => ([], ⟨.done result, false⟩)
  | .note _ rest, _ => rest.poll answers false
  | .query reader q resume, waiting =>
    let asked := if waiting then [] else [.asked (.query reader q)]
    match answers.query reader q with
    | none => (asked, ⟨.query reader q resume, true⟩)
    | some answer =>
      let (seen, f) := (resume answer).poll answers false
      (asked ++ .queried answer :: seen, f)
  | .trial writer t resume, waiting =>
    let asked := if waiting then [] else [.asked (.trial writer t)]
    match answers.trial writer t with
    | none => (asked, ⟨.trial writer t resume, true⟩)
    | some answer =>
      let (seen, f) := (resume answer).poll answers false
      (asked ++ .tried answer :: seen, f)
  | .submission writer payload resume, waiting =>
    let asked := if waiting then [] else [.asked (.submission writer payload)]
    match answers.submission writer payload with
    | none => (asked, ⟨.submission writer payload resume, true⟩)
    | some answer =>
      let (seen, f) := (resume answer).poll answers false
      (asked ++ .submitted answer :: seen, f)

theorem Call.exists_path_poll {α : Type} (answers : Answers) (call : Call α) :
    ∃ steps, call.Path steps (call.poll answers false).1 (call.poll answers false).2 := by
  induction call with
  | done result => exact ⟨0, .done result 0⟩
  | note notice rest ih =>
    obtain ⟨steps, path⟩ := ih
    exact ⟨steps + 1, .note path⟩
  | query reader q resume ih =>
    simp only [Call.poll]
    split
    next => exact ⟨1, .querying reader q resume⟩
    next answer _ =>
      obtain ⟨steps, path⟩ := ih answer
      exact ⟨steps + 2, .query path⟩
  | trial writer t resume ih =>
    simp only [Call.poll]
    split
    next => exact ⟨1, .trying writer t resume⟩
    next answer _ =>
      obtain ⟨steps, path⟩ := ih answer
      exact ⟨steps + 2, .trial path⟩
  | submission writer payload resume ih =>
    simp only [Call.poll]
    split
    next => exact ⟨1, .submitting writer payload resume⟩
    next answer _ =>
      obtain ⟨steps, path⟩ := ih answer
      exact ⟨steps + 2, .submission path⟩

theorem Call.Path.poll {α : Type} {call : Call α} {steps : Nat} {seen : List Happening} {f : Flight α}
    (h : call.Path steps seen f) (answers : Answers) :
    ∃ steps', call.Path steps' (seen ++ (f.call.poll answers f.waiting).1)
      (f.call.poll answers f.waiting).2 := by
  induction h with
  | here call => exact call.exists_path_poll answers
  | done result steps => exact ⟨steps, .done result steps⟩
  | note _ ih =>
    obtain ⟨steps, path⟩ := ih
    exact ⟨steps + 1, .note path⟩
  | querying reader q resume =>
    simp only [Call.poll]
    split
    next => exact ⟨1, .querying reader q resume⟩
    next answer _ =>
      obtain ⟨steps, path⟩ := (resume answer).exists_path_poll answers
      exact ⟨steps + 2, .query path⟩
  | trying writer t resume =>
    simp only [Call.poll]
    split
    next => exact ⟨1, .trying writer t resume⟩
    next answer _ =>
      obtain ⟨steps, path⟩ := (resume answer).exists_path_poll answers
      exact ⟨steps + 2, .trial path⟩
  | submitting writer payload resume =>
    simp only [Call.poll]
    split
    next => exact ⟨1, .submitting writer payload resume⟩
    next answer _ =>
      obtain ⟨steps, path⟩ := (resume answer).exists_path_poll answers
      exact ⟨steps + 2, .submission path⟩
  | query _ ih =>
    obtain ⟨steps, path⟩ := ih
    exact ⟨steps + 2, .query path⟩
  | trial _ ih =>
    obtain ⟨steps, path⟩ := ih
    exact ⟨steps + 2, .trial path⟩
  | submission _ ih =>
    obtain ⟨steps, path⟩ := ih
    exact ⟨steps + 2, .submission path⟩

/-- What is seen of a watch: its ticks, each with the time at which it was due, what happens to its questions, and
its items. -/
inductive WatchEvent
  | ticked (due : Nat)
  | happened (happening : Happening)
  | yielded (item : Except Error Json)

abbrev WatchLog := List (Nat × WatchEvent)

namespace WatchLog

def items (log : WatchLog) : List (Except Error Json) :=
  log.filterMap fun
    | (_, .yielded item) => some item
    | _ => none

def happenings (log : WatchLog) : List Happening :=
  log.filterMap fun
    | (_, .happened happening) => some happening
    | _ => none

theorem items_append (log more : WatchLog) : items (log ++ more) = items log ++ items more :=
  List.filterMap_append

theorem happenings_append (log more : WatchLog) :
    happenings (log ++ more) = happenings log ++ happenings more :=
  List.filterMap_append

def ofHappenings (time : Nat) (seen : List Happening) : WatchLog :=
  seen.map fun happening => (time, .happened happening)

theorem items_ofHappenings (time : Nat) (seen : List Happening) : items (ofHappenings time seen) = [] := by
  simp [items, ofHappenings]

theorem happenings_ofHappenings (time : Nat) (seen : List Happening) :
    happenings (ofHappenings time seen) = seen := by
  rw [happenings, ofHappenings, List.filterMap_map]
  exact List.filterMap_some

end WatchLog

structure Poll where
  time : Nat
  answers : Answers

/-- A watch between polls. While there is no answer to its question, that stays open. -/
structure Feed where
  watch : Watch
  question : Option (Flight (Except Error Json)) := none

namespace Feed

def pursue (watch : Watch) (p : Poll) (question : Flight (Except Error Json)) : WatchLog × Feed :=
  let (seen, question) := question.call.poll p.answers question.waiting
  let log := WatchLog.ofHappenings p.time seen
  match question.result? with
  | some item => (log ++ [(p.time, .yielded item)], { watch })
  | none => (log, { watch, question })

/-- Without an open question the next tick has to come first. The ticker starts with the first poll. -/
def poll (f : Feed) (p : Poll) : WatchLog × Feed :=
  match f.question with
  | some question => pursue f.watch p question
  | none =>
    let ticker := f.watch.tickerAt p.time
    let (tick, watch) := f.watch.next p.time
    if tick ≤ p.time then
      let (log, f) := pursue watch p ⟨watch.question, false⟩
      ((p.time, .ticked ticker.due) :: log, f)
    else ([], { watch := { f.watch with ticker := some ticker } })

def run (f : Feed) : List Poll → WatchLog × Feed
  | [] => ([], f)
  | p :: polls =>
    let (log, f) := f.poll p
    let (later, f) := f.run polls
    (log ++ later, f)

theorem run_cons (f : Feed) (p : Poll) (polls : List Poll) :
    f.run (p :: polls) = ((f.poll p).1 ++ ((f.poll p).2.run polls).1, ((f.poll p).2.run polls).2) := rfl

theorem run_append (f : Feed) (polls more : List Poll) :
    f.run (polls ++ more) =
      ((f.run polls).1 ++ ((f.run polls).2.run more).1, ((f.run polls).2.run more).2) := by
  induction polls generalizing f with
  | nil => rfl
  | cons p polls ih => simp only [List.cons_append, run_cons, ih, List.append_assoc]

theorem run_append_singleton (f : Feed) (polls : List Poll) (p : Poll) :
    f.run (polls ++ [p]) = ((f.run polls).1 ++ ((f.run polls).2.poll p).1, ((f.run polls).2.poll p).2) := by
  simp only [run_append, run, List.append_nil]

end Feed

/-- All that has happened to the questions of a watch. Each that is over went a way through the question to an
item; `since` is what has happened to the one after them. -/
structure Watch.Pursued (w : Watch) (log : WatchLog) (closed : List (List Happening × Except Error Json))
    (since : List Happening) : Prop where
  items_eq : log.items = closed.map Prod.snd
  happenings_eq : log.happenings = closed.flatMap Prod.fst ++ since
  ended : ∀ r ∈ closed, ∃ steps f, w.question.Path steps r.1 f ∧ f.result? = some r.2

/-- Only an open question has had anything happen to it since the last item, and it is on a way of its own. -/
def Feed.Pursues (f : Feed) (w : Watch) (log : WatchLog) : Prop :=
  f.watch.question = w.question ∧ ∃ closed since, w.Pursued log closed since ∧
    f.question.elim (since = []) fun q => ∃ steps, w.question.Path steps since q

section

variable {w watch : Watch} {log : WatchLog} {closed : List (List Happening × Except Error Json)}
  {since : List Happening}

theorem Watch.Pursued.tick (h : w.Pursued log closed since) (time due : Nat) :
    w.Pursued (log ++ [(time, .ticked due)]) closed since where
  items_eq := by rw [WatchLog.items_append, h.items_eq]; exact List.append_nil _
  happenings_eq := by rw [WatchLog.happenings_append, h.happenings_eq]; exact List.append_nil _
  ended := h.ended

theorem Watch.Pursued.pursue (h : w.Pursued log closed since) (same : watch.question = w.question)
    {steps : Nat} {q : Flight (Except Error Json)} (path : w.question.Path steps since q) (p : Poll) :
    (Feed.pursue watch p q).2.Pursues w (log ++ (Feed.pursue watch p q).1) := by
  obtain ⟨steps', onward⟩ := path.poll p.answers
  rcases hpoll : q.call.poll p.answers q.waiting with ⟨seen, q'⟩
  rw [hpoll] at onward
  have items : WatchLog.items (log ++ WatchLog.ofHappenings p.time seen) = closed.map Prod.snd := by
    rw [WatchLog.items_append, WatchLog.items_ofHappenings, List.append_nil, h.items_eq]
  have happenings : WatchLog.happenings (log ++ WatchLog.ofHappenings p.time seen) =
      closed.flatMap Prod.fst ++ (since ++ seen) := by
    rw [WatchLog.happenings_append, WatchLog.happenings_ofHappenings, h.happenings_eq, List.append_assoc]
  simp only [Feed.pursue, hpoll]
  split
  next item ended =>
    refine ⟨same, closed ++ [(since ++ seen, item)], [], ⟨?_, ?_, ?_⟩, rfl⟩
    · rw [← List.append_assoc, WatchLog.items_append, items, List.map_append]
      rfl
    · rw [← List.append_assoc, WatchLog.happenings_append, happenings]
      simp [WatchLog.happenings]
    · intro r hr
      rcases List.mem_append.mp hr with hr | hr
      · exact h.ended r hr
      · rw [List.mem_singleton.mp hr]
        exact ⟨steps', q', onward, ended⟩
  next => exact ⟨same, closed, _, ⟨items, happenings, h.ended⟩, steps', onward⟩

end

theorem Feed.Pursues.poll {f : Feed} {w : Watch} {log : WatchLog} (h : f.Pursues w log) (p : Poll) :
    (f.poll p).2.Pursues w (log ++ (f.poll p).1) := by
  obtain ⟨same, closed, since, pursued, rest⟩ := h
  unfold Feed.poll
  cases open_ : f.question with
  | some q =>
    rw [open_] at rest
    obtain ⟨steps, path⟩ := rest
    exact pursued.pursue same path p
  | none =>
    rw [open_] at rest
    obtain rfl : since = [] := rest
    simp only
    split
    next =>
      have begun : w.question.Path 0 [] ⟨(f.watch.next p.time).2.question, false⟩ := by
        rw [Watch.question_next, same]
        exact .here _
      rw [List.append_cons]
      exact (pursued.tick _ _).pursue (same ▸ Watch.question_next _ _) begun p
    next => exact ⟨same, closed, [], (List.append_nil log).symm ▸ pursued, rfl⟩

/-- However a watch is polled, each of its items is what a call of its method comes to. -/
theorem Feed.run_pursues (w : Watch) (polls : List Poll) :
    (Feed.run { watch := w } polls).2.Pursues w (Feed.run { watch := w } polls).1 := by
  induction polls using List.reverseRecOn with
  | nil => exact ⟨rfl, [], [], ⟨rfl, rfl, by simp⟩, rfl⟩
  | append_singleton polls p ih =>
    rw [Feed.run_append_singleton]
    exact ih.poll p

def readOutcome (answer : Except Failure Json) : Except Error Json :=
  answer.mapError (.carrying .query)

theorem ReadMethod.run_eq (m : ReadMethod) (args : List Json) :
    m.run args = .note (.reading m.target.text args.length)
      (.query m.reader ⟨m.target, args⟩ fun answer => .done (readOutcome answer)) := by
  simp only [ReadMethod.run, Call.note.injEq, Call.query.injEq, true_and]
  funext answer
  cases answer <;> rfl

theorem ReadMethod.path_run (m : ReadMethod) (args : List Json) (answer : Except Failure Json) :
    (m.run args).Path 3 [.asked (m.request args), .queried answer] ⟨.done (readOutcome answer), false⟩ := by
  rw [ReadMethod.run_eq]
  exact .note (.query (.here _))

/-- What a watch is made of. Without an interval of its own it has that of the method. -/
structure Subscription where
  method : ReadMethod
  args : List Json
  every : Option Interval := none

structure Tick where
  due : Nat
  time : Nat
  deriving DecidableEq

namespace Subscription

def interval (s : Subscription) : Interval :=
  s.every.getD s.method.pollInterval

/-- The time from one tick to the next, which is a millisecond at least. -/
def period (s : Subscription) : Nat :=
  max s.interval.nanos nanosPerMilli

def query (s : Subscription) : Query :=
  ⟨s.method.target, s.args⟩

def request (s : Subscription) : Request :=
  s.method.request s.args

def start (s : Subscription) : Feed :=
  { watch := s.method.watchEvery s.args s.every }

def answer? (s : Subscription) (p : Poll) : Option (Except Failure Json) :=
  p.answers.query s.method.reader s.query

def openQuestion (s : Subscription) : Flight (Except Error Json) :=
  ⟨.query s.method.reader s.query fun answer => .done (readOutcome answer), true⟩

def feed (s : Subscription) (ticker : Option Ticker) (asking : Bool) : Feed :=
  { watch := { s.start.watch with ticker }
    question := if asking then some s.openQuestion else none }

def tickerAt (s : Subscription) (ticker : Option Ticker) (now : Nat) : Ticker :=
  ticker.getD (.start s.interval now)

def asked (s : Subscription) (t : Tick) : WatchLog :=
  [(t.time, .ticked t.due), (t.time, .happened (.asked s.request))]

def answered (time : Nat) (answer : Except Failure Json) : WatchLog :=
  [(time, .happened (.queried answer)), (time, .yielded (readOutcome answer))]

def afterAsking (s : Subscription) (ticker : Option Ticker) (p : Poll) : WatchLog × Feed :=
  match s.answer? p with
  | some answer => (answered p.time answer, s.feed ticker false)
  | none => ([], s.feed ticker true)

variable (s : Subscription) (ticker : Option Ticker)

theorem poll_asking (p : Poll) : (s.feed ticker true).poll p = s.afterAsking ticker p := by
  simp only [Feed.poll, feed, if_true, Feed.pursue, openQuestion, Call.poll, afterAsking, answer?]
  cases p.answers.query s.method.reader s.query <;> rfl

theorem pursue_question (p : Poll) :
    Feed.pursue { s.start.watch with ticker } p ⟨s.method.run s.args, false⟩ =
      ((p.time, .happened (.asked s.request)) :: (s.afterAsking ticker p).1, (s.afterAsking ticker p).2) := by
  have same : Query.mk s.method.target s.args = s.query := rfl
  rw [ReadMethod.run_eq, same]
  simp only [Feed.pursue, Call.poll, afterAsking, answer?]
  cases p.answers.query s.method.reader s.query <;> rfl

variable {ticker}

theorem tickerAt_feed (asking : Bool) (now : Nat) :
    (s.feed ticker asking).watch.tickerAt now = s.tickerAt ticker now := rfl

theorem poll_due {p : Poll} (due : (s.tickerAt ticker p.time).due ≤ p.time) :
    (s.feed ticker false).poll p =
      (s.asked ⟨(s.tickerAt ticker p.time).due, p.time⟩ ++
        (s.afterAsking (some ((s.tickerAt ticker p.time).after p.time)) p).1,
      (s.afterAsking (some ((s.tickerAt ticker p.time).after p.time)) p).2) := by
  have now : (s.tickerAt ticker p.time).tickTime p.time = p.time := Nat.max_eq_left due
  have next : (s.feed ticker false).watch.next p.time =
      (p.time, { s.start.watch with ticker := some ((s.tickerAt ticker p.time).after p.time) }) := by
    simp only [Watch.next, tickerAt_feed, now]
    rfl
  have question : { s.start.watch with ticker := some ((s.tickerAt ticker p.time).after p.time) }.question =
    s.method.run s.args := rfl
  have open_none : (s.feed ticker false).question = none := rfl
  simp only [Feed.poll, open_none, next, tickerAt_feed, question, pursue_question, Nat.le_refl, if_true]
  rfl

theorem poll_early {p : Poll} (early : p.time < (s.tickerAt ticker p.time).due) :
    (s.feed ticker false).poll p = ([], s.feed (some (s.tickerAt ticker p.time)) false) := by
  have tick : ((s.feed ticker false).watch.next p.time).1 = (s.tickerAt ticker p.time).due :=
    Nat.max_eq_right (Nat.le_of_lt early)
  have open_none : (s.feed ticker false).question = none := rfl
  simp only [Feed.poll, open_none, tick, tickerAt_feed, Nat.not_le.mpr early, if_false]
  rfl

end Subscription

end AbiCalls
