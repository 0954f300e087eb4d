import AbiCalls.Proofs.Interleaving
import AbiCalls.Proofs.Worlds

namespace AbiCalls

namespace History

def requests (history : History) : List Request :=
  history.filterMap fun e =>
    match e.happening with
    | .asked request => some request
    | _ => none

def before (history : History) (i : Nat) : History :=
  ((history.reverse.dropWhile fun e => e.call ≠ i).drop 1).reverse

theorem requests_append (history more : History) :
    (history ++ more).requests = history.requests ++ more.requests :=
  List.filterMap_append

theorem before_last (history : History) {more : History} {i : Nat} (happening : Happening)
    (others : ∀ e ∈ more, e.call ≠ i) :
    before (history ++ [Entry.mk i happening] ++ more) i = history := by
  have hothers : ∀ e ∈ more.reverse, decide (e.call ≠ i) = true := by
    intro e he
    exact decide_eq_true (others e (List.mem_reverse.mp he))
  unfold before
  rw [List.reverse_append, List.reverse_append, List.dropWhile_append_of_pos hothers,
    List.reverse_singleton, List.singleton_append, List.dropWhile_cons_of_neg (by simp),
    List.drop_one, List.tail_cons, List.reverse_reverse]

end History

namespace World

def took (w : World) : Request → World
  | .query reader q => (w.ask reader q).2
  | .trial writer t => (w.attempt writer t).2
  | .submission writer payload => (w.submit writer payload).2

def tookAll (w : World) (requests : List Request) : World :=
  requests.foldl took w

/-- Executors that answer by the scripts of a world. Which answer it is depends on the requests that were made
before. -/
def executors (w : World) : Executors where
  query history i reader q := ((w.tookAll (history.before i).requests).ask reader q).1.answer
  trial history i writer t := ((w.tookAll (history.before i).requests).attempt writer t).1.answer
  submission history i writer payload :=
    ((w.tookAll (history.before i).requests).submit writer payload).1.answer

theorem tookAll_append (w : World) (requests more : List Request) :
    w.tookAll (requests ++ more) = (w.tookAll requests).tookAll more :=
  List.foldl_append

theorem requests_tookAll (w : World) (requests : List Request) :
    (w.tookAll requests).events.map Event.request =
      requests.reverse ++ w.events.map Event.request := by
  induction requests generalizing w with
  | nil => rfl
  | cons request requests ih =>
    have hfirst : (w.took request).events.map Event.request =
        request :: w.events.map Event.request := by
      cases request <;> rfl
    have hrest := ih (w.took request)
    rw [hfirst] at hrest
    rw [List.reverse_cons, List.append_assoc, List.singleton_append]
    exact hrest

end World

variable {α : Type}

/-- A flight that waits, and whose answer is settled: whatever happens to others, it goes on as `rest`. -/
def Flight.Settled (executors : Executors) (history : History) (i : Nat) (f : Flight α)
    (rest : Call α) : Prop :=
  ∀ more : History, (∀ e ∈ more, e.call ≠ i) →
    ∃ happening, History.requests [⟨i, happening⟩] = [] ∧
      f.step executors (history ++ more) i = ([happening], ⟨rest, false⟩)

def World.Running.result? : World.Running α → Option α
  | .finished result => some result
  | .asleep _ _ => none

/-- A flight that stands where a running call stands. -/
inductive Flight.Mirrors (executors : Executors) (history : History) (i : Nat) :
    Flight α → World.Running α → Prop
  | finished (result : α) (waiting : Bool) :
    Mirrors executors history i ⟨.done result, waiting⟩ (.finished result)
  | asleep {wake : Nat} {rest : Call α} {f : Flight α} (settled : f.Settled executors history i rest) :
    Mirrors executors history i f (.asleep wake rest)

namespace Flight

theorem Settled.append {executors : Executors} {history more : History} {i : Nat} {f : Flight α}
    {rest : Call α} (h : f.Settled executors history i rest) (others : ∀ e ∈ more, e.call ≠ i) :
    f.Settled executors (history ++ more) i rest := by
  intro further hfurther
  rw [List.append_assoc]
  apply h
  intro e he
  rcases List.mem_append.mp he with he | he
  · exact others e he
  · exact hfurther e he

theorem Mirrors.append {executors : Executors} {history more : History} {i : Nat} {f : Flight α}
    {r : World.Running α} (h : f.Mirrors executors history i r) (others : ∀ e ∈ more, e.call ≠ i) :
    f.Mirrors executors (history ++ more) i r := by
  cases h with
  | finished result waiting => exact .finished result waiting
  | asleep settled => exact .asleep (settled.append others)

theorem Mirrors.result?_eq {executors : Executors} {history : History} {i : Nat} {f : Flight α}
    {r : World.Running α} (h : f.Mirrors executors history i r) :
    f.result? = r.result? := by
  cases h with
  | finished result waiting => rfl
  | asleep settled =>
    obtain ⟨happening, _, hstep⟩ := settled [] (by simp)
    obtain ⟨call, waiting⟩ := f
    cases call with
    | done result => simp [Flight.step] at hstep
    | _ => rfl

variable {w₀ w : World} {history : History} {i : Nat}

theorem settled_query (h : w.Alike (w₀.tookAll history.requests)) (reader : ReaderId) (q : Query)
    (resume : Except Failure Json → Call α) :
    Settled w₀.executors (history ++ [⟨i, .asked (.query reader q)⟩]) i
      ⟨.query reader q resume, true⟩ (resume (w.ask reader q).1.answer) := by
  intro more others
  refine ⟨.queried (w.ask reader q).1.answer, rfl, ?_⟩
  simp only [Flight.step, World.executors, History.before_last history _ others, (h.ask reader q).1]

theorem settled_trial (h : w.Alike (w₀.tookAll history.requests)) (writer : WriterId) (t : Trial)
    (resume : Except Failure TrialResult → Call α) :
    Settled w₀.executors (history ++ [⟨i, .asked (.trial writer t)⟩]) i
      ⟨.trial writer t resume, true⟩ (resume (w.attempt writer t).1.answer) := by
  intro more others
  refine ⟨.tried (w.attempt writer t).1.answer, rfl, ?_⟩
  simp only [Flight.step, World.executors, History.before_last history _ others,
    (h.attempt writer t).1]

theorem settled_submission (h : w.Alike (w₀.tookAll history.requests)) (writer : WriterId)
    (payload : Json) (resume : Except Failure (Option TransactionId) → Call α) :
    Settled w₀.executors (history ++ [⟨i, .asked (.submission writer payload)⟩]) i
      ⟨.submission writer payload resume, true⟩ (resume (w.submit writer payload).1.answer) := by
  intro more others
  refine ⟨.submitted (w.submit writer payload).1.answer, rfl, ?_⟩
  simp only [Flight.step, World.executors, History.before_last history _ others,
    (h.submit writer payload).1]

end Flight

namespace Flights

theorem Onward.mirrors {executors : Executors} {i : Nat} {s s' : Flights α}
    (h : Onward executors i s s') {j : Nat} (hj : j ≠ i) {f : Flight α}
    {r : World.Running α} (hm : f.Mirrors executors s.history j r) :
    f.Mirrors executors s'.history j r := by
  obtain ⟨more, hmore, hown⟩ := h.history_eq
  rw [hmore]
  apply hm.append
  intro e he
  rw [hown e he]
  exact hj.symm

theorem step_settled {executors : Executors} {s : Flights α} {i : Nat} {f : Flight α}
    {rest : Call α} (hf : s.flights[i]? = some f) (settled : f.Settled executors s.history i rest) :
    (s.step executors i).flights[i]? = some ⟨rest, false⟩ ∧
      (s.step executors i).history.requests = s.history.requests := by
  obtain ⟨happening, hquiet, hstep⟩ := settled [] (by simp)
  rw [List.append_nil] at hstep
  have bound := (List.getElem?_eq_some_iff.mp hf).1
  rw [step_of_some executors hf, hstep]
  refine ⟨?_, ?_⟩
  · exact List.getElem?_set_self bound
  · rw [History.requests_append, List.map_singleton, hquiet, List.append_nil]

end Flights

end AbiCalls
