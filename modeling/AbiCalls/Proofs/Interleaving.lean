import AbiCalls.Call
import Mathlib.Data.List.Induction

namespace AbiCalls

inductive Happening
  | asked (request : Request)
  | queried (answer : Except Failure Json)
  | tried (answer : Except Failure TrialResult)
  | submitted (answer : Except Failure (Option TransactionId))

structure Entry where
  call : Nat
  happening : Happening

abbrev History := List Entry

def History.of (history : History) (i : Nat) : List Happening :=
  (history.filter fun e => e.call = i).map Entry.happening

/-- Whoever answers requests. An answer may depend on the whole history, and on whose request it is. -/
structure Executors where
  query : History → Nat → ReaderId → Query → Except Failure Json
  trial : History → Nat → WriterId → Trial → Except Failure TrialResult
  submission : History → Nat → WriterId → Json → Except Failure (Option TransactionId)

/-- A call in flight. While it is waiting, the request at its head has been made. -/
structure Flight (α : Type) where
  call : Call α
  waiting : Bool := false

namespace Flight

def result? {α : Type} (f : Flight α) : Option α :=
  match f.call with
  | .done result => some result
  | _ => none

def step {α : Type} (executors : Executors) (history : History) (i : Nat) (f : Flight α) :
    List Happening × Flight α :=
  match f.call, f.waiting with
  | .done _, _ => ([], f)
  | .note _ rest, _ => ([], ⟨rest, false⟩)
  | .query reader query _, false => ([.asked (.query reader query)], ⟨f.call, true⟩)
  | .query reader query resume, true =>
    let answer := executors.query history i reader query
    ([.queried answer], ⟨resume answer, false⟩)
  | .trial writer trial _, false => ([.asked (.trial writer trial)], ⟨f.call, true⟩)
  | .trial writer trial resume, true =>
    let answer := executors.trial history i writer trial
    ([.tried answer], ⟨resume answer, false⟩)
  | .submission writer payload _, false => ([.asked (.submission writer payload)], ⟨f.call, true⟩)
  | .submission writer payload resume, true =>
    let answer := executors.submission history i writer payload
    ([.submitted answer], ⟨resume answer, false⟩)

end Flight

structure Flights (α : Type) where
  flights : List (Flight α)
  history : History := []

namespace Flights

def start {α : Type} (calls : List (Call α)) : Flights α :=
  { flights := calls.map fun call => { call } }

/-- Lets one flight take a step. A number that is nobody's changes nothing. -/
def step {α : Type} (executors : Executors) (s : Flights α) (i : Nat) : Flights α :=
  match s.flights[i]? with
  | none => s
  | some f =>
    let (seen, f) := f.step executors s.history i
    ⟨s.flights.set i f, s.history ++ seen.map fun happening => ⟨i, happening⟩⟩

def run {α : Type} (executors : Executors) (calls : List (Call α)) (schedule : List Nat) :
    Flights α :=
  schedule.foldl (step executors) (start calls)

end Flights

/-- The ways through a call: the number of steps, what is seen on the way, and where it has led to. A call
that is done stays as it is. -/
inductive Call.Path {α : Type} : Call α → Nat → List Happening → Flight α → Prop
  | here (call : Call α) : Path call 0 [] ⟨call, false⟩
  | done (result steps) : Path (.done result) steps [] ⟨.done result, false⟩
  | note {notice rest steps seen f} (h : Path rest steps seen f) :
    Path (.note notice rest) (steps + 1) seen f
  | querying (reader query resume) :
    Path (.query reader query resume) 1 [.asked (.query reader query)]
      ⟨.query reader query resume, true⟩
  | query {reader query resume answer steps seen f} (h : Path (resume answer) steps seen f) :
    Path (.query reader query resume) (steps + 2)
      (.asked (.query reader query) :: .queried answer :: seen) f
  | trying (writer trial resume) :
    Path (.trial writer trial resume) 1 [.asked (.trial writer trial)]
      ⟨.trial writer trial resume, true⟩
  | trial {writer trial resume answer steps seen f} (h : Path (resume answer) steps seen f) :
    Path (.trial writer trial resume) (steps + 2)
      (.asked (.trial writer trial) :: .tried answer :: seen) f
  | submitting (writer payload resume) :
    Path (.submission writer payload resume) 1 [.asked (.submission writer payload)]
      ⟨.submission writer payload resume, true⟩
  | submission {writer payload resume answer steps seen f} (h : Path (resume answer) steps seen f) :
    Path (.submission writer payload resume) (steps + 2)
      (.asked (.submission writer payload) :: .submitted answer :: seen) f

theorem Call.Path.first {α : Type} (executors : Executors) (history : History) (i : Nat)
    (call : Call α) :
    call.Path 1 (Flight.step executors history i ⟨call, false⟩).1
      (Flight.step executors history i ⟨call, false⟩).2 := by
  cases call with
  | done result => exact .done result 1
  | note notice rest => exact .note (.here rest)
  | query reader query resume => exact .querying reader query resume
  | trial writer trial resume => exact .trying writer trial resume
  | submission writer payload resume => exact .submitting writer payload resume

theorem Call.Path.next {α : Type} {call : Call α} {steps : Nat} {seen : List Happening}
    {f : Flight α} (executors : Executors) (history : History) (i : Nat)
    (h : call.Path steps seen f) :
    call.Path (steps + 1) (seen ++ (f.step executors history i).1) (f.step executors history i).2 := by
  induction h with
  | here call => exact .first executors history i call
  | done result steps => exact .done result (steps + 1)
  | note _ ih => exact .note ih
  | querying reader query resume => exact .query (.here _)
  | query _ ih => exact .query ih
  | trying writer trial resume => exact .trial (.here _)
  | trial _ ih => exact .trial ih
  | submitting writer payload resume => exact .submission (.here _)
  | submission _ ih => exact .submission ih

theorem History.of_append (history more : History) (i : Nat) :
    (history ++ more).of i = history.of i ++ more.of i := by
  simp [History.of]

theorem History.of_own (seen : List Happening) (i : Nat) :
    History.of (seen.map fun happening => ⟨i, happening⟩) i = seen := by
  simp [History.of, List.filter_map, Function.comp_def]

theorem History.of_other (seen : List Happening) {i j : Nat} (h : i ≠ j) :
    History.of (seen.map fun happening => ⟨i, happening⟩) j = [] := by
  simp [History.of, List.filter_map, Function.comp_def, h]

namespace Flights

variable {α : Type}

theorem run_append_singleton (executors : Executors) (calls : List (Call α)) (schedule : List Nat)
    (i : Nat) : run executors calls (schedule ++ [i]) = (run executors calls schedule).step executors i := by
  simp [run]

theorem step_of_none (executors : Executors) {s : Flights α} {i : Nat} (h : s.flights[i]? = none) :
    s.step executors i = s := by
  simp only [step, h]

theorem step_of_some (executors : Executors) {s : Flights α} {i : Nat} {f : Flight α}
    (h : s.flights[i]? = some f) :
    s.step executors i = ⟨s.flights.set i (f.step executors s.history i).2,
      s.history ++ (f.step executors s.history i).1.map fun happening => ⟨i, happening⟩⟩ := by
  simp only [step, h]

theorem step_own (executors : Executors) {s : Flights α} {i : Nat} {f : Flight α}
    (h : s.flights[i]? = some f) :
    (s.step executors i).flights[i]? = some (f.step executors s.history i).2 ∧
      (s.step executors i).history.of i = s.history.of i ++ (f.step executors s.history i).1 := by
  have bound := (List.getElem?_eq_some_iff.mp h).1
  rw [step_of_some executors h]
  refine ⟨?_, ?_⟩
  · exact List.getElem?_set_self bound
  · rw [History.of_append, History.of_own]

theorem step_other (executors : Executors) (s : Flights α) {i j : Nat} (h : i ≠ j) :
    (s.step executors i).flights[j]? = s.flights[j]? ∧
      (s.step executors i).history.of j = s.history.of j := by
  unfold step
  split
  next => exact ⟨rfl, rfl⟩
  next => simp [h, History.of_append, History.of_other]

/-- However flights are interleaved, each follows a path through its own call, as far as it has been
scheduled. -/
theorem run_path (executors : Executors) {calls : List (Call α)} (schedule : List Nat) {i : Nat}
    {call : Call α} (h : calls[i]? = some call) :
    ∃ f, (run executors calls schedule).flights[i]? = some f ∧
      call.Path (schedule.count i) ((run executors calls schedule).history.of i) f := by
  induction schedule using List.reverseRecOn with
  | nil => exact ⟨⟨call, false⟩, by simp [run, start, h], .here call⟩
  | append_singleton schedule j ih =>
    obtain ⟨f, hf, path⟩ := ih
    rw [run_append_singleton, List.count_append, List.count_singleton]
    by_cases hj : j = i
    · subst hj
      obtain ⟨hnext, hseen⟩ := step_own executors hf
      rw [hseen, beq_self_eq_true, if_pos rfl]
      exact ⟨_, hnext, path.next executors _ _⟩
    · obtain ⟨hsame, hseen⟩ := step_other executors (run executors calls schedule) hj
      rw [hseen, beq_eq_false_iff_ne.mpr hj, if_neg Bool.false_ne_true]
      exact ⟨f, hsame.trans hf, path⟩

/-- What can be reached by steps of one flight. -/
inductive Onward (executors : Executors) (i : Nat) (s : Flights α) : Flights α → Prop
  | refl : Onward executors i s s
  | step {s' : Flights α} (h : Onward executors i s s') : Onward executors i s (s'.step executors i)

def Reaches (executors : Executors) (s s' : Flights α) : Prop :=
  ∃ schedule : List Nat, schedule.foldl (step executors) s = s'

theorem Reaches.trans {executors : Executors} {s s' s'' : Flights α} (h : Reaches executors s s')
    (h' : Reaches executors s' s'') : Reaches executors s s'' := by
  obtain ⟨schedule, rfl⟩ := h
  obtain ⟨further, rfl⟩ := h'
  exact ⟨schedule ++ further, List.foldl_append⟩

namespace Onward

variable {executors : Executors} {i : Nat} {s s' s'' : Flights α}

theorem trans (h : Onward executors i s s') (h' : Onward executors i s' s'') :
    Onward executors i s s'' := by
  induction h' with
  | refl => exact h
  | step _ ih => exact .step ih

theorem reaches (h : Onward executors i s s') : Reaches executors s s' := by
  induction h with
  | refl => exact ⟨[], rfl⟩
  | step _ ih => exact ih.trans ⟨[i], rfl⟩

theorem length_eq (h : Onward executors i s s') : s'.flights.length = s.flights.length := by
  induction h with
  | refl => rfl
  | @step s' _ ih =>
    rw [← ih]
    unfold Flights.step
    split
    next => rfl
    next => exact List.length_set

theorem others (h : Onward executors i s s') {j : Nat} (hj : j ≠ i) :
    s'.flights[j]? = s.flights[j]? := by
  induction h with
  | refl => rfl
  | step _ ih => rw [(step_other executors _ hj.symm).1, ih]

theorem history_eq (h : Onward executors i s s') :
    ∃ more : History, s'.history = s.history ++ more ∧ ∀ e ∈ more, e.call = i := by
  induction h with
  | refl => exact ⟨[], (List.append_nil _).symm, by simp⟩
  | @step s' _ ih =>
    obtain ⟨more, hmore, hown⟩ := ih
    cases hf : s'.flights[i]? with
    | none =>
      rw [step_of_none executors hf]
      exact ⟨more, hmore, hown⟩
    | some f =>
      refine ⟨more ++ (f.step executors s'.history i).1.map fun happening => ⟨i, happening⟩, ?_, ?_⟩
      · rw [step_of_some executors hf, ← List.append_assoc, hmore]
      · intro e he
        rcases List.mem_append.mp he with he | he
        · exact hown e he
        · obtain ⟨happening, _, rfl⟩ := List.mem_map.mp he
          rfl

end Onward

end Flights

end AbiCalls
