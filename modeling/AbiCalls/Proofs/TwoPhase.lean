import AbiCalls.Method
import AbiCalls.Proofs.Interleaving

namespace AbiCalls

abbrev Outcome := Except Error CallResult

/-- The ways to invoke a method. A prepared write holds the outcome of its trial until it is submitted. -/
inductive Invocation
  | method (method : Method) (args : List Json)
  | read (method : ReadMethod) (args : List Json)
  | write (method : WriteMethod) (args : List Json)
  | prepared (method : WriteMethod) (args : List Json)

def ReadMethod.call (m : ReadMethod) (args : List Json) : Call Outcome :=
  (m.run args).map (Except.map .read)

def WriteMethod.call (m : WriteMethod) (args : List Json) : Call Outcome :=
  (m.run args).map (Except.map .write)

def PendingWrite.call (p : PendingWrite) : Call Outcome :=
  p.submit.map (Except.map .write)

def Invocation.call : Invocation → Call Outcome
  | .method m args => m.run args
  | .read m args => m.call args
  | .write m args => m.call args
  | .prepared m args =>
    (m.simulate args).bind fun
      | .ok pending => pending.call
      | .error e => .done (.error e)

def ReadMethod.request (m : ReadMethod) (args : List Json) : Request :=
  .query m.reader ⟨m.target, args⟩

def WriteMethod.trialRequest (m : WriteMethod) (args : List Json) : Request :=
  .trial m.writer ⟨m.target, m.account, args⟩

def WriteMethod.submissionRequest (m : WriteMethod) (result : TrialResult) : Request :=
  .submission m.writer result.payload

inductive ReadMethod.Phase (m : ReadMethod) (args : List Json) :
    List Happening → Option Outcome → Prop
  | idle : Phase m args [] none
  | asking : Phase m args [.asked (m.request args)] none
  | answered (value : Json) :
    Phase m args [.asked (m.request args), .queried (.ok value)] (some (.ok (.read value)))
  | failed (failure : Failure) :
    Phase m args [.asked (m.request args), .queried (.error failure)]
      (some (.error (.carrying .query failure)))

/-- All that can be seen of a write, with its outcome. A submission without a signer is noted before the
write is over. -/
inductive WriteMethod.Phase (m : WriteMethod) (args : List Json) :
    List Happening → Option Outcome → Prop
  | idle : Phase m args [] none
  | simulating : Phase m args [.asked (m.trialRequest args)] none
  | simulationFailed (failure : Failure) :
    Phase m args [.asked (m.trialRequest args), .tried (.error failure)]
      (some (.error (.carrying .simulation failure)))
  | simulated (result : TrialResult) :
    Phase m args [.asked (m.trialRequest args), .tried (.ok result)] none
  | submitting (result : TrialResult) :
    Phase m args
      [.asked (m.trialRequest args), .tried (.ok result), .asked (m.submissionRequest result)] none
  | submissionFailed (result : TrialResult) (failure : Failure) :
    Phase m args
      [.asked (m.trialRequest args), .tried (.ok result), .asked (m.submissionRequest result),
        .submitted (.error failure)]
      (some (.error (.carrying .submission failure)))
  | unsigned (result : TrialResult) :
    Phase m args
      [.asked (m.trialRequest args), .tried (.ok result), .asked (m.submissionRequest result),
        .submitted (.ok none)] none
  | submitted (result : TrialResult) (transaction : Option TransactionId) :
    Phase m args
      [.asked (m.trialRequest args), .tried (.ok result), .asked (m.submissionRequest result),
        .submitted (.ok transaction)]
      (some (.ok (.write ⟨transaction, result.value⟩)))

def Invocation.Phase : Invocation → List Happening → Option Outcome → Prop
  | .method (.read m) args | .read m args => m.Phase args
  | .method (.write m) args | .write m args | .prepared m args => m.Phase args

/-- The most steps that an invocation takes: two for each answer, and one for each of three notices. -/
def stepsPerInvocation : Nat := 7

theorem ReadMethod.call_eq (m : ReadMethod) (args : List Json) :
    m.call args =
      .note (.reading m.target.text args.length) (.query m.reader ⟨m.target, args⟩ fun
        | .ok value => .done (.ok (.read value))
        | .error failure => .done (.error (.carrying .query failure))) := by
  simp only [ReadMethod.call, ReadMethod.run, Call.map, Call.bind, Call.note.injEq, Call.query.injEq,
    true_and]
  funext answer
  cases answer <;> rfl

theorem PendingWrite.call_eq (p : PendingWrite) :
    p.call =
      .note (.submitting p.target.text) (.submission p.writer p.payload fun
        | .ok (some transaction) => .done (.ok (.write ⟨some transaction, p.value⟩))
        | .ok none =>
          .note (.notSubmitted p.target.text) (.done (.ok (.write ⟨none, p.value⟩)))
        | .error failure => .done (.error (.carrying .submission failure))) := by
  simp only [PendingWrite.call, PendingWrite.submit, Call.map, Call.bind, Call.note.injEq,
    Call.submission.injEq, true_and]
  funext answer
  rcases answer with failure | _ | transaction <;> rfl

theorem WriteMethod.call_eq (m : WriteMethod) (args : List Json) :
    m.call args =
      .note (.simulating m.target.text args.length)
        (.trial m.writer ⟨m.target, m.account, args⟩ fun
          | .ok result => (PendingWrite.mk m.target m.writer result.payload result.value).call
          | .error failure => .done (.error (.carrying .simulation failure))) := by
  simp only [WriteMethod.call, WriteMethod.run, WriteMethod.simulate, Call.map, Call.bind,
    Call.note.injEq, Call.trial.injEq, true_and]
  funext answer
  cases answer <;> rfl

theorem WriteMethod.prepared_eq (m : WriteMethod) (args : List Json) :
    (Invocation.prepared m args).call = m.call args := by
  simp only [Invocation.call, WriteMethod.call_eq, WriteMethod.simulate, Call.bind, Call.note.injEq,
    Call.trial.injEq, true_and]
  funext answer
  cases answer <;> rfl

theorem ReadMethod.phase_of_path {m : ReadMethod} {args : List Json} {steps : Nat}
    {seen : List Happening} {f : Flight Outcome} (h : (m.call args).Path steps seen f) :
    m.Phase args seen f.result? ∧ (stepsPerInvocation ≤ steps → f.result?.isSome) := by
  rw [ReadMethod.call_eq] at h
  cases h with
  | here => exact ⟨.idle, by simp [stepsPerInvocation]⟩
  | note h =>
    cases h with
    | here => exact ⟨.idle, by simp [stepsPerInvocation]⟩
    | querying => exact ⟨.asking, by simp [stepsPerInvocation]⟩
    | @query _ _ _ answer _ _ _ h =>
      cases answer with
      | ok value => cases h <;> exact ⟨.answered value, fun _ => rfl⟩
      | error failure => cases h <;> exact ⟨.failed failure, fun _ => rfl⟩

theorem WriteMethod.phase_of_submission {m : WriteMethod} (args : List Json) {result : TrialResult}
    {steps : Nat} {seen : List Happening} {f : Flight Outcome}
    (h : (PendingWrite.mk m.target m.writer result.payload result.value).call.Path steps seen f) :
    m.Phase args (.asked (m.trialRequest args) :: .tried (.ok result) :: seen) f.result? ∧
      (4 ≤ steps → f.result?.isSome) := by
  rw [PendingWrite.call_eq] at h
  cases h with
  | here => exact ⟨.simulated result, by simp⟩
  | note h =>
    cases h with
    | here => exact ⟨.simulated result, by simp⟩
    | submitting => exact ⟨.submitting result, by simp⟩
    | @submission _ _ _ answer _ _ _ h =>
      rcases answer with failure | _ | transaction
      · cases h <;> exact ⟨.submissionFailed result failure, fun _ => rfl⟩
      · cases h with
        | here => exact ⟨.unsigned result, by simp⟩
        | note h => cases h <;> exact ⟨.submitted result none, fun _ => rfl⟩
      · cases h <;> exact ⟨.submitted result (some transaction), fun _ => rfl⟩

theorem WriteMethod.phase_of_path {m : WriteMethod} {args : List Json} {steps : Nat}
    {seen : List Happening} {f : Flight Outcome} (h : (m.call args).Path steps seen f) :
    m.Phase args seen f.result? ∧ (stepsPerInvocation ≤ steps → f.result?.isSome) := by
  rw [WriteMethod.call_eq] at h
  cases h with
  | here => exact ⟨.idle, by simp [stepsPerInvocation]⟩
  | note h =>
    cases h with
    | here => exact ⟨.idle, by simp [stepsPerInvocation]⟩
    | trying => exact ⟨.simulating, by simp [stepsPerInvocation]⟩
    | @trial _ _ _ answer _ _ _ h =>
      cases answer with
      | ok result =>
        obtain ⟨phase, ends⟩ := phase_of_submission args h
        refine ⟨phase, fun bound => ends ?_⟩
        simp only [stepsPerInvocation] at bound
        omega
      | error failure => cases h <;> exact ⟨.simulationFailed failure, fun _ => rfl⟩

theorem Invocation.phase_of_path {invocation : Invocation} {steps : Nat} {seen : List Happening}
    {f : Flight Outcome} (h : invocation.call.Path steps seen f) :
    invocation.Phase seen f.result? ∧ (stepsPerInvocation ≤ steps → f.result?.isSome) := by
  cases invocation with
  | method m args =>
    cases m with
    | read m => exact ReadMethod.phase_of_path h
    | write m => exact WriteMethod.phase_of_path h
  | read m args => exact ReadMethod.phase_of_path h
  | write m args => exact WriteMethod.phase_of_path h
  | prepared m args => exact WriteMethod.phase_of_path (WriteMethod.prepared_eq m args ▸ h)

/-- Whoever answers and whatever the schedule, an invocation among others is in one of its own phases, and
it is over once it has been scheduled often enough. -/
theorem interleaved_invocation_phase (executors : Executors) (invocations : List Invocation)
    (schedule : List Nat) (i : Fin invocations.length) :
    ∃ f, (Flights.run executors (invocations.map Invocation.call) schedule).flights[i.val]? = some f ∧
      invocations[i].Phase
        ((Flights.run executors (invocations.map Invocation.call) schedule).history.of i) f.result? ∧
      (stepsPerInvocation ≤ schedule.count i.val → f.result?.isSome) := by
  have hcall : (invocations.map Invocation.call)[i.val]? = some invocations[i].call := by simp
  obtain ⟨f, hf, path⟩ := Flights.run_path executors schedule hcall
  exact ⟨f, hf, Invocation.phase_of_path path⟩

def totalFunction : ContractFunction :=
  ⟨"total", [], [], .view⟩

def totalRead : ReadMethod :=
  ⟨⟨.zero, .ofFunctions [totalFunction], "total"⟩, totalFunction, ⟨"r0"⟩, defaultInterval⟩

end AbiCalls
