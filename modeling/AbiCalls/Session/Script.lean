import AbiCalls.Call
import AbiCalls.Names

namespace AbiCalls

/-- An answer with the time in milliseconds that it takes. -/
structure Timed (α : Type) where
  delay : Nat := 0
  answer : α

/-- The answer to the question with that number. The last answer of a script is given again and again. -/
def Timed.pick {α : Type} (silent : α) (script : List (Timed α)) (number : Nat) : Timed α :=
  (script[number]?.or script.getLast?).getD { answer := silent }

/-- A trial run that succeeds. Its payload, if the script gives none, is the call itself. -/
structure ScriptedTrial where
  payload : Option Json
  value : Json

def ScriptedTrial.result (s : ScriptedTrial) (trial : Trial) : TrialResult :=
  let asCalled :=
    .object [("function", .str trial.target.functionName), ("args", .list trial.args)]
  ⟨s.payload.getD asCalled, s.value⟩

structure Scripts where
  queries : NameMap (List (Timed (Except Failure Json))) := .empty
  trials : NameMap (List (Timed (Except Failure ScriptedTrial))) := .empty
  submissions : NameMap (List (Timed (Except Failure (Option TransactionId)))) := .empty

structure Tally where
  queries : NameMap Nat := .empty
  trials : NameMap Nat := .empty
  submissions : NameMap Nat := .empty

namespace Scripts

def answerTo {α : Type} (scripts : NameMap (List (Timed α))) (silent : α) (id : String)
    (number : Nat) : Timed α :=
  Timed.pick silent ((scripts.get? id).getD []) number

def queryAnswer (s : Scripts) (reader : ReaderId) (number : Nat) : Timed (Except Failure Json) :=
  answerTo s.queries (.ok .null) reader.id number

def trialAnswer (s : Scripts) (writer : WriterId) (number : Nat) (trial : Trial) :
    Timed (Except Failure TrialResult) :=
  let timed := answerTo s.trials (.ok ⟨none, .null⟩) writer.id number
  ⟨timed.delay, timed.answer.map fun scripted => scripted.result trial⟩

def submissionAnswer (s : Scripts) (writer : WriterId) (number : Nat) :
    Timed (Except Failure (Option TransactionId)) :=
  answerTo s.submissions (.ok (some ⟨"0xfeed"⟩)) writer.id number

end Scripts

end AbiCalls
