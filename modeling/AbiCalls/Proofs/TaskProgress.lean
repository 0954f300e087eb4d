import AbiCalls.Proofs.TaskPaths
import Mathlib.Logic.Relation

namespace AbiCalls

namespace Task

/-- Wherever two parts take turns, it is enough that both have finished. -/
def Joins : Task → Prop
  | .finished => True
  | .waiting rest => rest.Joins
  | .looking resume => ∀ result, (resume result).Joins
  | .refreshing _ _ resume => ∀ edition, (resume edition).Joins
  | .scoped _ body rest => body.Joins ∧ rest.Joins
  | .beside enough left right rest => enough true true ∧ left.Joins ∧ right.Joins ∧ rest.Joins

def Moves (t t' : Task) : Prop :=
  ∃ seen, t.Step seen t'

theorem Step.joins {t t' : Task} {seen : List Seen} (h : t.Step seen t') (joins : t.Joins) : t'.Joins := by
  induction h with
  | wait rest => exact joins
  | look resume result => exact joins result
  | refresh cache ctx resume edition => exact joins edition
  | inside edition rest h ih => exact ⟨ih joins.1, joins.2⟩
  | leave edition rest => exact joins.2
  | left enough right rest h ih => exact ⟨joins.1, ih joins.2.1, joins.2.2⟩
  | right enough left rest h ih => exact ⟨joins.1, joins.2.1, ih joins.2.2.1, joins.2.2.2⟩
  | join rest h => exact joins.2.2.2

theorem Path.joins {t t' : Task} {seen : List Seen} (h : t.Path seen t') (joins : t.Joins) : t'.Joins := by
  induction h with
  | here t => exact joins
  | next step _ ih => exact ih (step.joins joins)

theorem Path.moves {t t' : Task} {seen : List Seen} (h : t.Path seen t') :
    Relation.ReflTransGen Moves t t' := by
  induction h with
  | here t => exact .refl
  | next step _ ih => exact .head ⟨_, step⟩ ih

theorem acc_scoped {body rest : Task} (edition : Edition) (hbody : Acc (Function.swap Moves) body)
    (hrest : Acc (Function.swap Moves) rest) : Acc (Function.swap Moves) (.scoped edition body rest) := by
  induction hbody with
  | intro body _ ih =>
    refine ⟨_, fun t' h => ?_⟩
    obtain ⟨_, step⟩ := h
    cases step with
    | inside _ _ step => exact ih _ ⟨_, step⟩
    | leave => exact hrest

theorem acc_beside {left right rest : Task} (enough : Bool → Bool → Bool)
    (hleft : Acc (Function.swap Moves) left) (hright : Acc (Function.swap Moves) right)
    (hrest : Acc (Function.swap Moves) rest) :
    Acc (Function.swap Moves) (.beside enough left right rest) := by
  induction hleft generalizing right with
  | intro left _ ihLeft =>
    induction hright with
    | intro right hright ihRight =>
      refine ⟨_, fun t' h => ?_⟩
      obtain ⟨_, step⟩ := h
      cases step with
      | left _ _ _ step => exact ihLeft _ ⟨_, step⟩ ⟨right, hright⟩
      | right _ _ _ step => exact ihRight _ ⟨_, step⟩
      | join => exact hrest

/-- No task can take steps forever. -/
theorem acc_moves (t : Task) : Acc (Function.swap Moves) t := by
  induction t with
  | finished => exact ⟨_, fun t' h => nomatch h⟩
  | waiting rest ih =>
    refine ⟨_, fun t' h => ?_⟩
    obtain ⟨_, ⟨⟩⟩ := h
    exact ih
  | looking resume ih =>
    refine ⟨_, fun t' h => ?_⟩
    obtain ⟨_, ⟨⟩⟩ := h
    exact ih _
  | refreshing cache ctx resume ih =>
    refine ⟨_, fun t' h => ?_⟩
    obtain ⟨_, ⟨⟩⟩ := h
    exact ih _
  | «scoped» edition body rest ihBody ihRest => exact acc_scoped edition ihBody ihRest
  | beside enough left right rest ihLeft ihRight ihRest => exact acc_beside enough ihLeft ihRight ihRest

theorem finished_of_poll {t : Task} {s : Surroundings} (h : t.isFinished) :
    (t.poll s).1.rest.isFinished := by
  rw [eq_finished h]
  rfl

section

variable {body body' left left' right right' : Task}

theorem moves_inside (h : Relation.TransGen Moves body body') (edition : Edition) (rest : Task) :
    Relation.TransGen Moves (.scoped edition body rest) (.scoped edition body' rest) :=
  h.lift (Task.scoped edition · rest) fun _ _ ⟨_, step⟩ => ⟨_, .inside edition rest step⟩

theorem moves_left (h : Relation.TransGen Moves left left') (enough : Bool → Bool → Bool)
    (right rest : Task) :
    Relation.TransGen Moves (.beside enough left right rest) (.beside enough left' right rest) :=
  h.lift (Task.beside enough · right rest) fun _ _ ⟨_, step⟩ => ⟨_, .left enough right rest step⟩

theorem moves_right (h : Relation.TransGen Moves right right') (enough : Bool → Bool → Bool)
    (left rest : Task) :
    Relation.TransGen Moves (.beside enough left right rest) (.beside enough left right' rest) :=
  h.lift (Task.beside enough left · rest) fun _ _ ⟨_, step⟩ => ⟨_, .right enough left rest step⟩

theorem moves_over {t part rest : Task} (h : Relation.ReflTransGen Moves t part) (ended : part.Moves rest)
    (s : Surroundings) : Relation.TransGen Moves t (rest.poll s).1.rest :=
  (Relation.TransGen.tail' h ended).trans_left (rest.poll_follows s).2.moves

end

theorem poll_scoped_moves {body : Task} {s : Surroundings} {edition : Edition}
    (moves : ¬body.isFinished →
      Relation.TransGen Moves body (body.poll { s with scope := ⟨some edition⟩ }).1.rest) (rest : Task) :
    Relation.TransGen Moves (.scoped edition body rest) ((Task.scoped edition body rest).poll s).1.rest := by
  have path := (body.poll_follows { s with scope := ⟨some edition⟩ }).2
  have done := finished_of_poll (t := body) (s := { s with scope := ⟨some edition⟩ })
  rcases h : body.poll { s with scope := ⟨some edition⟩ } with ⟨first, s'⟩
  rw [h] at path done moves
  rw [poll_scoped h]
  split
  next ended =>
    have inside := (path.inside edition rest).moves
    rw [eq_finished ended] at inside
    exact moves_over inside ⟨_, .leave edition rest⟩ _
  next running => exact moves_inside (moves fun ended => running (done ended)) edition rest

theorem poll_beside_moves {enough : Bool → Bool → Bool} (both : enough true true) {left right : Task}
    {s : Surroundings} (movesLeft : ¬left.isFinished → Relation.TransGen Moves left (left.poll s).1.rest)
    (movesRight : ¬right.isFinished →
      ∀ s', Relation.TransGen Moves right (right.poll s').1.rest) (rest : Task) :
    Relation.TransGen Moves (.beside enough left right rest)
      ((Task.beside enough left right rest).poll s).1.rest := by
  have pathLeft := (left.poll_follows s).2
  have doneLeft := finished_of_poll (t := left) (s := s)
  rcases h : left.poll s with ⟨first, s'⟩
  have pathRight := (right.poll_follows s').2
  have movesRight := fun running => movesRight running s'
  rcases h' : right.poll s' with ⟨second, s''⟩
  rw [h] at pathLeft doneLeft movesLeft
  rw [h'] at pathRight movesRight
  have own := (pathLeft.beside_left enough right rest).moves
  have other := (pathRight.beside_right enough first.rest rest).moves
  rw [poll_beside h h']
  split
  next ended => exact moves_over own ⟨_, .join rest ended⟩ _
  next running =>
    split
    next ended => exact moves_over (own.trans other) ⟨_, .join rest ended⟩ _
    next =>
      by_cases ended : left.isFinished
      · have unfinished : ¬right.isFinished := fun last => running (by rw [doneLeft ended, last, both])
        exact .trans_right own (moves_right (movesRight unfinished) enough first.rest rest)
      · exact (moves_left (movesLeft ended) enough right rest).trans_left other

theorem poll_moves {t : Task} (joins : t.Joins) (unfinished : ¬t.isFinished) (s : Surroundings) :
    Relation.TransGen Moves t (t.poll s).1.rest := by
  induction t generalizing s with
  | finished => exact absurd rfl unfinished
  | waiting rest => exact .single ⟨_, .wait rest⟩
  | looking resume => exact .head' ⟨_, .look resume _⟩ ((resume s.scope.find).poll_follows s).2.moves
  | refreshing cache ctx resume =>
    exact .head' ⟨_, .refresh cache ctx resume _⟩ ((resume _).poll_follows _).2.moves
  | «scoped» edition body rest ihBody =>
    exact poll_scoped_moves (fun running => ihBody joins.1 running _) rest
  | beside enough left right rest ihLeft ihRight =>
    exact poll_beside_moves joins.1 (fun running => ihLeft joins.2.1 running s)
      (ihRight joins.2.2.1) rest

end Task

end AbiCalls
