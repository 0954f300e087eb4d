import AbiCalls.Task

namespace AbiCalls

/-- The ways from surroundings to others, with what is seen on them. -/
inductive Surroundings.Leads : Surroundings → List Seen → Surroundings → Prop
  | stay (s) : Leads s [] s
  | look (s) : Leads s [{ sight := .found s.scope.find }] s
  | refresh (s cache ctx) :
    Leads s [{ sight := .refreshed cache ctx (s.refresh cache ctx).1 }] (s.refresh cache ctx).2
  | within {s seen s'} (edition) (h : Leads { s with scope := ⟨some edition⟩ } seen s') :
    Leads s (seen.map (Seen.inside edition)) { s' with scope := s.scope }
  | trans {s first s' second s''} (h : Leads s first s') (h' : Leads s' second s'') :
    Leads s (first ++ second) s''

/-- One step of a task, with what is seen of its surroundings. What they turn out to be is left open. -/
inductive Task.Step : Task → List Seen → Task → Prop
  | wait (rest) : Step (.waiting rest) [] rest
  | look (resume result) : Step (.looking resume) [{ sight := .found result }] (resume result)
  | refresh (cache ctx resume edition) :
    Step (.refreshing cache ctx resume) [{ sight := .refreshed cache ctx edition }] (resume edition)
  | inside {body seen body'} (edition rest) (h : Step body seen body') :
    Step (.scoped edition body rest) (seen.map (Seen.inside edition)) (.scoped edition body' rest)
  | leave (edition rest) : Step (.scoped edition .finished rest) [] rest
  | left {left seen left'} (enough right rest) (h : Step left seen left') :
    Step (.beside enough left right rest) seen (.beside enough left' right rest)
  | right {right seen right'} (enough left rest) (h : Step right seen right') :
    Step (.beside enough left right rest) seen (.beside enough left right' rest)
  | join {enough left right} (rest) (h : enough left.isFinished right.isFinished) :
    Step (.beside enough left right rest) [] rest

inductive Task.Path : Task → List Seen → Task → Prop
  | here (t) : Path t [] t
  | next {t first t' later t''} (h : Step t first t') (h' : Path t' later t'') :
    Path t (first ++ later) t''

theorem bind_of_eq {σ α β : Type} {piece : StateM σ α} {next : α → StateM σ β} {s s' : σ} {result : α}
    (h : piece s = (result, s')) : (piece >>= next) s = next result s' := by
  have both : (piece >>= next) s = next (piece s).1 (piece s).2 := rfl
  rw [both, h]

theorem Scope.within_of_eq {σ α : Type} [HasScope σ] {edition : Edition} {piece : StateM σ α} {s s' : σ}
    {result : α} (h : piece (HasScope.withScope s ⟨some edition⟩) = (result, s')) :
    Scope.within edition piece s = (result, HasScope.withScope s' (HasScope.scope s)) := by
  have whole : Scope.within edition piece s =
      ((piece (HasScope.withScope s ⟨some edition⟩)).1,
        HasScope.withScope (piece (HasScope.withScope s ⟨some edition⟩)).2 (HasScope.scope s)) := rfl
  rw [whole, h]

namespace Task

variable {s s' s'' : Surroundings} {edition : Edition} {body left right rest : Task}
  {enough : Bool → Bool → Bool} {first second : Polled}

theorem poll_scoped (h : body.poll { s with scope := ⟨some edition⟩ } = (first, s')) :
    (Task.scoped edition body rest).poll s =
      if first.rest.isFinished then
        goOn (first.seen.map (Seen.inside edition)) rest.poll { s' with scope := s.scope }
      else
        (⟨.scoped edition first.rest rest, first.seen.map (Seen.inside edition)⟩,
          { s' with scope := s.scope }) := by
  rw [poll, bind_of_eq (Scope.within_of_eq h)]
  split <;> rfl

theorem poll_beside (h : left.poll s = (first, s')) (h' : right.poll s' = (second, s'')) :
    (Task.beside enough left right rest).poll s =
      if enough first.rest.isFinished right.isFinished then goOn first.seen rest.poll s'
      else if enough first.rest.isFinished second.rest.isFinished then
        goOn (first.seen ++ second.seen) rest.poll s''
      else (⟨.beside enough first.rest second.rest rest, first.seen ++ second.seen⟩, s'') := by
  rw [poll, bind_of_eq h]
  split
  next => rfl
  next =>
    rw [bind_of_eq h']
    split <;> rfl

theorem eq_finished {t : Task} (h : t.isFinished) : t = .finished := by
  cases t <;> first | rfl | cases h

theorem Path.trans {t t' t'' : Task} {earlier later : List Seen} (h : t.Path earlier t')
    (h' : t'.Path later t'') : t.Path (earlier ++ later) t'' := by
  induction h with
  | here t => exact h'
  | next step _ ih =>
    rw [List.append_assoc]
    exact .next step (ih h')

theorem Path.quiet {t t' t'' : Task} {seen : List Seen} (h : t.Path seen t') (step : t'.Step [] t'') :
    t.Path seen t'' := by
  have further := h.trans (.next step (.here t''))
  rwa [List.append_nil, List.append_nil] at further

theorem Path.inside {t : Task} {seen : List Seen} (h : body.Path seen t) (edition : Edition)
    (rest : Task) :
    (Task.scoped edition body rest).Path (seen.map (Seen.inside edition)) (.scoped edition t rest) := by
  induction h with
  | here t => exact .here _
  | next step _ ih =>
    rw [List.map_append]
    exact .next (.inside edition rest step) ih

theorem Path.beside_left {left' : Task} {seen : List Seen} (h : left.Path seen left')
    (enough : Bool → Bool → Bool) (right rest : Task) :
    (Task.beside enough left right rest).Path seen (.beside enough left' right rest) := by
  induction h with
  | here t => exact .here _
  | next step _ ih => exact .next (.left enough right rest step) ih

theorem Path.beside_right {right' : Task} {seen : List Seen} (h : right.Path seen right')
    (enough : Bool → Bool → Bool) (left rest : Task) :
    (Task.beside enough left right rest).Path seen (.beside enough left right' rest) := by
  induction h with
  | here t => exact .here _
  | next step _ ih => exact .next (.right enough left rest step) ih

/-- A poll follows a path through the task, and the surroundings go along. -/
theorem poll_follows (t : Task) (s : Surroundings) :
    s.Leads (t.poll s).1.seen (t.poll s).2 ∧ t.Path (t.poll s).1.seen (t.poll s).1.rest := by
  induction t generalizing s with
  | finished => exact ⟨.stay s, .here _⟩
  | waiting rest => exact ⟨.stay s, .next (.wait rest) (.here rest)⟩
  | looking resume ih =>
    obtain ⟨leads, path⟩ := ih s.scope.find s
    exact ⟨(Surroundings.Leads.look s).trans leads, .next (.look resume _) path⟩
  | refreshing cache ctx resume ih =>
    obtain ⟨leads, path⟩ := ih (s.refresh cache ctx).1 (s.refresh cache ctx).2
    exact ⟨(Surroundings.Leads.refresh s cache ctx).trans leads, .next (.refresh cache ctx resume _) path⟩
  | «scoped» edition body rest ihBody ihRest =>
    obtain ⟨leads, path⟩ := ihBody { s with scope := ⟨some edition⟩ }
    rcases h : body.poll { s with scope := ⟨some edition⟩ } with ⟨first, s'⟩
    rw [h] at leads path
    have inside := path.inside edition rest
    rw [poll_scoped h]
    split
    next done =>
      obtain ⟨further, onward⟩ := ihRest { s' with scope := s.scope }
      rw [eq_finished done] at inside
      exact ⟨(leads.within edition).trans further, (inside.quiet (.leave edition rest)).trans onward⟩
    next => exact ⟨leads.within edition, inside⟩
  | beside enough left right rest ihLeft ihRight ihRest =>
    obtain ⟨leadsLeft, pathLeft⟩ := ihLeft s
    rcases h : left.poll s with ⟨first, s'⟩
    obtain ⟨leadsRight, pathRight⟩ := ihRight s'
    rcases h' : right.poll s' with ⟨second, s''⟩
    rw [h] at leadsLeft pathLeft
    rw [h'] at leadsRight pathRight
    have own := pathLeft.beside_left enough right rest
    have both := own.trans (pathRight.beside_right enough first.rest rest)
    have leads := leadsLeft.trans leadsRight
    rw [poll_beside h h']
    split
    next done =>
      obtain ⟨further, onward⟩ := ihRest s'
      exact ⟨leadsLeft.trans further, (own.quiet (.join rest done)).trans onward⟩
    next =>
      obtain ⟨further, onward⟩ := ihRest s''
      split
      next done => exact ⟨leads.trans further, (both.quiet (.join rest done)).trans onward⟩
      next => exact ⟨leads, both⟩

theorem Path.of_provide {cache : Nat} {ctx : Context} {seen : List Seen} {t : Task}
    (h : (Task.provide cache ctx body rest).Path seen t) :
    seen = [] ∨ ∃ edition later, seen = { sight := .refreshed cache ctx edition } :: later ∧
      (Task.scoped edition body rest).Path later t := by
  cases h with
  | here => exact .inl rfl
  | next step onward =>
    cases step with
    | refresh _ _ _ edition => exact .inr ⟨edition, _, rfl, onward⟩

end Task

end AbiCalls
