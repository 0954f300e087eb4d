import AbiCalls.Proofs.Editions
import AbiCalls.Proofs.TaskProgress

namespace AbiCalls

def ContractCache.Faithful (catalog : Catalog) (c : ContractCache) : Prop :=
  c.catalog = catalog ∧ ∀ ctx e, c.current = some (ctx, e) → e.contracts = catalog.bind ctx

theorem ContractCache.Faithful.refresh {catalog : Catalog} {c : ContractCache}
    (h : c.Faithful catalog) (ctx : Context) (serial : Nat) :
    (c.refresh ctx serial).1.contracts = catalog.bind ctx ∧ (c.refresh ctx serial).2.Faithful catalog := by
  obtain ⟨rfl, own⟩ := h
  rcases c.refresh_cases ctx serial with ⟨e, last, kept⟩ | ⟨_, bound⟩
  · rw [kept]
    exact ⟨own ctx e last, rfl, own⟩
  · rw [bound]
    refine ⟨rfl, rfl, ?_⟩
    intro ctx' e heq
    cases heq
    rfl

namespace Surroundings

variable {s s' : Surroundings} {seen : List Seen} {catalogs : Nat → Catalog}

theorem Leads.scope_eq (h : s.Leads seen s') : s'.scope = s.scope := by
  induction h with
  | stay s => rfl
  | look s => rfl
  | refresh s cache ctx => rfl
  | within edition h ih => rfl
  | trans h h' ih ih' => exact ih'.trans ih

/-- A lookup finds the innermost of the scopes around it, or else what was in the slot before. -/
theorem Leads.found_eq (h : s.Leads seen s') {x : Seen} (hx : x ∈ seen) {result : Except Error Edition}
    (hfound : x.sight = .found result) :
    result = (⟨x.scopes.head?.or s.scope.edition⟩ : Scope).find := by
  induction h generalizing x with
  | stay s => cases hx
  | look s =>
    obtain rfl := List.mem_singleton.mp hx
    cases hfound
    rfl
  | refresh s cache ctx =>
    obtain rfl := List.mem_singleton.mp hx
    cases hfound
  | within edition h ih =>
    obtain ⟨y, hy, rfl⟩ := List.mem_map.mp hx
    rw [ih hy hfound, Seen.inside, List.head?_append]
    cases y.scopes.head? <;> rfl
  | trans h h' ih ih' =>
    rcases List.mem_append.mp hx with hx | hx
    · exact ih hx hfound
    · rw [ih' hx hfound, h.scope_eq]

def Faithful (catalogs : Nat → Catalog) (s : Surroundings) : Prop :=
  ∀ n, (s.caches n).Faithful (catalogs n)

theorem Faithful.refresh (h : s.Faithful catalogs) (cache : Nat) (ctx : Context) :
    (s.refresh cache ctx).1.contracts = (catalogs cache).bind ctx ∧
      (s.refresh cache ctx).2.Faithful catalogs := by
  obtain ⟨bound, own⟩ := (h cache).refresh ctx s.nextSerial
  refine ⟨bound, ?_⟩
  intro n
  by_cases hn : n = cache
  · have renewed : ((s.refresh cache ctx).2.caches n) = ((s.caches cache).refresh ctx s.nextSerial).2 :=
      if_pos hn
    rw [renewed, hn]
    exact own
  · have same : ((s.refresh cache ctx).2.caches n) = s.caches n := if_neg hn
    rw [same]
    exact h n

theorem Leads.faithful (h : s.Leads seen s') (own : s.Faithful catalogs) : s'.Faithful catalogs := by
  induction h with
  | stay s => exact own
  | look s => exact own
  | refresh s cache ctx => exact (own.refresh cache ctx).2
  | within edition h ih => exact ih own
  | trans h h' ih ih' => exact ih' (ih own)

theorem Leads.bound (h : s.Leads seen s') (own : s.Faithful catalogs) {x : Seen} (hx : x ∈ seen)
    {cache : Nat} {ctx : Context} {e : Edition} (hrefreshed : x.sight = .refreshed cache ctx e) :
    e.contracts = (catalogs cache).bind ctx := by
  induction h generalizing x with
  | stay s => cases hx
  | look s =>
    obtain rfl := List.mem_singleton.mp hx
    cases hrefreshed
  | refresh s cache ctx =>
    obtain rfl := List.mem_singleton.mp hx
    cases hrefreshed
    exact (own.refresh cache ctx).1
  | within edition h ih =>
    obtain ⟨y, hy, rfl⟩ := List.mem_map.mp hx
    exact ih own hy hrefreshed
  | trans h h' ih ih' =>
    rcases List.mem_append.mp hx with hx | hx
    · exact ih own hx hrefreshed
    · exact ih' (h.faithful own) hx hrefreshed

end Surroundings

namespace Forest

variable {f : Forest} {i j : Nat}

theorem step_cases (f : Forest) (move : Move) :
    f.step move = f ∨ (∃ i, f.step move = { f with tasks := f.tasks.set i none }) ∨
      ∃ i task, f.tasks[i]? = some (some task) ∧
        f.step move =
          ⟨f.tasks.set i (some (task.poll f.surroundings).1.rest), (task.poll f.surroundings).2,
            f.log ++ (task.poll f.surroundings).1.seen.map fun seen => (i, seen)⟩ := by
  cases move with
  | drop i => exact .inr (.inl ⟨i, rfl⟩)
  | poll i =>
    simp only [step]
    split
    next task held => exact .inr (.inr ⟨i, task, held, rfl⟩)
    next => exact .inl rfl

theorem step_leads (f : Forest) (move : Move) :
    ∃ seen, (f.step move).log.map Prod.snd = f.log.map Prod.snd ++ seen ∧
      f.surroundings.Leads seen (f.step move).surroundings := by
  rcases f.step_cases move with same | ⟨i, dropped⟩ | ⟨i, task, _, polled⟩
  · rw [same]
    exact ⟨[], (List.append_nil _).symm, .stay _⟩
  · rw [dropped]
    exact ⟨[], (List.append_nil _).symm, .stay _⟩
  · rw [polled]
    refine ⟨(task.poll f.surroundings).1.seen, ?_, (task.poll_follows f.surroundings).1⟩
    simp [Function.comp_def]

theorem run_leads (f : Forest) (moves : List Move) :
    ∃ seen, (f.run moves).log.map Prod.snd = f.log.map Prod.snd ++ seen ∧
      f.surroundings.Leads seen (f.run moves).surroundings := by
  induction moves generalizing f with
  | nil => exact ⟨[], (List.append_nil _).symm, .stay _⟩
  | cons move moves ih =>
    obtain ⟨first, hfirst, leads⟩ := f.step_leads move
    obtain ⟨later, hlater, further⟩ := ih (f.step move)
    refine ⟨first ++ later, ?_, leads.trans further⟩
    rw [← List.append_assoc, ← hfirst]
    exact hlater

theorem seenBy_own (log : List (Nat × Seen)) (seen : List Seen) (i : Nat) :
    ((log ++ seen.map fun x => (i, x)).filter fun entry => entry.1 = i).map Prod.snd =
      (log.filter fun entry => entry.1 = i).map Prod.snd ++ seen := by
  simp [List.filter_map, Function.comp_def]

theorem seenBy_other (log : List (Nat × Seen)) (seen : List Seen) (h : i ≠ j) :
    ((log ++ seen.map fun x => (i, x)).filter fun entry => entry.1 = j).map Prod.snd =
      (log.filter fun entry => entry.1 = j).map Prod.snd := by
  simp [List.filter_map, Function.comp_def, h]

theorem mem_log_of_mem_seenBy {x : Seen} (h : x ∈ f.seenBy i) : (i, x) ∈ f.log := by
  obtain ⟨⟨j, y⟩, hmem, rfl⟩ := List.mem_map.mp h
  obtain ⟨hlog, hj⟩ := List.mem_filter.mp hmem
  obtain rfl : j = i := by simpa using hj
  exact hlog

/-- Something is true of what a task has seen and of what is left of it, unless it was dropped. -/
def Keeps (f : Forest) (i : Nat) (P : List Seen → Task → Prop) : Prop :=
  ∃ rest, P (f.seenBy i) rest ∧ (f.tasks[i]? = some (some rest) ∨ f.tasks[i]? = some none)

theorem Keeps.step {P : List Seen → Task → Prop} (h : f.Keeps i P)
    (polled : ∀ seen t s, P seen t → P (seen ++ (Task.poll t s).1.seen) (Task.poll t s).1.rest)
    (move : Move) : (f.step move).Keeps i P := by
  obtain ⟨rest, holds, place⟩ := h
  have bound : i < f.tasks.length := by
    rcases place with place | place <;> exact (List.getElem?_eq_some_iff.mp place).1
  rcases f.step_cases move with same | ⟨j, dropped⟩ | ⟨j, task, held, polls⟩
  · rw [same]
    exact ⟨rest, holds, place⟩
  · rw [dropped]
    refine ⟨rest, holds, ?_⟩
    by_cases hj : j = i
    · subst hj
      exact .inr (List.getElem?_set_self bound)
    · rwa [List.getElem?_set_ne hj]
  · rw [polls]
    by_cases hj : j = i
    · subst hj
      rw [held] at place
      have own : task = rest := by simpa using place
      subst own
      refine ⟨(task.poll f.surroundings).1.rest, ?_, .inl (List.getElem?_set_self bound)⟩
      rw [seenBy, seenBy_own]
      exact polled _ task _ holds
    · refine ⟨rest, ?_, ?_⟩
      · rw [seenBy, seenBy_other _ _ hj]
        exact holds
      · rwa [List.getElem?_set_ne hj]

theorem Keeps.run {P : List Seen → Task → Prop} (h : f.Keeps i P)
    (polled : ∀ seen t s, P seen t → P (seen ++ (Task.poll t s).1.seen) (Task.poll t s).1.rest)
    (moves : List Move) : (f.run moves).Keeps i P := by
  induction moves generalizing f with
  | nil => exact h
  | cons move moves ih => exact ih (h.step polled move)

theorem keeps_start {catalogs : Nat → Catalog} {tasks : List Task} {task : Task}
    (h : tasks[i]? = some task) {P : List Seen → Task → Prop} (holds : P [] task) :
    (start catalogs tasks).Keeps i P :=
  ⟨task, holds, .inl (by simp [start, h])⟩

/-- Moves without an end, among which one task is polled again and again and never dropped. -/
structure Tended (moves : Nat → Move) (i : Nat) : Prop where
  polled : ∀ n, ∃ m, moves (n + m) = .poll i
  kept : ∀ n, moves n ≠ .drop i

theorem Tended.later {moves : Nat → Move} (h : Tended moves i) (n : Nat) :
    Tended (fun k => moves (n + k)) i where
  polled k := by simpa only [Nat.add_assoc] using h.polled (n + k)
  kept k := h.kept (n + k)

def after (f : Forest) (moves : Nat → Move) (n : Nat) : Forest :=
  f.run ((List.range n).map moves)

theorem after_one (f : Forest) (moves : Nat → Move) : f.after moves 1 = f.step (moves 0) := rfl

theorem after_add (f : Forest) (moves : Nat → Move) (n m : Nat) :
    f.after moves (n + m) = (f.after moves n).after (fun k => moves (n + k)) m := by
  simp [after, run, List.range_add, Function.comp_def]

theorem step_polled {task : Task} (h : f.tasks[i]? = some (some task)) :
    (f.step (.poll i)).tasks[i]? = some (some (task.poll f.surroundings).1.rest) := by
  have bound := (List.getElem?_eq_some_iff.mp h).1
  simp only [step, h]
  exact List.getElem?_set_self bound

theorem step_kept {task : Task} (h : f.tasks[i]? = some (some task)) {move : Move} (kept : move ≠ .drop i)
    (unpolled : move ≠ .poll i) : (f.step move).tasks[i]? = some (some task) := by
  cases move with
  | drop j =>
    have other : j ≠ i := fun same => kept (same ▸ rfl)
    exact (List.getElem?_set_ne other).trans h
  | poll j =>
    have other : j ≠ i := fun same => unpolled (same ▸ rfl)
    simp only [step]
    split
    next => exact (List.getElem?_set_ne other).trans h
    next => exact h

theorem after_one_polled {task : Task} (h : f.tasks[i]? = some (some task)) {moves : Nat → Move}
    (polled : moves 0 = .poll i) :
    (f.after moves 1).tasks[i]? = some (some (task.poll f.surroundings).1.rest) := by
  rw [after_one, polled]
  exact step_polled h

theorem exists_after_polled {task : Task} (h : f.tasks[i]? = some (some task)) {moves : Nat → Move}
    (tended : Tended moves i) :
    ∃ n s, (f.after moves n).tasks[i]? = some (some (task.poll s).1.rest) := by
  obtain ⟨m, polled⟩ := tended.polled 0
  rw [Nat.zero_add] at polled
  induction m generalizing f moves with
  | zero => exact ⟨1, f.surroundings, after_one_polled h polled⟩
  | succ m ih =>
    by_cases first : moves 0 = .poll i
    · exact ⟨1, f.surroundings, after_one_polled h first⟩
    · have waits : (f.after moves 1).tasks[i]? = some (some task) := by
        rw [after_one]
        exact step_kept h (tended.kept 0) first
      obtain ⟨n, s, later⟩ := ih waits (tended.later 1) (by rwa [Nat.add_comm])
      exact ⟨1 + n, s, by rwa [after_add]⟩

/-- A task that is tended comes to its end, whatever happens around it. -/
theorem exists_after_finished {task : Task} (joins : task.Joins) (h : f.tasks[i]? = some (some task))
    {moves : Nat → Move} (tended : Tended moves i) :
    ∃ n, (f.after moves n).tasks[i]? = some (some .finished) := by
  have acc := task.acc_moves.transGen
  induction acc generalizing f moves with
  | intro task _ ih =>
    by_cases ended : task.isFinished
    · exact ⟨0, Task.eq_finished ended ▸ h⟩
    · obtain ⟨n, s, polled⟩ := exists_after_polled h tended
      have onward := Relation.transGen_swap.mpr (Task.poll_moves joins ended s)
      have joins := (task.poll_follows s).2.joins joins
      obtain ⟨m, finished⟩ := ih _ onward joins polled (tended.later n)
      exact ⟨n + m, by rwa [after_add]⟩

end Forest

/-- A lookup finds the innermost of the scopes around it, and fails outside of all. What a cache gives is bound
to the context that it is refreshed for. -/
def Seen.IsOwn (catalogs : Nat → Catalog) (seen : Seen) : Prop :=
  match seen.sight, seen.scopes with
  | .found result, innermost :: _ => result = .ok innermost
  | .found result, [] => ∃ error, result = .error error ∧ error.kind = .configuration
  | .refreshed cache ctx edition, _ => edition.contracts = (catalogs cache).bind ctx

theorem Surroundings.Leads.isOwn {s s' : Surroundings} {seen : List Seen} {catalogs : Nat → Catalog}
    (h : s.Leads seen s') (empty : s.scope = {}) (own : s.Faithful catalogs) {x : Seen} (hx : x ∈ seen) :
    x.IsOwn catalogs := by
  obtain ⟨scopes, sight⟩ := x
  cases sight with
  | refreshed cache ctx edition => exact h.bound own hx rfl
  | found result =>
    have found := h.found_eq hx rfl
    rw [empty] at found
    cases scopes with
    | nil => exact ⟨Scope.outside, found, rfl⟩
    | cons innermost outer => exact found

/-- Whatever the moves, each task follows a path of its own, on which it finds the innermost of its scopes, and
every poll leaves the slot as it was. A task that is polled again and again comes to its end. -/
theorem scopes_stay_apart (catalogs : Nat → Catalog) (tasks : List Task) (moves : List Move) :
    let forest := (Forest.start catalogs tasks).run moves
    (∀ (t : Task) (s : Surroundings), (t.poll s).2.scope = s.scope) ∧
      forest.surroundings.scope = {} ∧
      (∀ entry ∈ forest.log, entry.2.IsOwn catalogs) ∧
      (∀ (i : Nat) (task : Task), tasks[i]? = some task → ∃ rest, task.Path (forest.seenBy i) rest ∧
        (forest.tasks[i]? = some (some rest) ∨ forest.tasks[i]? = some none)) ∧
      (∀ i cache ctx body rest, tasks[i]? = some (.provide cache ctx body rest) →
        forest.seenBy i = [] ∨ ∃ edition later last,
          forest.seenBy i = { sight := .refreshed cache ctx edition } :: later ∧
            edition.contracts = (catalogs cache).bind ctx ∧
            (Task.scoped edition body rest).Path later last) ∧
      ∀ (i : Nat) (task : Task) (onward : Nat → Move), tasks[i]? = some task → task.Joins →
        Forest.Tended onward i →
          ∃ n, ((Forest.start catalogs tasks).after onward n).tasks[i]? = some (some .finished) := by
  intro forest
  obtain ⟨seen, hseen, leads⟩ := (Forest.start catalogs tasks).run_leads moves
  have isOwn : ∀ entry ∈ forest.log, entry.2.IsOwn catalogs := by
    intro entry hentry
    have faithful : (Forest.start catalogs tasks).surroundings.Faithful catalogs := fun n => ⟨rfl, nofun⟩
    have logged : entry.2 ∈ forest.log.map Prod.snd := List.mem_map_of_mem hentry
    rw [hseen] at logged
    exact leads.isOwn rfl faithful logged
  have follows : ∀ (i : Nat) (task : Task), tasks[i]? = some task →
      forest.Keeps i fun seen rest => task.Path seen rest := by
    intro i task htask
    refine (Forest.keeps_start htask (.here task)).run ?_ moves
    intro seen t s path
    exact path.trans (t.poll_follows s).2
  refine ⟨fun t s => (t.poll_follows s).1.scope_eq, leads.scope_eq, isOwn, follows, ?_, ?_⟩
  · intro i cache ctx body rest htask
    obtain ⟨last, path, _⟩ := follows i _ htask
    rcases path.of_provide with nothing | ⟨edition, later, first, onward⟩
    · exact .inl nothing
    · have logged : (i, ⟨[], .refreshed cache ctx edition⟩) ∈ forest.log := by
        apply Forest.mem_log_of_mem_seenBy
        rw [first]
        exact List.mem_cons_self
      exact .inr ⟨edition, later, last, first, isOwn _ logged, onward⟩
  · intro i task onward htask joins tended
    exact Forest.exists_after_finished joins (by simp [Forest.start, htask]) tended

def nestedTask (inner : Edition) : Task :=
  .provide 0 vaultContext
    (.looking fun _ => .waiting (.scoped inner (.looking fun _ => .waiting .finished) .finished)) .finished

/-- While the first task waits in its scopes, the second one looks outside of all. -/
theorem nestedTask_looks_apart :
    let catalogs := fun _ : Nat => vaultCatalog
    let outer : Edition := ⟨0, vaultCatalog.bind vaultContext⟩
    let inner : Edition := ⟨7, vaultCatalog.bind anonymousContext⟩
    let start := Forest.start catalogs [nestedTask inner, .looking fun _ => .finished]
    let forest := start.run [.poll 0, .poll 1, .poll 0, .drop 0]
    forest.surroundings.scope = {} ∧
      forest.log = [(0, ⟨[], .refreshed 0 vaultContext outer⟩), (0, ⟨[outer], .found (.ok outer)⟩),
        (1, ⟨[], .found (.error Scope.outside)⟩), (0, ⟨[inner, outer], .found (.ok inner)⟩)] ∧
      (∀ entry ∈ forest.log, entry.2.IsOwn catalogs) ∧
      (nestedTask inner).Joins ∧ Forest.Tended (fun n => .poll (n % 2)) 0 ∧
      ∃ n, (start.after (fun n => .poll (n % 2)) n).tasks[0]? = some (some .finished) := by
  intro catalogs outer inner start forest
  have joins : (nestedTask inner).Joins := fun _ => ⟨fun _ => ⟨fun _ => trivial, trivial⟩, trivial⟩
  have tended : Forest.Tended (fun n => .poll (n % 2)) 0 :=
    ⟨fun n => ⟨n, congrArg Move.poll (by omega)⟩, nofun⟩
  obtain ⟨_, empty, own, _, _, ends⟩ := scopes_stay_apart catalogs
    [nestedTask inner, .looking fun _ => .finished] [.poll 0, .poll 1, .poll 0, .drop 0]
  exact ⟨empty, rfl, own, joins, tended, ends 0 _ _ rfl joins tended⟩

end AbiCalls
