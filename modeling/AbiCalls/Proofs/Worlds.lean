import AbiCalls.Proofs.Operations
import AbiCalls.Session.World

namespace AbiCalls

namespace World

/-- Worlds with the same scripts, in which the same requests have been made. Their clocks may differ. -/
structure Alike (w w' : World) : Prop where
  scripts : w.scripts = w'.scripts
  tally : w.tally = w'.tally
  requests : w.events.map Event.request = w'.events.map Event.request

theorem Alike.refl (w : World) : Alike w w :=
  ⟨rfl, rfl, rfl⟩

theorem Alike.symm {w w' : World} (h : Alike w w') : Alike w' w :=
  ⟨h.scripts.symm, h.tally.symm, h.requests.symm⟩

theorem Alike.trans {w w' w'' : World} (h : Alike w w') (h' : Alike w' w'') : Alike w w'' :=
  ⟨h.scripts.trans h'.scripts, h.tally.trans h'.tally, h.requests.trans h'.requests⟩

theorem alike_log (w : World) (notice : Notice) : Alike (w.log notice) w :=
  ⟨rfl, rfl, rfl⟩

theorem alike_logAll (w : World) (notices : List Notice) : Alike (w.logAll notices) w := by
  induction notices generalizing w with
  | nil => exact .refl w
  | cons notice notices ih => exact (ih (w.log notice)).trans (alike_log w notice)

theorem alike_now (w : World) (now : Nat) : Alike { w with now } w :=
  ⟨rfl, rfl, rfl⟩

theorem alike_sleep (w : World) (ms : Nat) : Alike (w.sleep ms) w :=
  ⟨rfl, rfl, rfl⟩

theorem Alike.ask {w w' : World} (h : Alike w w') (reader : ReaderId) (q : Query) :
    (w.ask reader q).1 = (w'.ask reader q).1 ∧ Alike (w.ask reader q).2 (w'.ask reader q).2 := by
  unfold World.ask
  rw [h.scripts, h.tally]
  exact ⟨rfl, h.scripts, rfl, congrArg (_ :: ·) h.requests⟩

theorem Alike.attempt {w w' : World} (h : Alike w w') (writer : WriterId) (t : Trial) :
    (w.attempt writer t).1 = (w'.attempt writer t).1 ∧
      Alike (w.attempt writer t).2 (w'.attempt writer t).2 := by
  unfold World.attempt
  rw [h.scripts, h.tally]
  exact ⟨rfl, h.scripts, rfl, congrArg (_ :: ·) h.requests⟩

theorem Alike.submit {w w' : World} (h : Alike w w') (writer : WriterId) (payload : Json) :
    (w.submit writer payload).1 = (w'.submit writer payload).1 ∧
      Alike (w.submit writer payload).2 (w'.submit writer payload).2 := by
  unfold World.submit
  rw [h.scripts, h.tally]
  exact ⟨rfl, h.scripts, rfl, congrArg (_ :: ·) h.requests⟩

variable {α β : Type}

theorem Alike.run {w w' : World} (h : Alike w w') (call : Call α) :
    (World.run call w).1 = (World.run call w').1 ∧
      Alike (World.run call w).2 (World.run call w').2 := by
  induction call generalizing w w' with
  | done result => exact ⟨rfl, h⟩
  | note notice rest ih => exact ih (((alike_log w notice).trans h).trans (alike_log w' notice).symm)
  | query reader q resume ih =>
    obtain ⟨answer, after⟩ := h.ask reader q
    simp only [World.run, answer]
    exact ih _ (((alike_sleep _ _).trans after).trans (alike_sleep _ _).symm)
  | trial writer t resume ih =>
    obtain ⟨answer, after⟩ := h.attempt writer t
    simp only [World.run, answer]
    exact ih _ (((alike_sleep _ _).trans after).trans (alike_sleep _ _).symm)
  | submission writer payload resume ih =>
    obtain ⟨answer, after⟩ := h.submit writer payload
    simp only [World.run, answer]
    exact ih _ (((alike_sleep _ _).trans after).trans (alike_sleep _ _).symm)

theorem run_bind (call : Call α) (f : α → Call β) (w : World) :
    run (call.bind f) w = run (f (run call w).1) (run call w).2 := by
  induction call generalizing w with
  | done result => rfl
  | note notice rest ih => exact ih (w.log notice)
  | query reader q resume ih => exact ih _ _
  | trial writer t resume ih => exact ih _ _
  | submission writer payload resume ih => exact ih _ _

theorem run_map (call : Call α) (f : α → β) (w : World) :
    run (call.map f) w = (f (run call w).1, (run call w).2) :=
  run_bind call _ w

/-- What a session takes of a watch are the items of the watch from certain times on, and they are asked for
in the same way. -/
theorem watchItems_eq_items (pause count : Nat) (watch : Watch) (w : World) :
    ∃ wanted : List Nat, wanted.length = count ∧
      (watchItems pause count watch w).1 = (run (watch.items wanted) w).1.map Prod.snd ∧
      Alike (watchItems pause count watch w).2 (run (watch.items wanted) w).2 := by
  induction count generalizing watch w with
  | zero => exact ⟨[], rfl, rfl, .refl w⟩
  | succ count ih =>
    rcases hnext : watch.next w.now with ⟨tick, next⟩
    have hsame : next.question = watch.question := by
      rw [← watch.question_next w.now, hnext]
    have hquestion := (alike_now w tick).run watch.question
    obtain ⟨later, hlength, hitems, hworld⟩ :=
      ih next ((run watch.question { w with now := tick }).2.sleep pause)
    have hlater := (((alike_sleep _ pause).trans hquestion.2)).run (next.items later)
    refine ⟨w.now :: later, by simp [hlength], ?_, ?_⟩
    · simp only [watchItems, Watch.items, hnext, hsame, run_bind, run_map, hquestion.1, hitems,
        hlater.1, List.map_cons]
    · simp only [watchItems, Watch.items, hnext, hsame, run_bind, run_map]
      exact hworld.trans hlater.2

end World

end AbiCalls
