import DocSync.Proofs.DocumentScripts

/-!
Settling ends. Timers' tasks and tasks that wait have numbers of their own, so every turn that is
due is taken and lowers the load; a service that has taken as many turns as its load is settled.
-/

namespace DocSync

namespace Service

open PushState

variable {s t : Service} {names : Names} {e : Event} {w : Work} {h i k task : Nat} {x : Session}

theorem Part.distinct {v w : PushState} {d : Deed} (hp : Part .inside v d w)
    (hv : v.agenda.Distinct) :
    w.agenda.Distinct := by
  cases hp with
  | tasks | connect | disconnect | disown | start | forgo | accept | refuse | ignore => exact hv
  | «open» | edit => exact (Timer.distinct_abort hv _).sleep _ _
  | @flush h x | @stall h x | @close h x =>
    change (x.timer.cancel v.agenda).2.Distinct
    rw [Timer.cancel_agenda]
    exact Timer.distinct_abort hv _
  | fire | expire => exact hv.drop _

/-- Every task has a number of its own. -/
def TasksApart (s : Service) : Prop := (s.tasks.map Prod.fst).Nodup

theorem TasksApart.hold (hs : s.TasksApart) (task : Nat) (w : Work) :
    (s.hold task w).TasksApart :=
  Keyed.nodup_put hs task w

theorem TasksApart.drop (hs : s.TasksApart) (task : Nat) : (s.drop task).TasksApart :=
  (Keyed.keys_remove task s.tasks).nodup hs

theorem TasksApart.spawn (hs : s.TasksApart) (hn : s.work s.nextTask = none) (w : Work) :
    (s.spawn w).TasksApart := by
  have hnot : s.nextTask ∉ s.tasks.map Prod.fst := by
    intro hm
    have hsome := Keyed.lookup_isSome_iff.mpr hm
    have hnone : s.tasks.lookup s.nextTask = none := hn
    rw [hnone] at hsome
    cases hsome
  simp only [TasksApart, Service.spawn, List.map_append, List.map_singleton]
  refine List.nodup_append.mpr ⟨hs, List.nodup_singleton _, fun j hj k hk hjk => ?_⟩
  obtain rfl := List.mem_singleton.mp hk
  exact hnot (hjk ▸ hj)

theorem TasksApart.afterPush (hs : s.TasksApart) (task : Nat) (result : Except Failure Unit)
    (after : After) : (s.afterPush task result after).TasksApart := by
  cases after with
  | nothing => exact hs.drop task
  | flush => exact hs.drop task
  | completion =>
    simp only [Service.afterPush]
    split
    · exact hs.drop task
    · exact hs.drop task
    · exact hs.hold task _

theorem TasksApart.push (hs : s.TasksApart) (task h : Nat) (after : After) :
    (s.push task h after).TasksApart := by
  rcases push_cases s task h after with ⟨x, _, _, _, he⟩ | ⟨_, he⟩ | ⟨x, _, ⟨_, he⟩ | ⟨_, _, he⟩⟩
  · rw [he]
    exact hs.hold task _
  · rw [he]
    exact hs.drop task
  · rw [he]
    exact hs.afterPush task _ after
  · rw [he]
    exact hs.afterPush task _ after

theorem tasksApart_of_outline (hs : s.TasksApart) (ho : t.outline = s.outline) : t.TasksApart := by
  have ht := congrArg Service.tasks ho
  change t.tasks = s.tasks at ht
  rwa [TasksApart, ht]

theorem TasksApart.flush (hs : s.TasksApart) (task h : Nat) (after : After) :
    (s.flush task h after).TasksApart := by
  rcases flush_cases s task h after with ⟨x, _, _, he⟩ | ⟨_, he⟩ | ⟨x, _, _, he⟩
  · rw [he]
    exact (tasksApart_of_outline hs outline_prepare).push task h after
  · rw [he]
    exact hs.drop task
  · rw [he]
    exact hs.afterPush task _ after

theorem TasksApart.answer (hs : s.TasksApart) (task : Nat) (w : Work) (a : Answer) :
    (s.answer task w a).TasksApart := by
  simp only [Service.answer]
  split
  · next h ticket after result =>
    have hu : (s.note (.answered task h ticket.version (isOk result))).TasksApart := hs
    exact (tasksApart_of_outline hu (outline_completePush ticket result)).afterPush task _ _
  · exact hs.drop task
  · exact hs.drop task
  · exact hs.drop task
  · exact hs.drop task
  · simp only [completeConnect]
    split
    · exact hs.drop task
    · split <;> exact hs.drop task
  · exact hs.drop task
  · exact hs

theorem TasksApart.next (hs : s.TasksApart) (ho : s.Orderly names)
    (he : (∃ document, s.Touches names document e) ∨ Shared names e) : (s.next e).TasksApart := by
  have hunused : s.work s.nextTask = none := ho.invariant.numbered _ (Nat.le_refl _)
  have hidle (ha : s.actor e = none) (hp : ∀ n, e ≠ .pass n) : (s.next e).TasksApart := by
    have ht : (s.next e).tasks = s.tasks := congrArg Prod.fst (ledger_next ha hp)
    rwa [TasksApart, ht]
  rcases he with ⟨document, he⟩ | he
  · cases he with
    | openDocument | closeDocument | change | setText | setContext | closeSession =>
      exact hidle rfl fun _ => Event.noConfusion
    | @flush request h => exact hs.flush (s := s.fresh.1) s.nextTask h _
    | info =>
      simp only [Service.next, requestInfo]
      split
      · exact hs
      · split
        · exact hs
        · exact hs.hold (s := s.fresh.1) _ _
    | @answer task w a hw =>
      rw [next_answer hw]
      exact hs.answer task w a
    | @fire i sleeper x hf hd =>
      obtain ⟨y, _, _, _, hfire⟩ := fire_eq ho.ticking.sleeping hf
      rw [next_fire hf hd, hfire]
      exact hs.spawn hunused _
    | @run task w hw =>
      obtain ⟨_, _, hfits⟩ := ho.fits hw
      rw [next_run hw]
      cases hfits with
      | start => exact hs.push task _ .nothing
      | push | flush | info | shutdown => exact hs
  · cases he with
    | pass => exact hs
    | receive | endStream => exact hidle rfl fun _ => Event.noConfusion
    | shutdown =>
      simp only [Service.next, requestShutdown]
      split
      · exact hs
      · let u : Service := { s with isStopped := true, wait := s.wait.cancel, registry := [] }
        have ht : (u.retireEach s.registry).tasks = s.tasks :=
          congrArg Prod.fst (ledger_retireEach (s := u) s.registry).1
        have hu : (u.retireEach s.registry).TasksApart := by
          rwa [TasksApart, ht]
        exact hu.hold _ _
    | @connect request =>
      obtain ⟨_, he⟩ := requestConnect_made ho.linked request
      simp only [Service.next, he]
      exact hs

/-- What is needed for every turn that is due to be taken. -/
structure Ready (s : Service) (names : Names) : Prop where
  orderly : s.Orderly names
  sleepers : s.agenda.Distinct
  tasks : s.TasksApart

theorem Ready.next (hs : s.Ready names)
    (he : (∃ document, s.Touches names document e) ∨ Shared names e) : (s.next e).Ready names := by
  have hwhole : e.isWhole = true := by
    rcases he with ⟨_, he⟩ | he
    · exact he.isWhole
    · exact he.isWhole
  have hp := (next_parts hs.orderly.invariant.numbered hwhole).parts trivial
  have hd := hp.keep (I := fun v => v.agenda.Distinct) Part.distinct hs.sleepers
  exact ⟨hs.orderly.next he, hd, hs.tasks.next hs.orderly he⟩

theorem Ready.turn (hs : s.Ready names) (ht : s.turn? = some e) :
    (∃ sleeper, e = .fire sleeper.id ∧ s.agenda.find? sleeper.id = some sleeper ∧
        sleeper.deadline ≤ s.now) ∨
      ∃ task h, e = .run task ∧ s.work task = some (.start h) := by
  simp only [turn?] at ht
  cases hd : s.agenda.due? s.now with
  | some sleeper =>
    rw [hd] at ht
    cases ht
    obtain ⟨hm, hle⟩ := Agenda.mem_of_due? hd
    exact Or.inl ⟨sleeper, rfl, hs.sleepers.find? hm, hle⟩
  | none =>
    rw [hd] at ht
    obtain ⟨⟨task, w⟩, hfind, rfl⟩ := Option.map_eq_some_iff.mp ht
    have hw : s.work task = some w := Keyed.lookup_of_mem hs.tasks (List.mem_of_find?_eq_some hfind)
    have hrun : s.canRun w = true := List.find?_some (p := fun t : Nat × Work => s.canRun t.2) hfind
    obtain ⟨_, _, hfits⟩ := hs.orderly.fits hw
    cases hfits with
    | @start _ h => exact Or.inr ⟨task, h, rfl, hw⟩
    | push | flush | info | shutdown => cases hrun

theorem Ready.touches (hs : s.Ready names) (ht : s.turn? = some e) :
    ∃ document, s.Touches names document e := by
  rcases hs.turn ht with ⟨sleeper, rfl, hf, hd⟩ | ⟨task, h, rfl, hw⟩
  · obtain ⟨x, hx, _⟩ := fire_eq hs.orderly.ticking.sleeping hf
    exact ⟨_, .fire hf hd hx.1⟩
  · exact ⟨_, .run hw⟩

/-- Every turn lowers the load. -/
theorem Ready.load_turn (hs : s.Ready names) (ht : s.turn? = some e) :
    (s.next e).load < s.load := by
  rcases hs.turn ht with ⟨sleeper, rfl, hf, hd⟩ | ⟨task, h, rfl, hw⟩
  · obtain ⟨x, _, _, _, hfire⟩ := fire_eq hs.orderly.ticking.sleeping hf
    have hlt := Agenda.length_drop_lt (Agenda.mem_of_find? hf)
    rw [next_fire hf hd, hfire]
    simp only [load, Service.spawn, setSession, Keyed.total_append, Keyed.total_singleton,
      Work.load]
    omega
  · have hw' : s.tasks.lookup task = some (.start h) := hw
    have hremove := Keyed.total_remove (fun t => Work.load t.2) hs.tasks hw'
    have hdrop : (s.drop task).load < s.load := by
      simp only [load, Service.drop, Work.load] at hremove ⊢
      omega
    rw [next_run hw]
    change (s.push task h .nothing).load < _
    rcases push_cases s task h .nothing with
      ⟨x, _, _, _, he⟩ | ⟨_, he⟩ | ⟨x, _, ⟨_, he⟩ | ⟨_, _, he⟩⟩
    · have hput := Keyed.total_put (a := .sync h x.ticket .nothing) (fun t => Work.load t.2) hw'
      rw [he]
      simp only [load, ask, note, hold, setSession, Work.load] at hput ⊢
      omega
    · rw [he]
      exact hdrop
    · rw [he]
      exact hdrop
    · rw [he]
      exact hdrop

theorem Ready.settled {m : Nat} (hs : s.Ready names) (hm : s.load ≤ m) :
    (settleFor m s).Ready names ∧ (settleFor m s).IsSettled := by
  induction m generalizing s with
  | zero =>
    refine ⟨hs, ?_⟩
    cases ht : s.turn? with
    | none => exact ht
    | some e =>
      have hlt := hs.load_turn ht
      omega
  | succ m ih =>
    simp only [settleFor]
    cases ht : s.turn? with
    | none => exact ⟨hs, ht⟩
    | some e =>
      have hlt := hs.load_turn ht
      exact ih (hs.next (Or.inl (hs.touches ht))) (by omega)

end Service

end DocSync
