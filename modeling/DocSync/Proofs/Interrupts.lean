import DocSync.Proofs.ContentChanges
import DocSync.Proofs.Punctual

/-!
What ends the debounce of a completion before its time: a newer completion request that is not
refused, an edit of an open document, and shutdown. Nothing else touches the wait, but for the turn
of the task that waits.
-/

namespace DocSync.Service

variable {s t : Service} {e : Event} {g h j k request task : Nat} {id : DocumentId}
  {p : EditorPosition} {x : Session} {w : Work}

def Notice.callOf? (task : Nat) : Notice → Option Call
  | .called k c => if k = task then some c else none
  | _ => none

/-- The calls that a task made, newest first. -/
def callsOf (s : Service) (task : Nat) : List Call :=
  s.journal.filterMap (Notice.callOf? task)

theorem callsOf_next (ha : s.actor e ≠ some task) : (s.next e).callsOf task = s.callsOf task := by
  refine (tells_next s e).filterMap fun n hn => ?_
  cases hn with
  | called hc =>
    refine if_neg fun hk => ha ?_
    rw [hc, hk]
  | marked | finished | answered | refused | rejected | failed | snapshot | shown | opened |
    registered => rfl

theorem Part.nextTask_le {v u : PushState} {d : Deed} (hp : Part .inside v d u) :
    v.nextTask ≤ u.nextTask := by
  cases hp with
  | tasks hn => exact hn
  | fire => exact Nat.le_succ _
  | connect | disconnect | disown | «open» | edit | flush | stall | start | forgo | expire |
    accept | refuse | ignore | close => exact Nat.le_refl _

theorem Run.nextTask_le (r : Run) (hjk : j ≤ k) : (r.state j).nextTask ≤ (r.state k).nextTask := by
  induction hjk with
  | refl => exact Nat.le_refl _
  | @step k _ ih =>
    exact ((r.step k).parts trivial).keep (I := fun v => (r.state j).nextTask ≤ v.nextTask)
      (fun hp hv => Nat.le_trans hv hp.nextTask_le) ih

theorem ended_next (ht : task < s.nextTask) (hw : s.work task = none) :
    (s.next e).work task = none ∧ (s.next e).callsOf task = s.callsOf task := by
  by_cases ha : s.actor e = some task
  case neg => exact ⟨(work_next_of_ne ha).trans hw, callsOf_next ha⟩
  have hw' : s.tasks.lookup task = none := hw
  rcases actor_turn (Nat.ne_of_lt ht) ha with rfl | ⟨a, rfl⟩
  · simp only [next, hw', and_true]
    exact hw
  · simp only [next, hw', and_true]
    exact hw

theorem debounce_waits {d : Nat} (ht : task < s.nextTask)
    (hw : s.work task = some (.debounce request h id p g d)) (he : e ≠ .run task) :
    (s.next e).work task = some (.debounce request h id p g d) ∧
      (s.next e).callsOf task = s.callsOf task := by
  by_cases ha : s.actor e = some task
  case neg => exact ⟨(work_next_of_ne ha).trans hw, callsOf_next ha⟩
  rcases actor_turn (Nat.ne_of_lt ht) ha with rfl | ⟨a, rfl⟩
  · exact absurd rfl he
  · rw [next_answer hw]
    exact ⟨hw, rfl⟩

/-- The event ends the debounce of whichever completion waits: a completion request that passes its
checks, a change that some open session accepts, a new text for an open session, or shutdown. -/
inductive Interrupts (s : Service) : Event → Prop where
  | complete {request h : Nat} {id : DocumentId} {p : EditorPosition} (hr : s.require id = .ok h) :
      Interrupts s (.complete request id p)
  | change {h : Nat} {x : Session} {change : ContentChange} {document : Document}
      (hx : s.IsOpen h x) (hd : x.document.Becomes change.changes document) :
      Interrupts s (.change x.channel change)
  | setText {h : Nat} {x : Session} {text : List Char} (hx : s.IsOpen h x) :
      Interrupts s (.setText h text)
  | shutdown {request : Nat} : Interrupts s (.shutdown request)

/-- Interrupting rejects the wait that is outstanding. -/
theorem Interrupts.rejects (hi : Interrupts s e) (hs : s.Sound) (hw : s.wait.Tidy)
    (hrun : s.isStopped = false) (hg : s.wait.outstanding = some g) :
    (s.next e).wait.outstanding ≠ some g ∧
      ((s.next e).wait.rejections.lookup g).isSome = true := by
  have hcancel {t : Service} (ht : t.wait = s.wait.cancel) :
      t.wait.outstanding ≠ some g ∧ (t.wait.rejections.lookup g).isSome = true := by
    obtain ⟨hnone, hsome⟩ := Wait.reject_answered s.wait .cancelled (Or.inl hg)
    rw [ht]
    exact ⟨fun ho => Option.some_ne_none g (ho.symm.trans hnone), hsome⟩
  cases hi with
  | @complete request h id p hr =>
    have hwait : (s.next (.complete request id p)).wait = s.wait.start.1 := by
      simp only [next, requestCompletion, hr]
      rfl
    rw [hwait]
    refine ⟨fun ho => ?_, (Wait.reject_answered s.wait .superseded (Or.inl hg)).2⟩
    have hlatest := hw.latest g hg
    have hnew : (s.wait.reject .superseded).generation + 1 = g := Option.some.inj ho
    rw [Wait.reject_generation] at hnew
    omega
  | change hx hd =>
    obtain ⟨hnone, hsome⟩ := ((all_or_nothing hs hw hx _ .inside).accepted _ hd).cancelled
    refine ⟨fun ho => Option.some_ne_none g (ho.symm.trans hnone), ?_⟩
    rw [hsome g hg]
    rfl
  | setText hx =>
    refine hcancel ?_
    rw [next, setText_open hx.1 hx.2]
    exact congrArg Service.wait outline_edited
  | shutdown =>
    refine hcancel ?_
    have hr := status_retireEach s.registry
      (s := { s with isStopped := true, wait := s.wait.cancel, registry := [] })
    simp only [next, requestShutdown, hrun, Bool.false_eq_true, ↓reduceIte]
    exact congrArg Status.wait hr

theorem wait_of_outline (ho : t.outline = s.outline) : t.wait = s.wait := by
  have hw := congrArg Service.wait ho
  exact hw

theorem wait_closeSession : (s.closeSession h).wait = s.wait := by
  have hw := congrArg Service.wait (outline_closeSession (s := s) (h := h))
  exact hw

theorem wait_answer (a : Answer) : (s.answer task w a).wait = s.wait := by
  simp only [Service.answer]
  split
  · next h t after result =>
    generalize hu : s.note (.answered task h t.version (isOk result)) = u
    have hwait : u.wait = s.wait := by
      rw [← hu]
      rfl
    have hstatus : ((u.completePush h t result).1.afterPush task (u.completePush h t result).2
        after).status = (u.completePush h t result).1.status := status_afterPush _ after
    have hw := congrArg Status.wait hstatus
    exact (Eq.trans hw (wait_of_outline (outline_completePush t result))).trans hwait
  · rfl
  · rfl
  · rfl
  · rfl
  · simp only [completeConnect]
    split
    · rfl
    · split <;> rfl
  · rfl
  · rfl

/-- An event that is no interruption and no turn of a task leaves the wait as it is. -/
theorem wait_next (hs : s.Sound) (he : e.isWhole = true) (hi : ¬Interrupts s e)
    (hrun : ∀ task, e ≠ .run task) : (s.next e).wait = s.wait := by
  cases e with
  | openDocument id document channel =>
    simp only [next, openDocument]
    split
    · rfl
    · next t h hb =>
      obtain ⟨_, ho, ht, x, hx, rfl⟩ := status_beginOpen hb
      have hreg : t.registry = s.registry := congrArg Status.registry ht
      have hopen : t.open? x.id = none := by
        rw [open?, hreg]
        exact ho
      exact (congrArg Status.wait (status_finishOpen hx hopen)).trans (congrArg Status.wait ht)
  | beginOpen | finishOpen => cases he
  | closeDocument id =>
    simp only [next, closeDocument]
    split
    · rfl
    · exact wait_closeSession
  | change name change =>
    have hnone : ∀ k ∈ (s.channel name).handlers.map Prod.snd, ∀ y, s.IsOpen k y →
        ∃ error, y.document.FailsWith change.changes error := by
      intro k hk y hy
      obtain ⟨z, hz, rfl⟩ := hs.attached.session_of_mem hk
      obtain rfl := Option.some.inj (hy.1.symm.trans hz.1)
      rcases y.document.becomes_or_fails change.changes with ⟨document, hd⟩ | herror
      · exact absurd (.change hy hd) hi
      · exact herror
    obtain ⟨l, hl⟩ := hear_rejected hnone .inside
    have hwait := congrArg Service.wait hl
    exact hwait
  | setText h text =>
    simp only [next, setText]
    split
    · rfl
    · next x hx =>
      split
      · rfl
      · next ho => exact absurd (.setText ⟨hx, by simpa using ho⟩) hi
  | setContext => exact wait_of_outline (outline_setContext _ _)
  | closeSession => exact wait_closeSession
  | flush => exact congrArg Status.wait (status_flush (s := s.fresh.1) _)
  | complete =>
    simp only [next, requestCompletion]
    split
    · rfl
    · next hr => exact absurd (.complete hr) hi
  | info =>
    simp only [next, requestInfo]
    split
    · rfl
    · split <;> rfl
  | connect =>
    simp only [next, requestConnect]
    split
    · rfl
    · split
      · rfl
      · rfl
      · split <;> rfl
  | shutdown => exact absurd .shutdown hi
  | receive =>
    simp only [next, receive]
    split
    · split
      · exact congrArg Status.wait (status_tell _)
      · rfl
    · rfl
  | endStream | pass => rfl
  | answer =>
    simp only [next]
    split
    · rfl
    · exact wait_answer _
  | fire =>
    simp only [next]
    split
    · rfl
    · split
      · simp only [fire]
        split
        · rfl
        · split <;> rfl
      · rfl
  | run task => exact absurd rfl (hrun task)

end DocSync.Service
