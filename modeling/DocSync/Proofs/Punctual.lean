import DocSync.Proofs.TimerSteps

/-!
Runs in which work is done as soon as it can be. Time passes, and users call, only when no timer is
due and no task can run; and time stops at each deadline.
-/

namespace DocSync

namespace Service

variable {s t : Service} {e : Event} {h i j k task : Nat} {w : Work} {x : Session}
  {sleeper : Sleeper Debounce}

/-- What no event changes, and the time, which only passes by itself. -/
def frame (s : Service) : Nat × Nat × Nat × AbbreviationInput :=
  (s.now, s.syncDelay, s.completionDelay, s.input)

/-- What the work on sessions leaves alone: with the settings, how the service stands to its
server. -/
def base (s : Service) : (Nat × Nat × Nat × AbbreviationInput) × Bool × Bool × Bool × Link :=
  (s.frame, s.isStopped, s.isConnected, s.isListening, s.link)

theorem frame_of_base (hb : t.base = s.base) : t.frame = s.frame := congrArg Prod.fst hb

theorem base_of_outline (ho : t.outline = s.outline) : t.base = s.base := by
  have hs := congrArg base ho
  exact hs

theorem base_of_outlineKept (ho : s.OutlineKept t) : t.base = s.base := by
  rcases ho with ho | ho
  · exact base_of_outline ho
  · have hs := congrArg base ho
    exact hs

theorem base_closeSession : (s.closeSession h).base = s.base := by
  have hs := congrArg base (outline_closeSession (s := s) (h := h))
  exact hs

theorem base_retireEach (documents : List (DocumentId × Nat)) :
    (s.retireEach documents).base = s.base := by
  simp only [retireEach]
  induction documents generalizing s with
  | nil => rfl
  | cons e documents ih => exact ih.trans base_closeSession

theorem base_beginOpen {id : DocumentId} {document : Document} {channel : String}
    (hb : s.beginOpen id document channel = .ok (t, h)) : t.base = s.base := by
  obtain ⟨_, _, rfl, opening, rfl⟩ := beginOpen_ok hb
  rw [base_of_outline (outline_syncIn 0)]
  rfl

theorem base_finishOpen : (s.finishOpen h).1.base = s.base := by
  simp only [finishOpen]
  split
  · rfl
  · split
    · exact base_closeSession
    · rfl

theorem base_openDocument (id : DocumentId) (document : Document) (channel : String) :
    (s.openDocument id document channel).1.base = s.base := by
  simp only [openDocument]
  split
  · rfl
  · next hb => exact base_finishOpen.trans (base_beginOpen hb)

theorem base_afterPush (result : Except Failure Unit) (after : After) :
    (s.afterPush task result after).base = s.base := by
  cases after with
  | nothing => rfl
  | flush => rfl
  | completion =>
    simp only [afterPush]
    split <;> rfl

theorem base_push (after : After) : (s.push task h after).base = s.base := by
  rcases push_cases s task h after with ⟨x, _, _, _, he⟩ | ⟨_, he⟩ | ⟨x, _, ⟨_, he⟩ | ⟨_, _, he⟩⟩
  · rw [he]
    rfl
  · rw [he]
    rfl
  · rw [he, base_afterPush]
  · rw [he, base_afterPush]

theorem base_flush (after : After) : (s.flush task h after).base = s.base := by
  rcases flush_cases s task h after with ⟨x, _, _, he⟩ | ⟨_, he⟩ | ⟨x, _, _, he⟩
  · rw [he, base_push, base_of_outline outline_prepare]
  · rw [he]
    rfl
  · rw [he, base_afterPush]

theorem base_tell (updates : List MarkerUpdate) :
    (updates.foldl (fun s u => s.note (.markers u)) s).base = s.base := by
  induction updates generalizing s with
  | nil => rfl
  | cons u updates ih => exact ih

theorem frame_run : (s.run task w).frame = s.frame := by
  cases w with
  | start h => exact frame_of_base (base_push _)
  | debounce request h id p g d =>
    change (s.runDebounce task request h id p g d).frame = s.frame
    rcases runDebounce_cases s task request h id p g d with ⟨_, _, he⟩ | ⟨_, _, he⟩ | ⟨_, _, he⟩
    · rw [he]
    · rw [he]
      rfl
    · rw [he, frame_of_base (base_flush _)]
      rfl
  | connectTurn =>
    simp only [run, runConnectTurn]
    split <;> rfl
  | sync | complete | info | connect | shutdown => rfl

theorem frame_answer (a : Answer) : (s.answer task w a).frame = s.frame := by
  simp only [Service.answer]
  split
  · rw [frame_of_base (base_afterPush _ _),
      frame_of_base (base_of_outline (outline_completePush _ _))]
    rfl
  · rfl
  · rfl
  · rfl
  · rfl
  · simp only [completeConnect]
    split
    · rfl
    · split <;> rfl
  · rfl
  · rfl

theorem frame_next (he : ∀ n, e ≠ .pass n) : (s.next e).frame = s.frame := by
  cases e with
  | openDocument => exact frame_of_base (base_openDocument _ _ _)
  | beginOpen =>
    simp only [next]
    split
    · next hb => exact frame_of_base (base_beginOpen hb)
    · rfl
  | finishOpen =>
    simp only [next]
    split
    · exact frame_of_base base_finishOpen
    · rfl
  | closeDocument id =>
    simp only [next, closeDocument]
    split
    · rfl
    · exact frame_of_base base_closeSession
  | change => exact frame_of_base (base_of_outlineKept (outlineKept_fireChannel _ _))
  | setText => exact frame_of_base (base_of_outlineKept (outlineKept_setText _))
  | setContext => exact frame_of_base (base_of_outline (outline_setContext _ _))
  | closeSession => exact frame_of_base base_closeSession
  | flush => exact frame_of_base (base_flush (s := s.fresh.1) _)
  | complete =>
    simp only [next, requestCompletion]
    split <;> rfl
  | info =>
    simp only [next, requestInfo]
    split
    · rfl
    · split <;> rfl
  | connect =>
    simp only [next, requestConnect]
    split
    · rfl
    · split
      · rfl
      · rfl
      · split <;> rfl
  | shutdown =>
    simp only [next, requestShutdown]
    split
    · rfl
    · let u : Service := { s with isStopped := true, wait := s.wait.cancel, registry := [] }
      have hretire : (u.retireEach s.registry).frame = u.frame :=
        frame_of_base (base_retireEach s.registry)
      exact hretire
  | receive =>
    simp only [next, receive]
    split
    · split
      · exact frame_of_base (base_tell _)
      · rfl
    · rfl
  | endStream => rfl
  | pass n => exact absurd rfl (he n)
  | answer =>
    simp only [next]
    split
    · rfl
    · exact frame_answer _
  | fire =>
    simp only [next]
    split
    · rfl
    · split
      · simp only [fire]
        split
        · rfl
        · split <;> rfl
      · rfl
  | run =>
    simp only [next]
    split
    · rfl
    · exact frame_run

theorem clock_next (he : ∀ n, e ≠ .pass n) : (s.next e).clock = s.clock :=
  congrArg (fun v => (v.1, v.2.1)) (frame_next he)

theorem now_next (he : ∀ n, e ≠ .pass n) : (s.next e).now = s.now :=
  congrArg Prod.fst (clock_next he)

theorem Run.now_mono (r : Run) (hjk : j ≤ k) : (r.state j).now ≤ (r.state k).now := by
  induction hjk with
  | refl => exact Nat.le_refl _
  | @step k _ ih =>
    refine Nat.le_trans ih ?_
    by_cases he : ∃ n, r.event k = .pass n
    · obtain ⟨n, he⟩ := he
      simp only [state, he, next]
      exact Nat.le_add_right _ _
    · exact Nat.le_of_eq (now_next (s := r.state k) (not_exists.mp he)).symm

theorem Run.frame_eq (r : Run) (k : Nat) :
    (r.state k).frame = ((r.state k).now, r.syncDelay, r.completionDelay, r.input) := by
  induction k with
  | zero => rfl
  | succ k ih =>
    have hsettings : (r.state (k + 1)).frame.2 = (r.state k).frame.2 := by
      by_cases he : ∃ n, r.event k = .pass n
      · obtain ⟨n, he⟩ := he
        rw [state, he]
        rfl
      · exact congrArg Prod.snd (frame_next (s := r.state k) (not_exists.mp he))
    have hk := congrArg Prod.snd ih
    exact Prod.ext rfl (hsettings.trans hk)

theorem Run.syncDelay_eq (r : Run) (k : Nat) : (r.state k).syncDelay = r.syncDelay :=
  congrArg (fun v => v.2.1) (r.frame_eq k)

theorem Run.completionDelay_eq (r : Run) (k : Nat) :
    (r.state k).completionDelay = r.completionDelay :=
  congrArg (fun v => v.2.2.1) (r.frame_eq k)

/-- No timer is due and no task can run. -/
def IsSettled (s : Service) : Prop := s.turn? = none

theorem IsSettled.sleeps (hs : s.IsSettled) (hf : s.agenda.find? i = some sleeper) :
    s.now < sleeper.deadline := by
  refine Agenda.due?_none ?_ (Agenda.mem_of_find? hf)
  simp only [IsSettled, turn?] at hs
  split at hs
  · cases hs
  · assumption

theorem IsSettled.waits (hs : s.IsSettled) (hw : s.work task = some w) : s.canRun w = false := by
  simp only [IsSettled, turn?] at hs
  split at hs
  · cases hs
  · have hnone := Option.map_eq_none_iff.mp hs
    simpa using List.find?_eq_none.mp hnone (task, w) (Keyed.mem_of_lookup hw)

theorem deadline?_le (hf : s.agenda.find? i = some sleeper) :
    ∃ d, s.deadline? = some d ∧ d ≤ sleeper.deadline := by
  let deadlines := s.agenda.sleepers.map Sleeper.deadline ++
    s.tasks.filterMap fun t => Work.deadline? t.2
  have hm : sleeper.deadline ∈ deadlines :=
    List.mem_append_left _ (List.mem_map_of_mem (Agenda.mem_of_find? hf))
  cases hd : deadlines.min? with
  | none => exact absurd (List.min?_eq_none_iff.mp hd) (List.ne_nil_of_mem hm)
  | some d => exact ⟨d, hd, (List.min?_eq_some_iff.mp hd).2 _ hm⟩

/-- The event is a call by the service's user. -/
def Event.isCall : Event → Bool
  | .receive _ => false
  | .endStream => false
  | .answer _ _ => false
  | .pass _ => false
  | .fire _ => false
  | .run _ => false
  | _ => true

/-- All work that can be done is done before a user calls or time passes, and no deadline is
skipped. -/
structure Run.Punctual (r : Run) : Prop where
  calls : ∀ k, (r.event k).isCall = true → (r.state k).IsSettled
  waits : ∀ k n, r.event k = .pass n → (r.state k).IsSettled
  stops : ∀ k n d, r.event k = .pass n → (r.state k).deadline? = some d → (r.state k).now + n ≤ d

end Service

end DocSync
