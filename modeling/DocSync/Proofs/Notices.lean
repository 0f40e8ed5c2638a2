import DocSync.Proofs.TaskSteps

/-!
What an event tells. The journal only grows, and what an event can add to it is listed once, by
`Tells`: a call by the task that moves, the end of a request, the failure of a change or of an
answer, and marker lists for a snapshot or a new document.
-/

namespace DocSync.Service

variable {s t u : Service} {e : Event} {h k task : Nat} {id : DocumentId} {P Q : Notice → Prop}

/-- The journal grew by notices of some kind. -/
def Adds (P : Notice → Prop) (s t : Service) : Prop :=
  ∃ l, t.journal = l ++ s.journal ∧ ∀ n ∈ l, P n

theorem adds_of_journal (hj : t.journal = s.journal) : Adds P s t :=
  ⟨[], hj, fun _ hn => absurd hn List.not_mem_nil⟩

theorem Adds.refl (s : Service) : Adds P s s := adds_of_journal rfl

theorem Adds.trans (hst : Adds P s t) (htu : Adds P t u) : Adds P s u := by
  obtain ⟨l, hl, hP⟩ := hst
  obtain ⟨m, hm, hQ⟩ := htu
  refine ⟨m ++ l, by rw [hm, hl, List.append_assoc], fun n hn => ?_⟩
  rcases List.mem_append.mp hn with hn | hn
  · exact hQ n hn
  · exact hP n hn

theorem adds_note {n : Notice} (hn : P n) : Adds P s (s.note n) := by
  refine ⟨[n], rfl, fun m hm => ?_⟩
  rw [List.mem_singleton] at hm
  exact hm ▸ hn

theorem Adds.filterMap {α : Type} (hst : Adds P s t) {f : Notice → Option α}
    (hf : ∀ n, P n → f n = none) : t.journal.filterMap f = s.journal.filterMap f := by
  obtain ⟨l, hl, hP⟩ := hst
  have hnone : l.filterMap f = [] :=
    List.filterMap_eq_nil_iff.mpr fun n hn => hf n (hP n hn)
  rw [hl, List.filterMap_append, hnone, List.nil_append]

theorem journal_disarm : (s.disarm h).journal = s.journal := by
  simp only [disarm]
  split <;> rfl

theorem journal_unsubscribe : (s.unsubscribe h).journal = s.journal := by
  simp only [unsubscribe]
  split
  · rfl
  · split <;> rfl

section Marks

variable (hm : ∀ members, P (.running members))

include hm

theorem adds_markBusy (id : DocumentId) : Adds P s (s.markBusy id) := by
  simp only [markBusy]
  split
  · exact ⟨[_], rfl, fun n hn => List.mem_singleton.mp hn ▸ hm _⟩
  · exact .refl s

theorem adds_markIdle (id : DocumentId) : Adds P s (s.markIdle id) := by
  simp only [markIdle]
  split
  · exact ⟨[_], rfl, fun n hn => List.mem_singleton.mp hn ▸ hm _⟩
  · exact .refl s

theorem adds_bump : Adds P s (s.bump h) := by
  simp only [bump]
  split
  · exact .refl s
  · exact (adds_of_journal rfl).trans (adds_markBusy hm _)

theorem adds_syncIn (delay : Nat) : Adds P s (s.syncIn h delay) := by
  refine (adds_bump hm (h := h)).trans (adds_of_journal ?_)
  simp only [syncIn, arm]
  split <;> rfl

theorem adds_edited : Adds P s (s.edited h) :=
  (adds_of_journal (t := { s with wait := s.wait.cancel }) rfl).trans (adds_syncIn hm s.syncDelay)

theorem adds_contentChange (hf : ∀ id message, P (.failed (some id) message))
    (change : ContentChange) : Adds P s (s.contentChange change h) := by
  simp only [contentChange]
  split
  · exact .refl s
  · split
    · exact .refl s
    · split
      · exact adds_note (hf _ _)
      · exact (adds_of_journal rfl).trans (adds_edited hm)

theorem adds_fireChannel (hf : ∀ id message, P (.failed (some id) message)) (name : String)
    (change : ContentChange) : Adds P s (s.fireChannel name change) := by
  simp only [fireChannel]
  generalize (s.channel name).handlers.map Prod.snd = sessions
  induction sessions generalizing s with
  | nil => exact .refl s
  | cons k sessions ih => exact (adds_contentChange hm hf change).trans ih

theorem adds_setText (text : List Char) : Adds P s (s.setText h text) := by
  simp only [setText]
  split
  · exact .refl s
  · split
    · exact .refl s
    · exact (adds_of_journal rfl).trans (adds_edited hm)

theorem adds_setContext (before after : List Char) :
    Adds P s (s.setContext h before after) := by
  simp only [setContext]
  split
  · exact .refl s
  · split
    · exact .refl s
    · exact (adds_of_journal rfl).trans (adds_syncIn hm _)

theorem adds_closeSession : Adds P s (s.closeSession h) := by
  simp only [closeSession]
  split
  · exact .refl s
  · next x _ =>
    split
    · exact .refl s
    · have hj : (((s.setSession h { x with isClosed := true }).unsubscribe h).disarm h).journal =
          s.journal := journal_disarm.trans journal_unsubscribe
      split
      · exact adds_of_journal hj
      · exact (adds_of_journal hj).trans ((adds_of_journal rfl).trans (adds_markIdle hm _))

theorem adds_retireEach (documents : List (DocumentId × Nat)) :
    Adds P s (s.retireEach documents) := by
  simp only [retireEach]
  induction documents generalizing s with
  | nil => exact .refl s
  | cons e documents ih =>
    have hr : Adds P s (s.retire e.1 e.2) := (adds_closeSession hm).trans (adds_of_journal rfl)
    exact hr.trans ih

theorem adds_closeDocument (id : DocumentId) : Adds P s (s.closeDocument id).1 := by
  simp only [closeDocument]
  split
  · exact .refl s
  · next k _ =>
    let u : Service := { s with registry := Keyed.remove id s.registry }
    have hclose : Adds P u (u.closeSession k) := adds_closeSession hm
    exact (adds_of_journal rfl).trans (hclose.trans (adds_of_journal rfl))

theorem adds_beginOpen {document : Document} {channel : String}
    (hb : s.beginOpen id document channel = .ok (t, h)) : Adds P s t := by
  obtain ⟨_, _, rfl, opening, rfl⟩ := beginOpen_ok hb
  exact (adds_of_journal rfl).trans (adds_syncIn hm 0)

theorem adds_finishOpen (hs : ∀ update, P (.markers update)) : Adds P s (s.finishOpen h).1 := by
  simp only [finishOpen]
  split
  · exact .refl s
  · split
    · exact (adds_of_journal rfl).trans (adds_closeSession hm)
    · exact ⟨[_], rfl, fun n hn => List.mem_singleton.mp hn ▸ hs _⟩

theorem adds_openDocument (hs : ∀ update, P (.markers update)) (document : Document)
    (channel : String) : Adds P s (s.openDocument id document channel).1 := by
  simp only [openDocument]
  split
  · exact .refl s
  · next hb => exact (adds_beginOpen hm hb).trans (adds_finishOpen hm hs)

theorem adds_completePush (hf : ∀ id message, P (.failed (some id) message)) (t : Ticket)
    (result : Except Failure Unit) : Adds P s (s.completePush h t result).1 := by
  simp only [completePush]
  split
  · exact .refl s
  · split
    · exact .refl s
    · split
      · split
        · exact (adds_of_journal rfl).trans (adds_markIdle hm _)
        · exact .refl s
      · exact (adds_of_journal rfl).trans (adds_note (hf _ _))

end Marks

section Tasks

variable (hm : ∀ members, P (.running members)) (hc : ∀ c, P (.called task c))
  (hf : ∀ request o, P (.finished request o))

include hf

theorem adds_finish (request : Nat) (o : Outcome) : Adds P s (s.finish task request o) :=
  (adds_of_journal rfl).trans (adds_note (hf request o))

include hc

theorem adds_afterPush (result : Except Failure Unit) (after : After) :
    Adds P s (s.afterPush task result after) := by
  cases after with
  | nothing => exact .refl s
  | flush request => exact adds_finish hf request _
  | completion request h id p =>
    simp only [afterPush]
    split
    · exact adds_finish hf request _
    · exact .refl s
    · exact (adds_of_journal rfl).trans (adds_note (hc _))

theorem adds_push (after : After) : Adds P s (s.push task h after) := by
  rcases push_cases s task h after with ⟨x, _, _, _, he⟩ | ⟨_, he⟩ | ⟨x, _, ⟨_, he⟩ | ⟨_, _, he⟩⟩
  · rw [he]
    exact (adds_of_journal rfl).trans (adds_note (hc _))
  · rw [he]
    exact .refl s
  · rw [he]
    exact adds_afterPush hc hf _ _
  · rw [he]
    exact adds_afterPush hc hf _ _

include hm

theorem adds_flush (after : After) : Adds P s (s.flush task h after) := by
  rcases flush_cases s task h after with ⟨x, _, _, he⟩ | ⟨_, he⟩ | ⟨x, _, _, he⟩
  · rw [he]
    exact (adds_of_journal journal_disarm).trans ((adds_bump hm).trans (adds_push hc hf _))
  · rw [he]
    exact .refl s
  · rw [he]
    exact adds_afterPush hc hf _ _

theorem adds_run (w : Work) : Adds P s (s.run task w) := by
  cases w with
  | start h => exact adds_push hc hf _
  | debounce request h id p g d =>
    change Adds P s (s.runDebounce task request h id p g d)
    rcases runDebounce_cases s task request h id p g d with ⟨_, _, he⟩ | ⟨_, _, he⟩ | ⟨_, _, he⟩
    · rw [he]
      exact .refl s
    · rw [he]
      exact (adds_of_journal rfl).trans (adds_finish hf request _)
    · rw [he]
      exact (adds_of_journal rfl).trans (adds_flush hm hc hf _)
  | connectTurn request =>
    simp only [run, runConnectTurn]
    split
    · exact adds_finish hf request _
    · exact .refl s
    · exact (adds_of_journal rfl).trans (adds_note (hc _))
  | sync | complete | info | connect | shutdown => exact .refl s

theorem adds_answer (hfail : ∀ id message, P (.failed (some id) message)) (w : Work) (a : Answer)
    (ha : ∀ h t after result, w = .sync h t after → a = .synced result →
      P (.answered task h t.version (isOk result))) : Adds P s (s.answer task w a) := by
  have hreport (id : DocumentId) (request : Nat) (e : Failure) (o : Outcome) :
      Adds P s (s.fail task request id e o) :=
    (adds_note (hfail id e.message)).trans (adds_finish hf request o)
  simp only [Service.answer]
  split
  · next h t after result =>
    have hnote := adds_note (s := s) (ha h t after result rfl rfl)
    exact hnote.trans ((adds_completePush hm hfail t result).trans (adds_afterPush hc hf _ _))
  · exact hreport _ _ _ _
  · exact adds_finish hf _ _
  · exact hreport _ _ _ _
  · exact adds_finish hf _ _
  · next request result stream =>
    simp only [completeConnect]
    split
    · exact (adds_of_journal rfl).trans (adds_finish hf request _)
    · have hsubscribe := adds_note (s := s) (hc .subscribe)
      split
      · exact hsubscribe.trans ((adds_of_journal rfl).trans (adds_finish hf request _))
      · exact hsubscribe.trans ((adds_of_journal rfl).trans (adds_finish hf request _))
  · exact adds_finish hf _ _
  · exact .refl s

end Tasks

/-- What an event can tell. -/
inductive Tells (s : Service) : Event → Notice → Prop where
  | marked {e : Event} {members : List DocumentId} : Tells s e (.running members)
  | called {e : Event} {task : Nat} {c : Call} (ha : s.actor e = some task) :
      Tells s e (.called task c)
  | finished {e : Event} {task request : Nat} {o : Outcome} (ha : s.actor e = some task) :
      Tells s e (.finished request o)
  | answered {task h : Nat} {t : Ticket} {after : After} {a : Answer} {accepted : Bool}
      (hw : s.work task = some (.sync h t after)) :
      Tells s (.answer task a) (.answered task h t.version accepted)
  | refused {task : Nat} {a : Answer} {id : DocumentId} {message : String} :
      Tells s (.answer task a) (.failed (some id) message)
  | rejected {name : String} {change : ContentChange} {id : DocumentId} {message : String} :
      Tells s (.change name change) (.failed (some id) message)
  | failed {message : String} : Tells s (.receive (.error message)) (.failed none message)
  | snapshot {messages : List ServerMessage} :
      Tells s (.receive (.allMessages messages)) (.snapshot messages)
  | shown {messages : List ServerMessage} {update : MarkerUpdate} :
      Tells s (.receive (.allMessages messages)) (.markers update)
  | opened {id : DocumentId} {document : Document} {channel : String} {update : MarkerUpdate} :
      Tells s (.openDocument id document channel) (.markers update)
  | registered {h : Nat} {update : MarkerUpdate} : Tells s (.finishOpen h) (.markers update)

theorem tells_receive (event : ServerEvent) :
    Adds (Tells s (.receive event)) s (s.receive event) := by
  simp only [receive]
  split
  · split
    · next messages =>
      have hmarkers (updates : List MarkerUpdate) (t : Service) :
          Adds (Tells s (.receive (.allMessages messages))) t
            (updates.foldl (fun s u => s.note (.markers u)) t) := by
        induction updates generalizing t with
        | nil => exact .refl t
        | cons u updates ih => exact (adds_note .shown).trans (ih _)
      exact (adds_of_journal rfl).trans ((adds_note .snapshot).trans (hmarkers _ _))
    · exact adds_note .failed
  · exact .refl s

theorem tells_next (s : Service) (e : Event) : Adds (Tells s e) s (s.next e) := by
  have hm {e : Event} : ∀ members, Tells s e (.running members) := fun _ => .marked
  cases e with
  | openDocument id document channel => exact adds_openDocument hm (fun _ => .opened) _ _
  | beginOpen id document channel =>
    simp only [next]
    split
    · next hb => exact adds_beginOpen hm hb
    · exact .refl s
  | finishOpen h =>
    simp only [next]
    split
    · exact adds_finishOpen hm fun _ => .registered
    · exact .refl s
  | closeDocument id => exact adds_closeDocument hm id
  | change name change => exact adds_fireChannel hm (fun _ _ => .rejected) name change
  | setText h text => exact adds_setText hm text
  | setContext h before after => exact adds_setContext hm before after
  | closeSession h => exact adds_closeSession hm
  | flush request h =>
    exact (adds_of_journal (t := s.fresh.1) rfl).trans
      (adds_flush hm (fun _ => .called rfl) (fun _ _ => .finished rfl) _)
  | complete request id p =>
    simp only [next, requestCompletion]
    split
    · exact adds_note (.finished rfl)
    · exact adds_of_journal rfl
  | info request id p use =>
    simp only [next, requestInfo]
    split
    · exact adds_note (.finished rfl)
    · split
      · exact .refl s
      · exact (adds_of_journal rfl).trans (adds_note (.called rfl))
  | connect request =>
    simp only [next, requestConnect]
    split
    · exact adds_note (.finished rfl)
    · split
      · exact adds_note (.finished rfl)
      · exact adds_of_journal rfl
      · split
        · exact adds_of_journal rfl
        · exact (adds_of_journal rfl).trans (adds_note (.called rfl))
  | shutdown request =>
    simp only [next, requestShutdown]
    split
    · exact adds_note (.finished rfl)
    · let u : Service := { s with isStopped := true, wait := s.wait.cancel, registry := [] }
      have hr : Adds (Tells s (.shutdown request)) u (u.retireEach s.registry) :=
        adds_retireEach hm _
      have hn : (u.retireEach s.registry).nextTask = s.nextTask :=
        (ledger_retireEach (s := u) s.registry).2
      refine (adds_of_journal rfl).trans (hr.trans ?_)
      exact (adds_of_journal rfl).trans (adds_note (.called (congrArg some hn.symm)))
  | receive event => exact tells_receive event
  | endStream => exact adds_of_journal rfl
  | answer task a =>
    simp only [next]
    split
    · exact .refl s
    · next w hw =>
      refine adds_answer hm (fun _ => .called rfl) (fun _ _ => .finished rfl)
        (fun _ _ => .refused) w a ?_
      rintro h t after result rfl rfl
      exact .answered hw
  | pass time => exact adds_of_journal rfl
  | fire i =>
    simp only [next]
    split
    · exact .refl s
    · split
      · simp only [fire]
        split
        · exact adds_of_journal rfl
        · split
          · exact adds_of_journal rfl
          · exact adds_of_journal rfl
      · exact .refl s
  | run task =>
    simp only [next]
    split
    · exact .refl s
    · exact adds_run hm (fun _ => .called rfl) (fun _ _ => .finished rfl) _

end DocSync.Service
