import DocSync.Proofs.SharedEvents

/-!
Scripts of steps. A step is done about one document, whose sessions and tasks it names by their
numbers among those of the document, or it matters to all documents.
-/

namespace DocSync.Service

open PushState

/-- What is done about a document. -/
inductive Action where
  | openDocument (document : Document) (channel : String)
  | closeDocument
  | change (channel : String) (change : ContentChange)
  | setText (session : Nat) (text : List Char)
  | setContext (session : Nat) (before after : List Char)
  | closeSession (session : Nat)
  | flush (request session : Nat)
  | info (request : Nat) (position : EditorPosition) (use : InfoUse)
  /-- The server answers the call of a task that works for the document. -/
  | answer (task : Nat) (answer : Answer)

inductive Step where
  | act (id : DocumentId) (action : Action)
  | pass (time : Nat)
  | receive (event : ServerEvent)
  | endStream
  | shutdown (request : Nat)
  /-- The service is asked to connect, which it did before. -/
  | connect (request : Nat)
  /-- The server answers the shutdown. -/
  | stopped (result : Except Failure Unit)

/-- The channel and the request that the action names are the document's own. -/
def Action.IsOwn (names : Names) (id : DocumentId) : Action → Prop
  | .openDocument _ channel => names.channel channel = id
  | .change channel _ => names.channel channel = id
  | .flush request _ => names.request request = some id
  | .info request _ _ => names.request request = some id
  | _ => True

def Step.IsOwn (names : Names) : Step → Prop
  | .act id action => action.IsOwn names id
  | .shutdown request => names.request request = none
  | .connect request => names.request request = none
  | _ => True

instance (names : Names) (id : DocumentId) : (a : Action) → Decidable (a.IsOwn names id)
  | .openDocument _ channel => inferInstanceAs (Decidable (names.channel channel = id))
  | .change channel _ => inferInstanceAs (Decidable (names.channel channel = id))
  | .flush request _ => inferInstanceAs (Decidable (names.request request = some id))
  | .info request _ _ => inferInstanceAs (Decidable (names.request request = some id))
  | .closeDocument | .setText _ _ | .setContext _ _ _ | .closeSession _ | .answer _ _ =>
    inferInstanceAs (Decidable True)

instance (names : Names) : (a : Step) → Decidable (a.IsOwn names)
  | .act id action => inferInstanceAs (Decidable (action.IsOwn names id))
  | .shutdown request => inferInstanceAs (Decidable (names.request request = none))
  | .connect request => inferInstanceAs (Decidable (names.request request = none))
  | .pass _ | .receive _ | .endStream | .stopped _ => inferInstanceAs (Decidable True)

/-- The step is done about the document, or matters to all. -/
def Step.concerns (id : DocumentId) : Step → Bool
  | .act other _ => other == id
  | _ => true

def Action.event? (s : Service) (id : DocumentId) : Action → Option Event
  | .openDocument document channel => some (.openDocument id document channel)
  | .closeDocument => some (.closeDocument id)
  | .change channel edits => some (.change channel edits)
  | .setText n text => (s.sessionsOf id)[n]?.map fun h => .setText h text
  | .setContext n before after => (s.sessionsOf id)[n]?.map fun h => .setContext h before after
  | .closeSession n => (s.sessionsOf id)[n]?.map .closeSession
  | .flush request n => (s.sessionsOf id)[n]?.map (.flush request)
  | .info request p use => some (.info request id p use)
  | .answer i a => (s.tasksOf id)[i]?.map fun task => .answer task a

def Work.isShutdown : Work → Bool
  | .shutdown _ => true
  | _ => false

/-- The tasks that wait for the end of the connection. -/
def shutdowns (s : Service) : List Nat :=
  numbers (fun k => (s.work k).any Work.isShutdown) s.nextTask

def Step.event? (s : Service) : Step → Option Event
  | .act id action => action.event? s id
  | .pass time => some (.pass time)
  | .receive event => some (.receive event)
  | .endStream => some .endStream
  | .shutdown request => some (.shutdown request)
  | .connect request => some (.connect request)
  | .stopped result => s.shutdowns.head?.map fun task => .answer task (.stopped result)

def perform (s : Service) (a : Step) : Service :=
  match a.event? s with
  | none => s
  | some e => s.next e

/-- What a step gives back at once. -/
def reply (s : Service) : Step → Option (Except Failure Unit)
  | .act id (.openDocument document channel) =>
    some ((s.openDocument id document channel).2.map fun _ => ())
  | .act id .closeDocument => some (s.closeDocument id).2
  | _ => none

namespace View

def act (v : View) (id : DocumentId) : Action → View
  | .openDocument document channel => v.openDocument id document channel
  | .closeDocument => v.closeDocument
  | .change channel change => v.change id channel change
  | .setText n text => v.edit n fun document => document.setVisible text
  | .setContext n before after => v.edit n fun document => document.setContext before after
  | .closeSession n => v.closeSession n
  | .flush request n => v.flush request n
  | .info request p use => v.info id request p use
  | .answer i a => v.answer id i a

/-- What a step that concerns the document does to its view. -/
def perform (v : View) (id : DocumentId) : Step → View
  | .act _ action => v.act id action
  | .pass time => { v with now := v.now + time }
  | .receive event => v.receive id event
  | .endStream => { v with isListening := false }
  | .shutdown _ => v.shutdown
  | .connect _ => v
  | .stopped _ => v

def reply (v : View) (id : DocumentId) : Step → Option (Except Failure Unit)
  | .act _ (.openDocument _ _) =>
    some (match v.refusal? id with
      | some e => .error e
      | none => .ok ())
  | .act _ .closeDocument => some (if v.owner.isSome then .ok () else .error (.unknownDocument id))
  | _ => none

end View

variable {s : Service} {names : Names} {id other : DocumentId} {a : Action} {b : Step} {e : Event}
  {i n k : Nat}

theorem view_open?_none (hn : (s.sessionsOf id)[n]? = none) :
    (s.view names id).open? n = none := by
  rw [View.open?, view_look?_none hn]
  rfl

theorem view_act (hs : s.Orderly names) (ha : a.IsOwn names id) :
    (s.perform (.act id a)).view names id = (s.view names id).act id a := by
  simp only [perform, Step.event?]
  cases a with
  | openDocument document channel => exact view_openDocument hs document channel
  | closeDocument => exact view_closeDocument hs
  | change channel change => exact view_change hs ha change
  | setText n text =>
    cases hn : (s.sessionsOf id)[n]? with
    | none =>
      simp only [Action.event?, hn, Option.map_none, View.act, View.edit, view_open?_none hn]
    | some h =>
      simp only [Action.event?, hn, Option.map_some]
      exact view_setText hs hn text
  | setContext n before after =>
    cases hn : (s.sessionsOf id)[n]? with
    | none =>
      simp only [Action.event?, hn, Option.map_none, View.act, View.edit, view_open?_none hn]
    | some h =>
      simp only [Action.event?, hn, Option.map_some]
      exact view_setContext hs hn before after
  | closeSession n =>
    cases hn : (s.sessionsOf id)[n]? with
    | none =>
      simp only [Action.event?, hn, Option.map_none, View.act, View.closeSession,
        view_open?_none hn]
    | some h =>
      simp only [Action.event?, hn, Option.map_some]
      exact view_closeSession hs.ticking hn
  | flush request n =>
    cases hn : (s.sessionsOf id)[n]? with
    | none =>
      simp only [Action.event?, hn, Option.map_none, View.act, View.flush, view_look?_none hn]
    | some h =>
      simp only [Action.event?, hn, Option.map_some]
      exact view_flush hs hn ha
  | info request p use => exact view_requestInfo hs ha p use
  | answer i a =>
    cases hi : (s.tasksOf id)[i]? with
    | none =>
      have htask : (s.view names id).tasks[i]? = none := by
        simp only [view, worksOf, List.getElem?_map, hi, Option.map_none]
      simp only [Action.event?, hi, Option.map_none, View.act, View.answer, htask,
        Option.join_none]
    | some task =>
      simp only [Action.event?, hi, Option.map_some]
      exact view_answer hs hi a

theorem Action.touches (he : a.event? s id = some e) (ha : a.IsOwn names id) :
    s.Touches names (some id) e := by
  have hsession {n : Nat} {f : Nat → Event} (he : (s.sessionsOf id)[n]?.map f = some e)
      (hf : ∀ h x, s.session? h = some x → x.id = id → s.Touches names (some id) (f h)) :
      s.Touches names (some id) e := by
    obtain ⟨h, hn, rfl⟩ := Option.map_eq_some_iff.mp he
    obtain ⟨x, hx, hid⟩ := session_of_number hn
    exact hf h x hx hid
  cases a with
  | openDocument => cases he; exact .openDocument ha
  | closeDocument => cases he; exact .closeDocument
  | change => cases he; exact .change ha
  | setText => exact hsession he fun h x hx hid => hid ▸ .setText hx
  | setContext => exact hsession he fun h x hx hid => hid ▸ .setContext hx
  | closeSession => exact hsession he fun h x hx hid => hid ▸ .closeSession hx
  | flush => exact hsession he fun h x hx hid => by subst hid; exact .flush hx ha
  | info => cases he; exact .info ha
  | answer =>
    obtain ⟨task, hi, rfl⟩ := Option.map_eq_some_iff.mp he
    obtain ⟨w, hw, hd⟩ := worksFor_iff.mp (mem_numbers.mp (List.mem_of_getElem? hi)).2
    exact hd ▸ .answer hw

theorem shutdowns_head (hk : s.shutdowns.head? = some k) :
    ∃ request, s.work k = some (.shutdown request) := by
  have hany := (mem_numbers.mp (List.mem_of_mem_head? hk)).2
  cases hw : s.work k with
  | none =>
    rw [hw] at hany
    cases hany
  | some w =>
    rw [hw] at hany
    cases w with
    | shutdown request => exact ⟨request, rfl⟩
    | _ => cases hany

theorem Step.event_cases (he : b.event? s = some e) (hb : b.IsOwn names) :
    (∃ document, s.Touches names document e) ∨ Shared names e := by
  cases b with
  | act other a => exact Or.inl ⟨_, Action.touches he hb⟩
  | pass => cases he; exact Or.inr .pass
  | receive => cases he; exact Or.inr .receive
  | endStream => cases he; exact Or.inr .endStream
  | shutdown => cases he; exact Or.inr (.shutdown hb)
  | connect => cases he; exact Or.inr (.connect hb)
  | stopped result =>
    obtain ⟨task, hk, rfl⟩ := Option.map_eq_some_iff.mp he
    obtain ⟨request, hw⟩ := shutdowns_head hk
    exact Or.inl ⟨_, .answer hw⟩

theorem view_perform (hs : s.Orderly names) (hb : b.IsOwn names) (hc : b.concerns id = true) :
    (s.perform b).view names id = (s.view names id).perform id b := by
  cases b with
  | act other a =>
    obtain rfl := eq_of_beq hc
    exact view_act hs hb
  | pass => rfl
  | receive event => exact view_receive hs event
  | endStream => rfl
  | shutdown request => exact view_requestShutdown hs hb
  | connect request => exact view_requestConnect hs hb
  | stopped result =>
    simp only [Service.perform, Step.event?, View.perform]
    cases hk : s.shutdowns.head? with
    | none => rfl
    | some k =>
      obtain ⟨request, hw⟩ := shutdowns_head hk
      exact view_bystander (.answer hw) hs (Option.some_ne_none id).symm

theorem view_perform_other (hs : s.Orderly names) (hb : b.IsOwn names)
    (hc : b.concerns id = false) : (s.perform b).view names id = s.view names id := by
  cases b with
  | act other a =>
    simp only [Service.perform, Step.event?]
    cases he : a.event? s other with
    | none => rfl
    | some e =>
      refine view_bystander (Action.touches he hb) hs fun heq => ?_
      exact beq_eq_false_iff_ne.mp hc (Option.some.inj heq)
  | pass | receive | endStream | shutdown | connect | stopped => cases hc

theorem view_reply (s : Service) (names : Names) (hc : b.concerns id = true) :
    s.reply b = (s.view names id).reply id b := by
  cases b with
  | act other a =>
    obtain rfl := eq_of_beq hc
    cases a with
    | openDocument document channel =>
      simp only [reply, View.reply]
      rw [view_refusal? s names other document channel]
      cases hb : s.beginOpen other document channel with
      | error error => rw [openDocument_refused hb]; rfl
      | ok p => rw [(openDocument_opens hb names).1]; rfl
    | closeDocument =>
      simp only [reply, View.reply, closeDocument]
      cases ho : s.open? other with
      | none => rw [view_owner_none names ho]; rfl
      | some h => rw [view_owner names ho]; rfl
    | _ => rfl
  | _ => rfl

end DocSync.Service
