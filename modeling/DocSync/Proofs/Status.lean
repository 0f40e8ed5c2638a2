import DocSync.Proofs.TaskSteps

/-!
What callers see of a service: its open documents, its marker lists, whether it is connected or
stopped, its completion debounce, and who is attached to the channels of changes. What each event
does to it is listed once, by `StatusMoves`. A document that is not open has no markers.
-/

namespace DocSync.Service

variable {place : Place} {s t : Service} {e : Event} {h task : Nat} {x : Session} {id : DocumentId}

structure Status where
  registry : List (DocumentId × Nat)
  diagnostics : DiagnosticsStore
  isStopped : Bool
  isConnected : Bool
  wait : Wait
  channels : List (String × Signal Nat)

def status (s : Service) : Status :=
  ⟨s.registry, s.diagnostics, s.isStopped, s.isConnected, s.wait, s.channels⟩

theorem status_of_outline (ho : t.outline = s.outline) : t.status = s.status := by
  have ht := congrArg status ho
  exact ht

theorem status_afterPush (result : Except Failure Unit) (after : After) :
    (s.afterPush task result after).status = s.status := by
  cases after with
  | nothing => rfl
  | flush => rfl
  | completion request h id p =>
    simp only [afterPush]
    split <;> rfl

theorem status_push (after : After) : (s.push task h after).status = s.status := by
  rcases push_cases s task h after with ⟨_, _, _, _, he⟩ | ⟨_, he⟩ | ⟨_, _, ⟨_, he⟩ | ⟨_, _, he⟩⟩
  · exact he ▸ rfl
  · exact he ▸ rfl
  · exact he ▸ status_afterPush _ _
  · exact he ▸ status_afterPush _ _

theorem status_flush (after : After) : (s.flush task h after).status = s.status := by
  rcases flush_cases s task h after with ⟨_, _, _, he⟩ | ⟨_, he⟩ | ⟨_, _, _, he⟩
  · rw [he, status_push]
    exact status_of_outline outline_prepare
  · exact he ▸ rfl
  · exact he ▸ status_afterPush _ _

inductive StatusMoves (s : Service) : Event → Status → Prop where
  | kept {e : Event} : StatusMoves s e s.status
  /-- The text of a document changed. -/
  | edited {e : Event} : StatusMoves s e { s.status with wait := s.wait.cancel }
  | opened {id : DocumentId} {document : Document} {channel : String} {h : Nat} {shift : LineShift}
      {channels : List (String × Signal Nat)} (hs : s.isStopped = false) (ho : s.open? id = none) :
      StatusMoves s (.openDocument id document channel)
        { s.status with
          registry := s.registry ++ [(id, h)]
          diagnostics := (s.diagnostics.publish id shift).1
          channels := channels }
  | left {h : Nat} {channels : List (String × Signal Nat)} :
      StatusMoves s (.closeSession h) { s.status with channels := channels }
  | closed {id : DocumentId} {channels : List (String × Signal Nat)} :
      StatusMoves s (.closeDocument id)
        { s.status with
          registry := Keyed.remove id s.registry
          diagnostics := s.diagnostics.forget id
          channels := channels }
  | stopped {request : Nat} {channels : List (String × Signal Nat)} (hs : s.isStopped = false) :
      StatusMoves s (.shutdown request)
        ⟨[], s.registry.foldl (fun d e => d.forget e.1) s.diagnostics, true, false, s.wait.cancel,
          channels⟩
  | told {messages : List ServerMessage} :
      StatusMoves s (.receive (.allMessages messages))
        { s.status with
          diagnostics := (s.diagnostics.replaceSnapshot messages s.shownDocuments).1 }
  | connected {task request : Nat} (hw : s.work task = some (.connect request)) :
      StatusMoves s (.answer task (.connected (.ok ()) (.ok ())))
        { s.status with isConnected := true }
  | started {request h : Nat} {id : DocumentId} {p : EditorPosition} (hr : s.require id = .ok h) :
      StatusMoves s (.complete request id p) { s.status with wait := s.wait.start.1 }
  | rejected {task request h g d : Nat} {id : DocumentId} {p : EditorPosition} {reason : WaitError}
      (hw : s.work task = some (.debounce request h id p g d))
      (hr : s.wait.rejections.lookup g = some reason) :
      StatusMoves s (.run task)
        { s.status with
          wait := { s.wait with rejections := Keyed.remove g s.wait.rejections } }
  | elapsed {task request h g d : Nat} {id : DocumentId} {p : EditorPosition}
      (hw : s.work task = some (.debounce request h id p g d))
      (hr : s.wait.rejections.lookup g = none) (hd : d ≤ s.now) :
      StatusMoves s (.run task) { s.status with wait := s.wait.elapse g }

theorem status_of_outlineKept (ho : s.OutlineKept t) : StatusMoves s e t.status := by
  rcases ho with ho | ho
  · rw [status_of_outline ho]
    exact .kept
  · rw [status_of_outline (s := { s with wait := s.wait.cancel }) ho]
    exact .edited

theorem status_run {w : Work} (hw : s.work task = some w) :
    StatusMoves s (.run task) (s.run task w).status := by
  cases w with
  | start h =>
    change StatusMoves s _ (s.push task h .nothing).status
    rw [status_push]
    exact .kept
  | debounce request h id p g d =>
    change StatusMoves s _ (s.runDebounce task request h id p g d).status
    rcases runDebounce_cases s task request h id p g d with
      ⟨_, _, he⟩ | ⟨_, hr, he⟩ | ⟨hr, hd, he⟩
    · rw [he]
      exact .kept
    · rw [he]
      exact .rejected hw hr
    · rw [he, status_flush]
      exact .elapsed hw hr hd
  | connectTurn request =>
    simp only [run, runConnectTurn]
    split <;> exact .kept
  | sync | complete | info | connect | shutdown => exact .kept

theorem status_retire (id : DocumentId) :
    (s.retire id h).status =
      { s.status with
        diagnostics := s.diagnostics.forget id
        channels := (s.retire id h).channels } := by
  have ht := congrArg status (outline_retire (s := s) (h := h) id)
  exact ht

theorem status_retireEach (documents : List (DocumentId × Nat)) :
    (s.retireEach documents).status =
      { s.status with
        diagnostics := documents.foldl (fun d e => d.forget e.1) s.diagnostics
        channels := (s.retireEach documents).channels } := by
  simp only [retireEach]
  induction documents generalizing s with
  | nil => rfl
  | cons e documents ih =>
    have hr := status_retire (s := s) (h := e.2) e.1
    have hd := congrArg Status.diagnostics hr
    change (s.retire e.1 e.2).diagnostics = s.diagnostics.forget e.1 at hd
    rw [List.foldl_cons, ih, hd, hr]
    rfl

theorem status_answer {w : Work} (hw : s.work task = some w) (a : Answer) :
    StatusMoves s (.answer task a) (s.answer task w a).status := by
  simp only [Service.answer]
  split
  · next h t after result =>
    have ho := outline_completePush (h := h) t result
      (s := s.note (.answered task h t.version (isOk result)))
    have hs : (s.note (.answered task h t.version (isOk result))).status = s.status := rfl
    rw [status_afterPush, status_of_outline ho, hs]
    exact .kept
  · exact .kept
  · exact .kept
  · exact .kept
  · exact .kept
  · next request result stream =>
    simp only [completeConnect]
    split
    · exact .kept
    · split
      · exact .kept
      · exact .connected hw
  · exact .kept
  · exact .kept

theorem status_beginOpen {document : Document} {channel : String}
    (hb : s.beginOpen id document channel place = .ok (t, h)) :
    s.isStopped = false ∧ s.open? id = none ∧
      t.status = { s.status with channels := t.channels } ∧
      ∃ x, t.session? h = some x ∧ x.id = id := by
  have hs : s.isStopped = false := by
    simp only [beginOpen] at hb
    split at hb
    · cases hb
    · next hs => simpa using hs
  obtain ⟨_, ho, rfl, opening, rfl⟩ := beginOpen_ok hb
  let y := Session.opened id document channel (s.channel channel).nextId
  let channels := Keyed.put channel ((s.channel channel).attach s.sessions.length).1 s.channels
  let u : Service :=
    { s with sessions := s.sessions ++ [y], opening := opening, channels := channels }
  have hy : u.session? s.sessions.length = some y := by simp [u, session?]
  have ht : (u.syncIn s.sessions.length 0 place).status = u.status :=
    status_of_outline (outline_syncIn 0 place)
  have hc := congrArg Status.channels ht
  change (u.syncIn s.sessions.length 0 place).channels = channels at hc
  refine ⟨hs, ho, by rw [ht, hc]; rfl, ?_⟩
  have hp := congrArg (fun v => v.session s.sessions.length) (pushState_syncIn hy 0 place)
  exact ⟨_, hp.trans (Function.update_self _ _ _), rfl⟩

theorem status_finishOpen (hx : s.session? h = some x) (ho : s.open? x.id = none) :
    (s.finishOpen h).1.status =
      { s.status with
        registry := s.registry ++ [(x.id, h)]
        diagnostics := (s.diagnostics.publish x.id x.document.shift).1 } := by
  have ho' : ({ s with opening := s.opening.erase h } : Service).open? x.id = none := ho
  simp only [finishOpen]
  simp only [hx, ho', Option.isSome_none, Bool.false_eq_true, ↓reduceIte]
  rfl

theorem status_tell (updates : List MarkerUpdate) :
    (updates.foldl (fun s u => s.note (.markers u)) s).status = s.status := by
  induction updates generalizing s with
  | nil => rfl
  | cons u updates ih => exact ih

theorem status_receive (event : ServerEvent) :
    StatusMoves s (.receive event) (s.receive event).status := by
  simp only [receive]
  split
  · split
    · rw [status_tell]
      exact .told
    · exact .kept
  · exact .kept

theorem status_next (he : e.isWhole = true) (place : Place := .inside) :
    StatusMoves s e (s.next e place).status := by
  have hkept {t : Service} (ht : t.status = s.status) : StatusMoves s e t.status := by
    rw [ht]
    exact .kept
  cases e with
  | openDocument id document channel =>
    simp only [next, openDocument]
    split
    · exact .kept
    · next t h hb =>
      obtain ⟨hs, ho, ht, x, hx, rfl⟩ := status_beginOpen hb
      have hreg : t.registry = s.registry := congrArg Status.registry ht
      have hdiag : t.diagnostics = s.diagnostics := congrArg Status.diagnostics ht
      have hopen : t.open? x.id = none := by
        rw [open?, hreg]
        exact ho
      rw [status_finishOpen hx hopen, ht, hreg, hdiag]
      exact .opened hs ho
  | beginOpen | finishOpen => cases he
  | closeDocument id =>
    simp only [next, closeDocument]
    split
    · exact .kept
    · rw [status_retire]
      exact .closed
  | change => exact status_of_outlineKept (outlineKept_fireChannel _ _ place)
  | setText => exact status_of_outlineKept (outlineKept_setText _ place)
  | setContext => exact hkept (status_of_outline (outline_setContext _ _ place))
  | closeSession h =>
    have hst := status_of_outline (s := { s with channels := (s.closeSession h).channels })
      (outline_closeSession (s := s) (h := h))
    simp only [next]
    rw [hst]
    exact .left
  | flush => exact hkept (status_flush (s := s.fresh.1) _)
  | complete =>
    simp only [next, requestCompletion]
    split
    · exact .kept
    · next hr => exact .started hr
  | info =>
    refine hkept ?_
    simp only [next, requestInfo]
    split
    · rfl
    · split <;> rfl
  | connect =>
    refine hkept ?_
    simp only [next, requestConnect]
    split
    · rfl
    · split
      · rfl
      · rfl
      · split <;> rfl
  | shutdown request =>
    simp only [next, requestShutdown]
    split
    · exact .kept
    · next hs =>
      have hr := status_retireEach s.registry
        (s := { s with isStopped := true, wait := s.wait.cancel, registry := [] })
      change StatusMoves s (.shutdown request)
        { (Service.retireEach _ s.registry).status with isConnected := false }
      rw [hr]
      exact .stopped (by simpa using hs)
  | receive event => exact status_receive event
  | endStream => exact .kept
  | answer task a =>
    simp only [next]
    split
    · exact .kept
    · next hw => exact status_answer hw a
  | pass => exact .kept
  | fire i =>
    refine hkept ?_
    simp only [next]
    split
    · rfl
    · split
      · simp only [fire]
        split
        · rfl
        · split <;> rfl
      · rfl
  | run task =>
    simp only [next]
    split
    · exact .kept
    · next hw => exact status_run hw

/-- Only open documents have marker lists. -/
def Status.Listed (v : Status) : Prop :=
  v.diagnostics.markers.map Prod.fst ⊆ v.registry.map Prod.fst

theorem keys_put_subset {α : Type} {id : DocumentId} {a : α} {entries : List (DocumentId × α)}
    {ids : List DocumentId} (hid : id ∈ ids) (hs : entries.map Prod.fst ⊆ ids) :
    (Keyed.put id a entries).map Prod.fst ⊆ ids := by
  intro k hk
  obtain ⟨f, hf, rfl⟩ := List.mem_map.mp hk
  rcases Keyed.mem_put hf with rfl | hf
  · exact hid
  · exact hs (List.mem_map_of_mem hf)

theorem publishEach_subset {d : DiagnosticsStore} {shown : List (DocumentId × LineShift)}
    {ids : List DocumentId} (hshown : shown.map Prod.fst ⊆ ids)
    (hd : d.markers.map Prod.fst ⊆ ids) :
    (d.publishEach shown).1.markers.map Prod.fst ⊆ ids := by
  induction shown generalizing d with
  | nil => exact hd
  | cons f shown ih =>
    rw [List.map_cons] at hshown
    obtain ⟨hf, hshown⟩ := List.cons_subset.mp hshown
    exact ih hshown (keys_put_subset hf hd)

theorem shownDocuments_subset (s : Service) :
    s.shownDocuments.map Prod.fst ⊆ s.registry.map Prod.fst := by
  intro id hid
  obtain ⟨f, hf, rfl⟩ := List.mem_map.mp hid
  obtain ⟨⟨k, h⟩, hm, he⟩ := List.mem_filterMap.mp hf
  obtain ⟨x, _, rfl⟩ := Option.map_eq_some_iff.mp he
  exact List.mem_map_of_mem hm

theorem mem_keys_remove {α : Type} {id k : DocumentId} {entries : List (DocumentId × α)} :
    k ∈ (Keyed.remove id entries).map Prod.fst ↔ k ∈ entries.map Prod.fst ∧ k ≠ id := by
  simp only [Keyed.remove, List.mem_map, List.mem_filter, Bool.not_eq_eq_eq_not, Bool.not_true,
    beq_eq_false_iff_ne]
  constructor
  · rintro ⟨f, ⟨hf, hne⟩, rfl⟩
    exact ⟨⟨f, hf, rfl⟩, hne⟩
  · rintro ⟨⟨f, hf, rfl⟩, hne⟩
    exact ⟨f, ⟨hf, hne⟩, rfl⟩

theorem mem_keys_forget {documents : List (DocumentId × Nat)} {d : DiagnosticsStore}
    {k : DocumentId}
    (hk : k ∈ (documents.foldl (fun d e => d.forget e.1) d).markers.map Prod.fst) :
    k ∈ d.markers.map Prod.fst ∧ k ∉ documents.map Prod.fst := by
  induction documents generalizing d with
  | nil => exact ⟨hk, List.not_mem_nil⟩
  | cons f documents ih =>
    obtain ⟨hk, hn⟩ := ih hk
    obtain ⟨hk, hne⟩ := mem_keys_remove.mp hk
    refine ⟨hk, ?_⟩
    rw [List.map_cons, List.mem_cons]
    exact not_or.mpr ⟨hne, hn⟩

theorem forget_all {d : DiagnosticsStore} {documents : List (DocumentId × Nat)}
    (hd : d.markers.map Prod.fst ⊆ documents.map Prod.fst) :
    (documents.foldl (fun d e => d.forget e.1) d).markers = [] := by
  refine List.eq_nil_iff_forall_not_mem.mpr fun f hf => ?_
  obtain ⟨hk, hn⟩ := mem_keys_forget (List.mem_map_of_mem hf)
  exact hn (hd hk)

theorem StatusMoves.listed {v : Status} (hm : StatusMoves s e v) (hs : s.status.Listed) :
    v.Listed := by
  cases hm with
  | kept | edited | left | connected | started | rejected | elapsed => exact hs
  | opened =>
    simp only [Status.Listed, DiagnosticsStore.publish, List.map_append]
    refine keys_put_subset (by simp) fun k hk => ?_
    exact List.mem_append_left _ (hs hk)
  | @closed id =>
    intro k hk
    obtain ⟨hk, hne⟩ := mem_keys_remove.mp hk
    exact mem_keys_remove.mpr ⟨hs hk, hne⟩
  | stopped =>
    have hnil := forget_all hs
    intro k hk
    change k ∈ (s.registry.foldl (fun d e => d.forget e.1) s.diagnostics).markers.map _ at hk
    change (s.registry.foldl (fun d e => d.forget e.1) s.diagnostics).markers = [] at hnil
    rw [hnil] at hk
    cases hk
  | told => exact publishEach_subset (shownDocuments_subset s) hs

end DocSync.Service
