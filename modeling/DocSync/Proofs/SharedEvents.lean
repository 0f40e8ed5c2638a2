import DocSync.Proofs.DocumentTurns

/-!
What an event that matters to all documents shows of one of them: the clock moves, a notification
comes, the stream of notifications ends, the service shuts down or is asked to connect again.
-/

namespace DocSync

variable {κ α β : Type} [DecidableEq κ]

theorem filterMap_key {entries : List (κ × α)} (hn : (entries.map Prod.fst).Nodup) (k : κ)
    (f : κ → α → β) : (entries.filterMap fun e => if e.1 = k then some (f e.1 e.2) else none) =
      ((entries.lookup k).map (f k)).toList := by
  induction entries with
  | nil => rfl
  | cons e entries ih =>
    obtain ⟨hnot, hn⟩ := List.nodup_cons.mp hn
    have hrest := ih hn
    rcases e with ⟨l, a⟩
    rw [List.filterMap_cons, Keyed.lookup_cons_ite]
    by_cases hk : l = k
    · subst hk
      rw [Keyed.lookup_eq_none hnot] at hrest
      simp only [if_true, hrest]
      rfl
    · simp only [if_neg hk, if_neg (Ne.symm hk), hrest]

namespace Service

open PushState

variable {s t : Service} {names : Names} {id other : DocumentId} {h n request : Nat} {x : Session}

namespace View

/-- What is seen of the session that owns the document. -/
def shown? (v : View) : Option Look := v.owner.bind v.look?

def snapshot (v : View) (id : DocumentId) (messages : List ServerMessage) : View :=
  let v := { v with messages := messages, news := .snapshot messages :: v.news }
  match v.shown? with
  | none => v
  | some l =>
    let markers := DiagnosticsStore.place ⟨messages, []⟩ id l.document.shift
    { v with markers := some markers, news := .markers markers :: v.news }

def receive (v : View) (id : DocumentId) (event : ServerEvent) : View :=
  if v.isListening then
    match event with
    | .allMessages messages => v.snapshot id messages
    | .error message => v.tell [.failed none message]
  else v

/-- The service stops, and nobody owns the document any more. -/
def leave (v : View) : View := { v with isStopped := true, owner := none }

def shutdown (v : View) : View :=
  if v.isStopped then v
  else { v.closeDocument with isStopped := true, isConnected := false, isListening := false }

end View

theorem lookup_shownDocuments (hs : s.Orderly names) (id : DocumentId) :
    s.shownDocuments.lookup id = (s.view names id).shown?.map fun l => l.document.shift := by
  have hkeys := shownDocuments_keys hs.registry hs.registered
  cases ho : s.open? id with
  | none =>
    rw [View.shown?, view_owner_none names ho]
    refine Keyed.lookup_eq_none ?_
    rw [hkeys]
    intro hm
    have hsome : (s.open? id).isSome = true := Keyed.lookup_isSome_iff.mpr hm
    rw [ho] at hsome
    cases hsome
  | some h =>
    obtain ⟨hn, x, hx, _⟩ := hs.owner ho
    rw [View.shown?, view_owner names ho, Option.bind_some, view_look? hn hx]
    exact Keyed.lookup_of_mem (hkeys ▸ hs.registry)
      ((mem_shownDocuments hs.registry).mpr ⟨h, x, ho, hx, rfl⟩)

theorem tell_eq (updates : List MarkerUpdate) :
    updates.foldl (fun s u => s.note (.markers u)) s =
      { s with journal := (updates.map Notice.markers).reverse ++ s.journal } := by
  induction updates generalizing s with
  | nil => rfl
  | cons u updates ih =>
    rw [List.foldl_cons, ih, List.map_cons, List.reverse_cons, List.append_assoc]
    rfl

theorem view_snapshot (hs : s.Orderly names) (hl : s.isListening = true)
    (messages : List ServerMessage) :
    (s.receive (.allMessages messages)).view names id =
      (s.view names id).snapshot id messages := by
  have hkeys := shownDocuments_keys hs.registry hs.registered
  have hnodup : (s.shownDocuments.map Prod.fst).Nodup := hkeys ▸ hs.registry
  have hlookup := lookup_shownDocuments hs id
  let d : DiagnosticsStore := { s.diagnostics with messages := messages }
  obtain ⟨hmessages, hupdates⟩ : _ ∧ (d.publishEach s.shownDocuments).2 = _ :=
    DiagnosticsStore.publishEach_updates
  have hreceive : s.receive (.allMessages messages) =
      { s with
        diagnostics := (d.publishEach s.shownDocuments).1
        journal := ((d.publishEach s.shownDocuments).2.map Notice.markers).reverse ++
          .snapshot messages :: s.journal } := by
    simp only [receive, hl, ↓reduceIte]
    exact tell_eq _
  have hnews : (((d.publishEach s.shownDocuments).2.map Notice.markers).reverse ++
      .snapshot messages :: s.journal).filterMap (Notice.news? names id) =
        ((s.shownDocuments.lookup id).map fun shift => News.markers (d.place id shift)).toList ++
          .snapshot messages :: s.news names id := by
    have hown := filterMap_key hnodup id fun id shift => News.markers (d.place id shift)
    have hreverse (o : Option News) : o.toList.reverse = o.toList := by
      cases o <;> rfl
    rw [List.filterMap_append, List.filterMap_reverse, hupdates, List.map_map,
      List.filterMap_map, ← hreverse, ← hown]
    rfl
  have hview : (s.receive (.allMessages messages)).view names id =
      { s.view names id with
        messages := messages
        markers := (d.publishEach s.shownDocuments).1.markers.lookup id
        news := ((s.shownDocuments.lookup id).map fun shift =>
          News.markers (d.place id shift)).toList ++ .snapshot messages :: s.news names id } := by
    rw [hreceive, ← hnews]
    simp only [view, hmessages]
    rfl
  have hshown : { s.view names id with
      messages := messages
      news := .snapshot messages :: s.news names id }.shown? = (s.view names id).shown? := rfl
  have hpublish : (d.publishEach s.shownDocuments).1.markers.lookup id =
      match (s.view names id).shown? with
      | none => (s.view names id).markers
      | some l => some (d.place id l.document.shift) := by
    cases hv : (s.view names id).shown? with
    | none =>
      rw [hv, Option.map_none] at hlookup
      refine DiagnosticsStore.lookup_publishEach_of_notMem fun hm => ?_
      have hsome := Keyed.lookup_isSome_iff.mpr hm
      rw [hlookup] at hsome
      cases hsome
    | some l =>
      rw [hv, Option.map_some] at hlookup
      exact DiagnosticsStore.lookup_publishEach hnodup (Keyed.mem_of_lookup hlookup)
  rw [hview, hlookup, hpublish]
  simp only [View.snapshot]
  change _ = match (s.view names id).shown? with
    | none => _
    | some l => _
  cases (s.view names id).shown? <;> rfl

theorem view_receive (hs : s.Orderly names) (event : ServerEvent) :
    (s.receive event).view names id = (s.view names id).receive id event := by
  have hlistening : (s.view names id).isListening = s.isListening := rfl
  simp only [View.receive, hlistening]
  cases hl : s.isListening with
  | false =>
    have hsame : s.receive event = s := by
      simp only [receive, hl, Bool.false_eq_true, ↓reduceIte]
    rw [hsame]
    rfl
  | true =>
    cases event with
    | allMessages messages => exact view_snapshot hs hl messages
    | error message =>
      have hreport : s.receive (.error message) = s.report none message := by
        simp only [receive, hl, ↓reduceIte]
      rw [hreport]
      rfl

theorem view_retireEach {documents : List (DocumentId × Nat)} (hs : s.pushState.Ticking)
    (hn : (documents.map Prod.fst).Nodup)
    (hd : ∀ e ∈ documents, ∃ x, s.session? e.2 = some x ∧ x.id = e.1) :
    (s.retireEach documents).view names id =
      match documents.lookup id with
      | none => s.view names id
      | some h => { (s.view names id).closeSession (s.number id h) with markers := none } := by
  induction documents generalizing s with
  | nil => rfl
  | cons e documents ih =>
    rcases e with ⟨other, k⟩
    obtain ⟨hnot, hn⟩ := List.nodup_cons.mp hn
    obtain ⟨x, hx, hid⟩ := hd _ List.mem_cons_self
    have hparts : Parts .inside (fun d => d = .closed k) s.pushState (s.retire other k).pushState :=
      closeSession_parts
    have ht : (s.retire other k).titles = s.titles := titles_closeSession
    have hrest := ih (s := s.retire other k) (hparts.keep Part.ticking hs) hn fun e he => by
      obtain ⟨y, hy, hid⟩ := hd e (List.mem_cons_of_mem _ he)
      obtain ⟨z, hz, hev⟩ := hparts.evolves hy
      exact ⟨z, hz, hev.id.trans hid⟩
    change ((s.retire other k).retireEach documents).view names id = _
    rw [hrest, number_of_titles ht, Keyed.lookup_cons_ite]
    by_cases hne : id = other
    · subst hne
      subst hid
      rw [Keyed.lookup_eq_none hnot, if_pos rfl]
      exact view_retire hs (getElem?_number hx)
    · rw [if_neg hne, view_retire_other hs hx hid (Ne.symm hne)]

theorem view_finished (hr : names.request request = none) (o : Outcome) :
    (s.note (.finished request o)).view names id = s.view names id := by
  have hdrawn : s.Redrawn (s.note (.finished request o)) :=
    ⟨s.wait, s.channels, outline_note rfl⟩
  rw [hdrawn.view rfl, news_note, Notice.news?, hr, if_neg (Option.some_ne_none id).symm]
  rfl

theorem view_requestConnect (hs : s.Orderly names) (hr : names.request request = none) :
    (s.requestConnect request).view names id = s.view names id := by
  obtain ⟨_, he⟩ := requestConnect_made hs.linked request
  rw [he, view_finished hr]

theorem view_askShutdown (s : Service) (names : Names) (id : DocumentId) (request : Nat) :
    (s.fresh.1.ask s.nextTask (.shutdown request) .shutdown).view names id = s.view names id := by
  generalize ht : s.fresh.1.ask s.nextTask (.shutdown request) .shutdown = t
  have hwork (k : Nat) :
      t.work k = if k = s.nextTask then some (.shutdown request) else s.work k :=
    ht ▸ work_ask _
  have hself : t.worksFor id s.nextTask = false := by
    rw [worksFor, hwork, if_pos rfl]
    rfl
  have hdesk : t.desk = s.desk := ht ▸ rfl
  have htitles : t.titles = s.titles := ht ▸ rfl
  have hnext : t.nextTask = s.nextTask + 1 := ht ▸ rfl
  rw [view_of_desk hdesk htitles,
    worksOf_skip htitles hnext (fun k hk => (hwork k).trans (if_neg hk)) hself, ← ht]
  rfl

theorem view_requestShutdown (hs : s.Orderly names) (hr : names.request request = none) :
    (s.requestShutdown request).view names id = (s.view names id).shutdown := by
  have hstopped : (s.view names id).isStopped = s.isStopped := rfl
  simp only [View.shutdown, hstopped, requestShutdown]
  cases hstop : s.isStopped with
  | true => exact view_finished hr _
  | false =>
    simp only [Bool.false_eq_true, ↓reduceIte]
    let u : Service := { s with isStopped := true, wait := s.wait.cancel, registry := [] }
    have hu : u.pushState.Ticking :=
      ⟨⟨hs.ticking.timed.fresh, hs.ticking.timed.armed⟩, hs.ticking.sleeping, hs.ticking.resting⟩
    have hretire : (u.retireEach s.registry).view names id = _ :=
      view_retireEach (s := u) hu hs.registry fun e he =>
        hs.registered (Keyed.lookup_of_mem hs.registry he)
    have hleft : u.view names id = (s.view names id).leave := rfl
    let t : Service :=
      { u.retireEach s.registry with isConnected := false, isListening := false }
    refine (view_askShutdown t names id request).trans ?_
    have hoff : t.view names id =
        { (u.retireEach s.registry).view names id with
          isConnected := false
          isListening := false } := rfl
    rw [hoff, hretire]
    simp only [View.closeDocument]
    cases ho : s.open? id with
    | none =>
      have hlookup : s.registry.lookup id = none := ho
      have hsame : s.view names id = { s.view names id with owner := none } := by
        rw [← view_owner_none names ho]
      rw [hlookup, view_owner_none names ho, hsame]
      rfl
    | some h =>
      have hlookup : s.registry.lookup id = some h := ho
      have hnumber : u.number id h = s.number id h := rfl
      simp only [hlookup, view_owner names ho]
      rw [hnumber, hleft, View.closeSession_comm (f := View.leave) rfl fun _ => rfl]
      rfl

end Service

end DocSync
