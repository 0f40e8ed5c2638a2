import DocSync.Proofs.CompletionPush
import DocSync.Proofs.Notices
import DocSync.Proofs.Shutdown
import DocSync.Proofs.PushTimes

/-!
What marker lists show. The lists are those of the open documents, each made anew from the last
snapshot when that comes or when its document is opened, and every new list is told once.
-/

namespace DocSync

namespace DiagnosticsStore

variable {d : DiagnosticsStore} {id : DocumentId} {shift : LineShift}
  {shown : List (DocumentId × LineShift)}

theorem publishEach_updates :
    (d.publishEach shown).1.messages = d.messages ∧
      (d.publishEach shown).2 = shown.map fun e => ⟨e.1, d.place e.1 e.2⟩ := by
  induction shown generalizing d with
  | nil => exact ⟨rfl, rfl⟩
  | cons e shown ih =>
    obtain ⟨hm, hu⟩ := ih (d := (d.publish e.1 e.2).1)
    refine ⟨hm, ?_⟩
    simp only [publishEach, hu, List.map_cons]
    rfl

theorem lookup_publishEach_of_notMem (hid : id ∉ shown.map Prod.fst) :
    (d.publishEach shown).1.markers.lookup id = d.markers.lookup id := by
  induction shown generalizing d with
  | nil => rfl
  | cons e shown ih =>
    obtain ⟨hne, hid⟩ := not_or.mp (mt List.mem_cons.mpr hid)
    refine (ih (d := (d.publish e.1 e.2).1) hid).trans ?_
    simp only [publish, Keyed.lookup_put, if_neg hne]

theorem lookup_publishEach (hn : (shown.map Prod.fst).Nodup) (hm : (id, shift) ∈ shown) :
    (d.publishEach shown).1.markers.lookup id = some (d.place id shift) := by
  induction shown generalizing d with
  | nil => cases hm
  | cons e shown ih =>
    obtain ⟨hnot, hn⟩ := List.nodup_cons.mp hn
    rcases List.mem_cons.mp hm with rfl | hm
    · refine (lookup_publishEach_of_notMem (d := (d.publish id shift).1) hnot).trans ?_
      simp only [publish, Keyed.lookup_put, ↓reduceIte]
    · exact ih (d := (d.publish e.1 e.2).1) hn hm

end DiagnosticsStore

namespace Service

variable {s t : Service} {e : Event} {h i j k : Nat} {id : DocumentId} {x : Session} {r : Run}
  {messages : List ServerMessage}

theorem StatusMoves.registry_nodup {v : Status} (hm : StatusMoves s e v)
    (hs : (s.registry.map Prod.fst).Nodup) : (v.registry.map Prod.fst).Nodup := by
  cases hm with
  | kept | edited | left | told | connected | started | rejected | elapsed => exact hs
  | @opened id _ _ h _ _ _ ho =>
    have hid : id ∉ s.registry.map Prod.fst := by
      intro hm
      have hsome : (s.open? id).isSome = true := Keyed.lookup_isSome_iff.mpr hm
      rw [ho] at hsome
      cases hsome
    change ((s.registry ++ [(id, h)]).map Prod.fst).Nodup
    rw [List.map_append, List.nodup_append]
    refine ⟨hs, by simp, fun a ha b hb hab => ?_⟩
    obtain rfl := List.mem_singleton.mp hb
    exact hid (hab ▸ ha)
  | closed => exact (Keyed.keys_remove _ _).nodup hs
  | stopped => exact List.nodup_nil

theorem Run.registry_nodup (r : Run) (k : Nat) : ((r.state k).registry.map Prod.fst).Nodup := by
  induction k with
  | zero => exact List.nodup_nil
  | succ k ih => exact (status_next (r.whole k)).registry_nodup ih

def Notice.isShow : Notice → Bool
  | .snapshot _ => true
  | .markers _ => true
  | _ => false

/-- The snapshots and marker lists that were told, newest first. -/
def shows (s : Service) : List Notice := s.journal.filter Notice.isShow

def Notice.markersOf? (id : DocumentId) : Notice → Option (List Marker)
  | .markers update => if update.document = id then some update.markers else none
  | _ => none

/-- The marker list that was last told of a document. -/
def lastTold (s : Service) (id : DocumentId) : Option (List Marker) :=
  (s.shows.filterMap (Notice.markersOf? id)).head?

theorem shows_of_adds {P : Notice → Prop} (ha : Adds P s t) (hP : ∀ n, P n → n.isShow = false) :
    t.shows = s.shows := by
  obtain ⟨l, hl, hn⟩ := ha
  have hnone : l.filter Notice.isShow = [] :=
    List.filter_eq_nil_iff.mpr fun n hm => by simp [hP n (hn n hm)]
  rw [shows, hl, List.filter_append, hnone, List.nil_append]
  rfl

/-- The event can change what is shown. -/
def Event.isShow : Event → Bool
  | .receive (.allMessages _) => true
  | .openDocument _ _ _ => true
  | .finishOpen _ => true
  | _ => false

theorem shows_next (he : e.isShow = false) : (s.next e).shows = s.shows := by
  refine shows_of_adds (tells_next s e) fun n hn => ?_
  cases hn with
  | snapshot | shown | opened | registered => cases he
  | marked | called | finished | answered | refused | rejected | failed => rfl

theorem journal_tell (updates : List MarkerUpdate) :
    (updates.foldl (fun s u => s.note (.markers u)) s).journal =
      (updates.map Notice.markers).reverse ++ s.journal := by
  induction updates generalizing s with
  | nil => rfl
  | cons u updates ih =>
    rw [List.foldl_cons, ih, List.map_cons, List.reverse_cons, List.append_assoc]
    rfl

/-- What a snapshot makes of the documents that are shown. -/
def updatesFor (s : Service) (messages : List ServerMessage) : List MarkerUpdate :=
  s.shownDocuments.map fun e => ⟨e.1, { s.diagnostics with messages := messages }.place e.1 e.2⟩

theorem receive_snapshot (hl : s.isListening = true) (messages : List ServerMessage) :
    (s.receive (.allMessages messages)).status =
        { s.status with
          diagnostics := (s.diagnostics.replaceSnapshot messages s.shownDocuments).1 } ∧
      (s.receive (.allMessages messages)).shows =
        ((s.updatesFor messages).map Notice.markers).reverse ++ .snapshot messages :: s.shows := by
  have hu : (s.diagnostics.replaceSnapshot messages s.shownDocuments).2 = s.updatesFor messages :=
    DiagnosticsStore.publishEach_updates.2
  simp only [receive, hl, ↓reduceIte]
  refine ⟨status_tell _, ?_⟩
  rw [shows, journal_tell, hu, List.filter_append]
  congr 1
  refine List.filter_eq_self.mpr fun n hn => ?_
  obtain ⟨u, _, rfl⟩ := List.mem_map.mp (List.mem_reverse.mp hn)
  rfl

/-- A document that is opened gets its first list. -/
theorem openDocument_shows (s : Service) (id : DocumentId) (document : Document)
    (channel : String) :
    (s.openDocument id document channel).1 = s ∨
      s.open? id = none ∧ ∃ h x, s.session? h = none ∧
        (s.openDocument id document channel).1.session? h = some x ∧
        (s.openDocument id document channel).1.registry = s.registry ++ [(id, h)] ∧
        (s.openDocument id document channel).1.diagnostics =
          (s.diagnostics.publish id x.document.shift).1 ∧
        (s.openDocument id document channel).1.shows =
          .markers (s.diagnostics.publish id x.document.shift).2 :: s.shows := by
  simp only [openDocument]
  split
  · exact Or.inl rfl
  · next t h hb =>
    obtain ⟨_, ho, ht, x, hx, rfl⟩ := status_beginOpen hb
    obtain ⟨_, _, hlength, _⟩ := beginOpen_ok hb
    have hreg : t.registry = s.registry := congrArg Status.registry ht
    have hdiag : t.diagnostics = s.diagnostics := congrArg Status.diagnostics ht
    have hopen : t.open? x.id = none := by
      rw [open?, hreg]
      exact ho
    have hshows : t.shows = s.shows :=
      shows_of_adds (adds_beginOpen (P := fun n => ∃ members, n = .running members)
        (fun members => ⟨members, rfl⟩) hb) (by rintro n ⟨members, rfl⟩; rfl)
    have hnone : s.session? h = none := by
      rw [hlength]
      exact List.getElem?_eq_none (Nat.le_refl _)
    have hfinish := status_finishOpen hx hopen
    have hsession : (t.finishOpen h).1.session? h = some x :=
      (congrArg (fun v => v.session h) (finishOpen_ok hx hopen)).trans hx
    refine Or.inr ⟨ho, h, x, hnone, hsession, ?_, ?_, ?_⟩
    · rw [← hreg]
      exact congrArg Status.registry hfinish
    · rw [← hdiag]
      exact congrArg Status.diagnostics hfinish
    · have hopen' : ({ t with opening := t.opening.erase h } : Service).open? x.id = none := hopen
      rw [← hshows, ← hdiag]
      simp only [finishOpen, hx, hopen', Option.isSome_none, Bool.false_eq_true, ↓reduceIte]
      rfl

/-- A snapshot comes while it is listened to. -/
def Run.Receives (r : Run) (k : Nat) (messages : List ServerMessage) : Prop :=
  (r.state k).isListening = true ∧ r.event k = .receive (.allMessages messages)

/-- The last snapshot that was received; before the first one there are no messages. -/
def Run.lastSnapshot (r : Run) : Nat → List ServerMessage
  | 0 => []
  | k + 1 =>
    match r.event k with
    | .receive (.allMessages messages) =>
      if (r.state k).isListening then messages else r.lastSnapshot k
    | _ => r.lastSnapshot k

theorem Run.Receives.lastSnapshot (hr : r.Receives k messages) :
    r.lastSnapshot (k + 1) = messages := by
  obtain ⟨hl, he⟩ := hr
  simp only [Run.lastSnapshot, he, hl, ↓reduceIte]

theorem Run.lastSnapshot_kept (hr : ∀ messages, ¬r.Receives k messages) :
    r.lastSnapshot (k + 1) = r.lastSnapshot k := by
  simp only [Run.lastSnapshot]
  split
  · next messages he => exact if_neg fun hl => hr messages ⟨hl, he⟩
  · rfl

theorem Run.Opens.eq_length (ho : r.Opens k h) : h = (r.state k).sessions.length := by
  obtain ⟨hnone, x, hx⟩ := ho
  obtain ⟨id, document, channel, he⟩ :=
    opens_document (r.invariant k).numbered (r.whole k) hnone hx
  rw [Run.state, he] at hx
  rcases openDocument_cases (r.state k) id document channel with ht | ⟨_, _, _, _, hp⟩
  · simp only [next, ht, hnone] at hx
    cases hx
  · by_contra hne
    have hold := (congrArg (fun v => v.session h) hp).symm.trans hx
    exact Option.some_ne_none x (hold.symm.trans ((Function.update_of_ne hne _ _).trans hnone))

/-- What an event does about what is shown. -/
inductive Run.ShowMoves (r : Run) (k : Nat) : Prop where
  | received {messages : List ServerMessage} (hr : r.Receives k messages)
      (hv : (r.state (k + 1)).status =
        { (r.state k).status with
          diagnostics := ((r.state k).diagnostics.replaceSnapshot messages
            (r.state k).shownDocuments).1 })
      (hs : (r.state (k + 1)).shows = (((r.state k).updatesFor messages).map
        Notice.markers).reverse ++ .snapshot messages :: (r.state k).shows)
  | opened {id : DocumentId} {h : Nat} {x : Session} (hr : ∀ messages, ¬r.Receives k messages)
      (ho : r.Opens k h) (hn : (r.state k).open? id = none)
      (hx : (r.state (k + 1)).session? h = some x)
      (hg : (r.state (k + 1)).registry = (r.state k).registry ++ [(id, h)])
      (hd : (r.state (k + 1)).diagnostics =
        ((r.state k).diagnostics.publish id x.document.shift).1)
      (hs : (r.state (k + 1)).shows =
        .markers ((r.state k).diagnostics.publish id x.document.shift).2 :: (r.state k).shows)
  | quiet (hr : ∀ messages, ¬r.Receives k messages) (ho : ∀ h, ¬r.Opens k h)
      (hs : (r.state (k + 1)).shows = (r.state k).shows)
      (hm : (r.state (k + 1)).diagnostics.messages = (r.state k).diagnostics.messages)
      (hl : ∀ id h, (r.state (k + 1)).open? id = some h → (r.state k).open? id = some h ∧
        (r.state (k + 1)).diagnostics.markers.lookup id =
          (r.state k).diagnostics.markers.lookup id)

theorem StatusMoves.lists {v : Status} (hm : StatusMoves s e v) (he : e.isShow = false)
    (ho : v.registry.lookup id = some h) :
    s.open? id = some h ∧ v.diagnostics.markers.lookup id = s.diagnostics.markers.lookup id := by
  cases hm with
  | kept | edited | left | connected | started | rejected | elapsed => exact ⟨ho, rfl⟩
  | opened | told => cases he
  | @closed other =>
    have ho : (Keyed.remove other s.registry).lookup id = some h := ho
    rw [Keyed.lookup_remove] at ho
    split at ho
    · cases ho
    · next hne => exact ⟨ho, (Keyed.lookup_remove other _ id).trans (if_neg hne)⟩
  | stopped => cases ho

theorem foldl_forget_messages (documents : List (DocumentId × Nat)) (d : DiagnosticsStore) :
    (documents.foldl (fun d e => d.forget e.1) d).messages = d.messages := by
  induction documents generalizing d with
  | nil => rfl
  | cons e documents ih => exact ih _

theorem StatusMoves.kept_messages {v : Status} (hm : StatusMoves s e v) (he : e.isShow = false) :
    v.diagnostics.messages = s.diagnostics.messages := by
  cases hm with
  | kept | edited | left | connected | started | rejected | elapsed | closed => rfl
  | opened | told => cases he
  | stopped => exact foldl_forget_messages _ _

theorem Run.show_moves (r : Run) (k : Nat) : r.ShowMoves k := by
  have hsame (hr : ∀ messages, ¬r.Receives k messages)
      (ht : r.state (k + 1) = r.state k) : r.ShowMoves k := by
    refine .quiet hr ?_ (by rw [ht]) (by rw [ht]) fun id h ho => ?_
    · rintro h ⟨hnone, x, hx⟩
      rw [ht, hnone] at hx
      cases hx
    · rw [ht] at ho ⊢
      exact ⟨ho, rfl⟩
  have hother (hne : ∀ messages, r.event k ≠ .receive (.allMessages messages)) (messages) :
      ¬r.Receives k messages := fun hr => hne messages hr.2
  by_cases he : (r.event k).isShow = false
  case pos =>
    have hm := status_next (s := r.state k) (r.whole k)
    refine .quiet (hother fun messages hr => ?_) ?_ (shows_next he) (hm.kept_messages he)
      fun id h ho => hm.lists he ho
    · rw [hr] at he
      cases he
    · rintro h ⟨hnone, x, hx⟩
      obtain ⟨id, document, channel, ho⟩ :=
        opens_document (r.invariant k).numbered (r.whole k) hnone hx
      rw [ho] at he
      cases he
  have hw := r.whole k
  cases hev : r.event k with
  | openDocument id document channel =>
    have hnext : r.state (k + 1) = ((r.state k).openDocument id document channel).1 := by
      rw [Run.state, hev]
      rfl
    have hr := hother fun messages => by rw [hev]; exact Event.noConfusion
    rcases openDocument_shows (r.state k) id document channel with
      ht | ⟨hn, h, x, hnone, hx, hg, hd, hs⟩
    · exact hsame hr (hnext.trans ht)
    · rw [← hnext] at hx hg hd hs
      exact .opened hr ⟨hnone, x, hx⟩ hn hx hg hd hs
  | receive event =>
    cases event with
    | error => exact absurd (by rw [hev]; rfl) he
    | allMessages messages =>
      have hnext : r.state (k + 1) = (r.state k).receive (.allMessages messages) := by
        rw [Run.state, hev]
        rfl
      cases hl : (r.state k).isListening with
      | true =>
        obtain ⟨hv, hs⟩ := receive_snapshot hl messages
        rw [← hnext] at hv hs
        exact .received ⟨hl, hev⟩ hv hs
      | false =>
        refine hsame ?_ ?_
        · rintro _ ⟨hl', _⟩
          rw [hl] at hl'
          cases hl'
        · rw [hnext]
          simp only [receive, hl, Bool.false_eq_true, ↓reduceIte]
  | finishOpen =>
    rw [hev] at hw
    cases hw
  | beginOpen | closeDocument | change | setText | setContext | closeSession | flush | complete |
    info | connect | shutdown | endStream | answer | pass | fire | run =>
    exact absurd (by rw [hev]; rfl) he

/-- The markers of a document among messages, in their order, with the hidden lines left out. -/
def markersIn (messages : List ServerMessage) (id : DocumentId) (shift : LineShift) :
    List Marker :=
  (messages.filter fun m => m.document == id).filterMap fun m => Marker.ofMessage? m shift

/-- The later of a document's opening and of the last snapshot. -/
structure Run.ShownSince (r : Run) (i k : Nat) (id : DocumentId) (h : Nat) : Prop where
  before : i < k
  shows : r.Opens i h ∨ ∃ messages, r.Receives i messages
  listed : (r.state (i + 1)).open? id = some h
  last : ∀ j messages, i < j → j < k → ¬r.Receives j messages

theorem Run.ShownSince.not_lt (hi : r.ShownSince i k id h) (hj : r.ShownSince j k id h) :
    ¬i < j := by
  intro hij
  rcases hj.shows with ⟨hnone, _⟩ | ⟨messages, hr⟩
  · obtain ⟨x, hx, _⟩ := r.registered (i + 1) hi.listed
    obtain ⟨y, hy, _⟩ := r.evolves (Nat.succ_le_of_lt hij) hx
    exact Option.some_ne_none y (hy.symm.trans hnone)
  · exact hi.last j messages hij hj.before hr

theorem Run.ShownSince.unique (hi : r.ShownSince i k id h) (hj : r.ShownSince j k id h) :
    j = i :=
  Nat.le_antisymm (Nat.le_of_not_lt (hi.not_lt hj)) (Nat.le_of_not_lt (hj.not_lt hi))

theorem Run.ShownSince.next (hi : r.ShownSince i k id h)
    (hr : ∀ messages, ¬r.Receives k messages) : r.ShownSince i (k + 1) id h where
  before := Nat.lt_succ_of_lt hi.before
  shows := hi.shows
  listed := hi.listed
  last j messages hij hjk := by
    rcases Nat.lt_succ_iff_lt_or_eq.mp hjk with hlt | rfl
    · exact hi.last j messages hij hlt
    · exact hr messages

theorem shownDocuments_keys (hn : (s.registry.map Prod.fst).Nodup)
    (hr : s.pushState.Registered) :
    s.shownDocuments.map Prod.fst = s.registry.map Prod.fst := by
  have hall : ∀ e ∈ s.registry, ∃ x, s.session? e.2 = some x := by
    intro e he
    obtain ⟨x, hx, _⟩ := hr (Keyed.lookup_of_mem hn he)
    exact ⟨x, hx⟩
  simp only [shownDocuments]
  generalize s.registry = documents at hall
  induction documents with
  | nil => rfl
  | cons e documents ih =>
    obtain ⟨x, hx⟩ := hall e List.mem_cons_self
    simp only [List.filterMap_cons, hx, Option.map_some, List.map_cons]
    rw [ih fun f hf => hall f (List.mem_cons_of_mem e hf)]

theorem mem_shownDocuments (hs : (s.registry.map Prod.fst).Nodup) {shift : LineShift} :
    (id, shift) ∈ s.shownDocuments ↔
      ∃ h x, s.open? id = some h ∧ s.session? h = some x ∧ shift = x.document.shift := by
  constructor
  · intro hm
    obtain ⟨⟨id', h⟩, he, hf⟩ := List.mem_filterMap.mp hm
    obtain ⟨x, hx, hp⟩ := Option.map_eq_some_iff.mp hf
    obtain ⟨rfl, rfl⟩ := Prod.mk.inj hp
    exact ⟨h, x, Keyed.lookup_of_mem hs he, hx, rfl⟩
  · rintro ⟨h, x, ho, hx, rfl⟩
    refine List.mem_filterMap.mpr ⟨(id, h), Keyed.mem_of_lookup ho, ?_⟩
    exact Option.map_eq_some_iff.mpr ⟨x, hx, rfl⟩

/-- What is stored and what was told of each open document, and from when it is. -/
structure Run.Lists (r : Run) (k : Nat) : Prop where
  messages : (r.state k).diagnostics.messages = r.lastSnapshot k
  stored : ∀ id h, (r.state k).open? id = some h → ∃ i x, r.ShownSince i k id h ∧
    (r.state (i + 1)).session? h = some x ∧ (r.state k).diagnostics.markers.lookup id =
      some (markersIn (r.lastSnapshot k) id x.document.shift)
  told : ∀ id h, (r.state k).open? id = some h →
    (r.state k).lastTold id = (r.state k).diagnostics.markers.lookup id

theorem publishEach_messages (d : DiagnosticsStore) (messages : List ServerMessage)
    (shown : List (DocumentId × LineShift)) :
    (d.replaceSnapshot messages shown).1.messages = messages :=
  DiagnosticsStore.publishEach_updates.1

theorem head?_of_all {α : Type} {a : α} {l m : List α} (ha : a ∈ l) (hall : ∀ b ∈ l, b = a) :
    (l ++ m).head? = some a := by
  cases l with
  | nil => cases ha
  | cons b l => exact congrArg some (hall b List.mem_cons_self)

/-- A snapshot makes every list anew, and tells it. -/
theorem Run.Receives.lists (hr : r.Receives k messages)
    (hv : (r.state (k + 1)).status = { (r.state k).status with
      diagnostics := ((r.state k).diagnostics.replaceSnapshot messages
        (r.state k).shownDocuments).1 })
    (hs : (r.state (k + 1)).shows = (((r.state k).updatesFor messages).map
      Notice.markers).reverse ++ .snapshot messages :: (r.state k).shows) :
    r.Lists (k + 1) := by
  have hg : (r.state (k + 1)).registry = (r.state k).registry := congrArg Status.registry hv
  have hd : (r.state (k + 1)).diagnostics = ((r.state k).diagnostics.replaceSnapshot messages
      (r.state k).shownDocuments).1 := congrArg Status.diagnostics hv
  have hnodup := r.registry_nodup k
  have hshown : ((r.state k).shownDocuments.map Prod.fst).Nodup := by
    rw [shownDocuments_keys hnodup (r.registered k)]
    exact hnodup
  -- the list of an open document, under the shift that its session has
  have hlookup (id : DocumentId) (h : Nat) (x : Session) (ho : (r.state k).open? id = some h)
      (hx : (r.state k).session? h = some x) :
      (r.state (k + 1)).diagnostics.markers.lookup id =
        some (markersIn messages id x.document.shift) := by
    rw [hd]
    exact DiagnosticsStore.lookup_publishEach hshown
      ((mem_shownDocuments hnodup).mpr ⟨h, x, ho, hx, rfl⟩)
  have hsession (h : Nat) : (r.state (k + 1)).session? h = (r.state k).session? h := by
    rw [Run.state, hr.2]
    exact congrArg (fun v => v.session h) (receive_pushState _)
  have hopen (id : DocumentId) : (r.state (k + 1)).open? id = (r.state k).open? id := by
    rw [open?, hg]
    rfl
  constructor
  · rw [hd, hr.lastSnapshot]
    exact publishEach_messages _ _ _
  · intro id h ho
    have ho' := (hopen id).symm.trans ho
    obtain ⟨x, hx, _⟩ := r.registered k ho'
    have hsince : r.ShownSince k (k + 1) id h :=
      ⟨Nat.lt_succ_self k, Or.inr ⟨messages, hr⟩, ho, fun j _ hj hj' => by omega⟩
    refine ⟨k, x, hsince, (hsession h).trans hx, ?_⟩
    rw [hr.lastSnapshot]
    exact hlookup id h x ho' hx
  · intro id h ho
    have ho' := (hopen id).symm.trans ho
    obtain ⟨x, hx, _⟩ := r.registered k ho'
    have hmem : (id, x.document.shift) ∈ (r.state k).shownDocuments :=
      (mem_shownDocuments hnodup).mpr ⟨h, x, ho', hx, rfl⟩
    rw [hlookup id h x ho' hx, lastTold, hs, List.filterMap_append]
    refine head?_of_all ?_ fun list hlist => ?_
    · refine List.mem_filterMap.mpr ⟨.markers ⟨id, markersIn messages id x.document.shift⟩, ?_,
        if_pos rfl⟩
      exact List.mem_reverse.mpr (List.mem_map_of_mem (List.mem_map_of_mem hmem))
    · -- the document has one session, and so one shift
      obtain ⟨n, hn, hlist⟩ := List.mem_filterMap.mp hlist
      obtain ⟨update, hu, rfl⟩ := List.mem_map.mp (List.mem_reverse.mp hn)
      obtain ⟨⟨id', shift⟩, hm, rfl⟩ := List.mem_map.mp hu
      simp only [Notice.markersOf?] at hlist
      split at hlist
      · next hid =>
        obtain rfl := hid
        obtain ⟨h', y, hoy, hy, rfl⟩ := (mem_shownDocuments hnodup).mp hm
        obtain rfl := Option.some.inj (ho'.symm.trans hoy)
        obtain rfl := Option.some.inj (hx.symm.trans hy)
        exact (Option.some.inj hlist).symm
      · cases hlist

/-- A document that is opened gets its list, and no other list changes. -/
theorem Run.Lists.opened (hk : r.Lists k) (hr : ∀ messages, ¬r.Receives k messages)
    (ho : r.Opens k h) (hn : (r.state k).open? id = none)
    (hx : (r.state (k + 1)).session? h = some x)
    (hg : (r.state (k + 1)).registry = (r.state k).registry ++ [(id, h)])
    (hd : (r.state (k + 1)).diagnostics =
      ((r.state k).diagnostics.publish id x.document.shift).1)
    (hs : (r.state (k + 1)).shows =
      .markers ((r.state k).diagnostics.publish id x.document.shift).2 :: (r.state k).shows) :
    r.Lists (k + 1) := by
  have hopen (id' : DocumentId) : (r.state (k + 1)).open? id' =
      ((r.state k).open? id').or (if id' = id then some h else none) := by
    rw [open?, hg, Keyed.lookup_concat]
    rfl
  have hlookup (id' : DocumentId) : (r.state (k + 1)).diagnostics.markers.lookup id' =
      if id' = id then some (markersIn (r.lastSnapshot k) id x.document.shift)
      else (r.state k).diagnostics.markers.lookup id' := by
    rw [hd, ← hk.messages]
    exact Keyed.lookup_put _ _ _ _
  have hlast := r.lastSnapshot_kept hr
  constructor
  · rw [hlast, hd]
    exact hk.messages
  · intro id' h' ho'
    by_cases hid : id' = id
    · subst hid
      have hself : (r.state (k + 1)).open? id' = some h := by
        rw [hopen, hn, if_pos rfl]
        rfl
      obtain rfl := Option.some.inj (hself.symm.trans ho')
      refine ⟨k, x, ⟨Nat.lt_succ_self k, Or.inl ho, ho', fun j _ hj hj' => by omega⟩, hx, ?_⟩
      rw [hlookup, if_pos rfl, hlast]
    · rw [hopen, if_neg hid, Option.or_none] at ho'
      obtain ⟨i, y, hi, hy, hl⟩ := hk.stored id' h' ho'
      refine ⟨i, y, hi.next hr, hy, ?_⟩
      rw [hlookup, if_neg hid, hlast, hl]
  · intro id' h' ho'
    rw [hlookup, lastTold, hs]
    by_cases hid : id' = id
    · subst hid
      rw [if_pos rfl, ← hk.messages]
      simp only [List.filterMap_cons, Notice.markersOf?, DiagnosticsStore.publish, ↓reduceIte]
      rfl
    · rw [hopen, if_neg hid, Option.or_none] at ho'
      rw [if_neg hid, ← hk.told id' h' ho']
      simp only [List.filterMap_cons, Notice.markersOf?, DiagnosticsStore.publish, lastTold]
      rw [if_neg (Ne.symm hid)]

theorem Run.lists (r : Run) (k : Nat) : r.Lists k := by
  induction k with
  | zero => exact ⟨rfl, fun _ _ => nofun, fun _ _ => nofun⟩
  | succ k ih =>
    cases r.show_moves k with
    | received hr hv hs => exact hr.lists hv hs
    | opened hr ho hn hx hg hd hs => exact ih.opened hr ho hn hx hg hd hs
    | quiet hr ho hs hm hl =>
      have hlast := r.lastSnapshot_kept hr
      constructor
      · rw [hm, hlast, ih.messages]
      · intro id h hopen
        obtain ⟨hopen, hlookup⟩ := hl id h hopen
        obtain ⟨i, x, hi, hx, hstored⟩ := ih.stored id h hopen
        exact ⟨i, x, hi.next hr, hx, by rw [hlookup, hlast, hstored]⟩
      · intro id h hopen
        obtain ⟨hopen, hlookup⟩ := hl id h hopen
        rw [hlookup, ← ih.told id h hopen, lastTold, hs]
        rfl

/-- What the marker lists show at a state, and what the next event tells. -/
structure Run.MarkersSound (r : Run) (k : Nat) : Prop where
  /-- The messages are those of the last snapshot. -/
  messages : (r.state k).diagnostics.messages = r.lastSnapshot k
  /-- The lists are those of the open documents. -/
  listed : ∀ id, ((r.state k).diagnostics.markers.lookup id).isSome = true ↔
    ((r.state k).open? id).isSome = true
  /-- A list is made under the shift that the document had when it was last shown. -/
  stored : ∀ id h, (r.state k).open? id = some h → ∃! i, r.ShownSince i k id h ∧
    ∃ x, (r.state (i + 1)).session? h = some x ∧
      (r.state k).diagnostics.markers.lookup id =
        some (markersIn (r.lastSnapshot k) id x.document.shift)
  /-- The list that was told last is the one that is stored. -/
  told : ∀ id, ((r.state k).open? id).isSome = true →
    (r.state k).lastTold id = (r.state k).diagnostics.markers.lookup id
  counted : ∀ id severity list, (r.state k).diagnostics.markers.lookup id = some list →
    (r.state k).diagnostics.count id severity = list.countP fun m => m.severity == severity
  /-- A snapshot is told once, and then one list for each open document. -/
  snapshot : ∀ messages, r.Receives k messages → ∃ updates : List MarkerUpdate,
    (r.state (k + 1)).shows =
      (updates.map Notice.markers).reverse ++ .snapshot messages :: (r.state k).shows ∧
    (updates.map MarkerUpdate.document).Nodup ∧
    ∀ id, id ∈ updates.map MarkerUpdate.document ↔ ((r.state k).open? id).isSome = true
  /-- An opening tells one list, that of its document. -/
  opening : ∀ h, r.Opens k h → ∃ update, (r.state (k + 1)).open? update.document = some h ∧
    (r.state (k + 1)).shows = .markers update :: (r.state k).shows
  /-- Nothing else is told. -/
  quiet : (∀ messages, ¬r.Receives k messages) → (∀ h, ¬r.Opens k h) →
    (r.state (k + 1)).shows = (r.state k).shows

theorem markers_sound (r : Run) (k : Nat) : r.MarkersSound k := by
  have hlists := r.lists k
  constructor
  · exact hlists.messages
  · intro id
    constructor
    · intro hm
      exact Keyed.lookup_isSome_iff.mpr (r.listed k (Keyed.lookup_isSome_iff.mp hm))
    · intro ho
      obtain ⟨h, ho⟩ := Option.isSome_iff_exists.mp ho
      obtain ⟨_, _, _, _, hl⟩ := hlists.stored id h ho
      rw [hl]
      rfl
  · intro id h ho
    obtain ⟨i, x, hi, hx, hl⟩ := hlists.stored id h ho
    exact ⟨i, ⟨hi, x, hx, hl⟩, fun j hj => hi.unique hj.1⟩
  · intro id ho
    obtain ⟨h, ho⟩ := Option.isSome_iff_exists.mp ho
    exact hlists.told id h ho
  · intro id severity list hl
    simp only [DiagnosticsStore.count, DiagnosticsStore.markersOf, hl, Option.getD_some,
      List.countP_eq_length_filter]
  · intro messages hr
    obtain ⟨_, hs⟩ := receive_snapshot hr.1 messages
    have hdocuments : ((r.state k).updatesFor messages).map MarkerUpdate.document =
        (r.state k).registry.map Prod.fst := by
      rw [← shownDocuments_keys (r.registry_nodup k) (r.registered k), updatesFor, List.map_map]
      rfl
    refine ⟨(r.state k).updatesFor messages, ?_, ?_, fun id => ?_⟩
    · rw [← hs, Run.state, hr.2]
      rfl
    · rw [hdocuments]
      exact r.registry_nodup k
    · rw [hdocuments]
      exact Keyed.lookup_isSome_iff.symm
  · intro h ho
    cases r.show_moves k with
    | received hr =>
      obtain ⟨hnone, x, hx⟩ := ho
      obtain ⟨id, document, channel, he⟩ :=
        opens_document (r.invariant k).numbered (r.whole k) hnone hx
      exact Event.noConfusion (he.symm.trans hr.2)
    | @opened id h' x _ ho' hn _ hg _ hs =>
      obtain rfl : h = h' := ho.eq_length.trans ho'.eq_length.symm
      refine ⟨_, ?_, hs⟩
      change (r.state (k + 1)).registry.lookup id = some h
      have hn : (r.state k).registry.lookup id = none := hn
      rw [hg, Keyed.lookup_concat, hn, if_pos rfl]
      rfl
    | quiet _ hno => exact absurd ho (hno h)
  · intro hr ho
    cases r.show_moves k with
    | received hr' => exact absurd hr' (hr _)
    | opened _ ho' => exact absurd ho' (ho _)
    | quiet _ _ hs => exact hs

/-- A snapshot comes, and then the text hidden above the document gets longer. -/
def shiftedRun : Run where
  syncDelay := 300
  completionDelay := 100
  input := ⟨⟨[]⟩, []⟩
  event
    | 0 => .connect 0
    | 1 => .answer 0 (.connected (.ok ()) (.ok ()))
    | 2 => .openDocument ⟨"a"⟩ ⟨['\n'], ['x'], []⟩ "a"
    | 3 => .receive (.allMessages
      [⟨⟨"a"⟩, 2, 0, none, none, .error, "m", ""⟩, ⟨⟨"b"⟩, 2, 0, none, none, .error, "m", ""⟩])
    | 4 => .setContext 0 ['\n', '\n'] []
    | _ => .endStream
  whole k := by
    split <;> rfl

/-- The list stays as it was made, under the shift of that time. -/
theorem list_keeps_its_shift :
    shiftedRun.MarkersSound 5 ∧ shiftedRun.ShownSince 3 5 ⟨"a"⟩ 0 ∧
      (shiftedRun.state 5).diagnostics.markers =
        [(⟨"a"⟩, [⟨.error, "m", "", .point ⟨1, 1⟩⟩])] := by
  refine ⟨markers_sound shiftedRun 5, ⟨by decide, Or.inr ⟨_, by decide, rfl⟩, by decide, ?_⟩,
    by decide⟩
  rintro j messages hj hk ⟨_, he⟩
  obtain rfl : j = 4 := by omega
  cases he

end Service

end DocSync
