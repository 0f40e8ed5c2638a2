import DocSync.Proofs.CompletionPush
import DocSync.Proofs.DebouncedPushes
import DocSync.Proofs.Interrupts
import Mathlib.Data.List.Nodup

/-!
What a service shows of one document: its sessions, whether it is busy, its markers, its tasks, and
what was told about it. Sessions and tasks have numbers that count all documents; in the view of a
document they are numbered by themselves, so that other documents leave no trace in it.
-/

namespace DocSync

/-- The numbers below a bound that have a property, in order. -/
def numbers (p : Nat → Bool) (n : Nat) : List Nat := (List.range n).filter p

variable {p q : Nat → Bool} {i j k n : Nat} {α : Type} {f g : Nat → α} {l : List Nat}

theorem mem_numbers : k ∈ numbers p n ↔ k < n ∧ p k = true := by
  simp only [numbers, List.mem_filter, List.mem_range]

theorem nodup_numbers (p : Nat → Bool) (n : Nat) : (numbers p n).Nodup :=
  List.nodup_range.filter p

theorem numbers_congr (h : ∀ k < n, p k = q k) : numbers p n = numbers q n :=
  List.filter_congr fun k hk => h k (List.mem_range.mp hk)

theorem numbers_succ (p : Nat → Bool) (n : Nat) :
    numbers p (n + 1) = numbers p n ++ if p n = true then [n] else [] := by
  simp only [numbers, List.range_succ, List.filter_append, List.filter_singleton]
  cases p n <;> rfl

theorem numbers_le (hn : n ≤ k) (hp : ∀ j, n ≤ j → j < k → p j = false) :
    numbers p k = numbers p n := by
  induction hn with
  | refl => rfl
  | @step k hk ih =>
    have hlast := hp k hk (Nat.lt_succ_self k)
    rw [numbers_succ, hlast, if_neg Bool.false_ne_true, List.append_nil]
    exact ih fun j hj hjk => hp j hj (Nat.lt_succ_of_lt hjk)

theorem idxOf_of_nodup (hl : l.Nodup) (hk : l[i]? = some k) : l.idxOf k = i := by
  obtain ⟨hi, rfl⟩ := List.getElem?_eq_some_iff.mp hk
  exact hl.idxOf_getElem i hi

theorem getElem?_idxOf_of_mem (hk : k ∈ l) : l[l.idxOf k]? = some k := by
  have hi := List.idxOf_lt_length_iff.mpr hk
  rw [List.getElem?_eq_getElem hi, List.getElem_idxOf hi]

theorem map_eq_set (hl : l.Nodup) (hk : l[i]? = some k) (h : ∀ j ∈ l, j ≠ k → g j = f j) :
    l.map g = (l.map f).set i (g k) := by
  refine List.ext_getElem? fun j => ?_
  rw [List.getElem?_set, List.getElem?_map, List.getElem?_map, List.length_map]
  by_cases hij : i = j
  · subst hij
    obtain ⟨hi, _⟩ := List.getElem?_eq_some_iff.mp hk
    rw [if_pos rfl, if_pos hi, hk]
    rfl
  · rw [if_neg hij]
    cases hj : l[j]? with
    | none => rfl
    | some a =>
      refine congrArg some (h a (List.mem_of_getElem? hj) ?_)
      rintro rfl
      exact hij ((idxOf_of_nodup hl hk).symm.trans (idxOf_of_nodup hl hj))

theorem numbers_eraseIdx (hk : (numbers p n)[i]? = some k) (hq : q k = false)
    (h : ∀ j < n, j ≠ k → q j = p j) : numbers q n = (numbers p n).eraseIdx i := by
  have hl := nodup_numbers p n
  rw [← idxOf_of_nodup hl hk, ← List.erase_eq_eraseIdx_of_idxOf rfl, hl.erase_eq_filter]
  simp only [numbers, List.filter_filter]
  refine List.filter_congr fun j hj => ?_
  by_cases hjk : j = k
  · subst hjk
    simp [hq]
  · simp [h j (List.mem_range.mp hj) hjk, hjk]

namespace Service

/-- Whose the channels of changes are, and the requests. -/
structure Names where
  channel : String → DocumentId
  request : Nat → Option DocumentId

/-- What can be seen of a session, and when its next push is due. -/
structure Look where
  document : Document
  version : Nat
  phase : SyncPhase
  isClosed : Bool
  channel : String
  due : Option Nat

/-- What is told about one document, or about none. -/
inductive News where
  | pushed (version : Nat) (content : List Char)
  | asked (position : ServerPosition)
  | failed (document : Option DocumentId) (message : String)
  | snapshot (messages : List ServerMessage)
  | markers (markers : List Marker)
  | finished (request : Nat) (outcome : Outcome)

/-- The notice, if it is about a document or about none. -/
def Notice.news? (names : Names) (id : DocumentId) : Notice → Option News
  | .called _ (.sync _ version document content) =>
    if document = id then some (.pushed version content) else none
  | .called _ (.info document position) => if document = id then some (.asked position) else none
  | .called _ _ => none
  | .answered _ _ _ _ => none
  | .failed none message => some (.failed none message)
  | .failed (some document) message =>
    if document = id then some (.failed (some id) message) else none
  | .running _ => none
  | .snapshot messages => some (.snapshot messages)
  | .markers update => if update.document = id then some (.markers update.markers) else none
  | .finished request o =>
    if names.request request = some id then some (.finished request o) else none

variable {names : Names} {s t u : Service} {id : DocumentId} {h task : Nat} {x y : Session}
  {w : Work}

def news (s : Service) (names : Names) (id : DocumentId) : List News :=
  s.journal.filterMap (Notice.news? names id)

def Look.of (x : Session) (due : Option Nat) : Look :=
  ⟨x.document, x.version, x.phase, x.isClosed, x.channel, due⟩

def PushState.look? (v : PushState) (h : Nat) : Option Look :=
  (v.session h).map fun x => .of x (v.due h)

def isOf (s : Service) (id : DocumentId) (h : Nat) : Bool :=
  (s.session? h).any fun x => x.id == id

/-- The sessions that a document had so far, in the order in which they were opened. -/
def sessionsOf (s : Service) (id : DocumentId) : List Nat :=
  numbers (s.isOf id) s.sessions.length

/-- The number of a session among those of its document. -/
def number (s : Service) (id : DocumentId) (h : Nat) : Nat := (s.sessionsOf id).idxOf h

/-- The document that a task works for. -/
def documentOf (s : Service) : Work → Option DocumentId
  | .start h => (s.session? h).map Session.id
  | .sync h _ _ => (s.session? h).map Session.id
  | .debounce _ _ id _ _ _ => some id
  | .complete _ id _ => some id
  | .info _ id _ => some id
  | .connectTurn _ => none
  | .connect _ => none
  | .shutdown _ => none

def worksFor (s : Service) (id : DocumentId) (task : Nat) : Bool :=
  (s.work task).bind s.documentOf == some id

def tasksOf (s : Service) (id : DocumentId) : List Nat :=
  numbers (s.worksFor id) s.nextTask

def Work.renumber (f : Nat → Nat) : Work → Work
  | .start h => .start (f h)
  | .sync h t after => .sync (f h) t after
  | w => w

def looks (s : Service) (id : DocumentId) : List (Option Look) :=
  (s.sessionsOf id).map s.pushState.look?

def worksOf (s : Service) (id : DocumentId) : List (Option Work) :=
  (s.tasksOf id).map fun k => (s.work k).map (Work.renumber (s.number id))

/-- What a service shows of one document. -/
structure View where
  now : Nat
  syncDelay : Nat
  isStopped : Bool
  isConnected : Bool
  isListening : Bool
  messages : List ServerMessage
  sessions : List (Option Look)
  owner : Option Nat
  isBusy : Bool
  markers : Option (List Marker)
  tasks : List (Option Work)
  news : List News

def view (s : Service) (names : Names) (id : DocumentId) : View where
  now := s.now
  syncDelay := s.syncDelay
  isStopped := s.isStopped
  isConnected := s.isConnected
  isListening := s.isListening
  messages := s.diagnostics.messages
  sessions := s.looks id
  owner := (s.open? id).map (s.number id)
  isBusy := s.running.isBusy id
  markers := s.diagnostics.markers.lookup id
  tasks := s.worksOf id
  news := s.news names id

/-- The documents of all sessions. -/
def titles (s : Service) : List DocumentId := s.sessions.map Session.id

theorem title_eq (s : Service) (h : Nat) : (s.session? h).map Session.id = s.titles[h]? :=
  (List.getElem?_map ..).symm

theorem isOf_iff : s.isOf id h = true ↔ ∃ x, s.session? h = some x ∧ x.id = id := by
  simp only [isOf, Option.any_eq_true_iff_get, beq_iff_eq]
  constructor
  · rintro ⟨hx, hid⟩
    exact ⟨_, (Option.some_get hx).symm, hid⟩
  · rintro ⟨x, hx, rfl⟩
    simp [hx]

theorem isOf_eq (s : Service) (id : DocumentId) (h : Nat) :
    s.isOf id h = (s.titles[h]?).any (· == id) := by
  rw [← title_eq, isOf]
  cases s.session? h <;> rfl

theorem sessionsOf_of_titles (ht : t.titles = s.titles) : t.sessionsOf id = s.sessionsOf id := by
  have hl := congrArg List.length ht
  simp only [titles, List.length_map] at hl
  rw [sessionsOf, sessionsOf, hl]
  exact numbers_congr fun h _ => by rw [isOf_eq, isOf_eq, ht]

theorem sessionsOf_append {other : DocumentId} (ht : t.titles = s.titles ++ [other]) :
    t.sessionsOf id = s.sessionsOf id ++ if other = id then [s.sessions.length] else [] := by
  have hl := congrArg List.length ht
  simp only [titles, List.length_append, List.length_map, List.length_singleton] at hl
  have hlast : t.isOf id s.sessions.length = true ↔ other = id := by
    have hsame : s.titles.length = s.sessions.length := List.length_map _
    rw [isOf_eq, ht, ← hsame, List.getElem?_concat_length]
    simp
  have hfirst : ∀ h < s.sessions.length, t.isOf id h = s.isOf id h := by
    intro h hh
    have hsame : s.titles.length = s.sessions.length := List.length_map _
    rw [isOf_eq, isOf_eq, ht, List.getElem?_append_left (hsame ▸ hh)]
  rw [sessionsOf, hl, numbers_succ, numbers_congr hfirst]
  simp only [hlast]
  rfl

theorem number_of_titles (ht : t.titles = s.titles) : t.number id = s.number id := by
  funext h
  rw [number, number, sessionsOf_of_titles ht]

theorem documentOf_of_titles (ht : t.titles = s.titles) (w : Work) :
    t.documentOf w = s.documentOf w := by
  cases w with
  | start | sync => simp only [documentOf, title_eq, ht]
  | debounce | complete | info | connectTurn | connect | shutdown => rfl

theorem mem_sessionsOf : h ∈ s.sessionsOf id ↔ ∃ x, s.session? h = some x ∧ x.id = id := by
  rw [sessionsOf, mem_numbers, isOf_iff]
  refine and_iff_right_of_imp ?_
  rintro ⟨x, hx, _⟩
  obtain ⟨hlt, _⟩ := List.getElem?_eq_some_iff.mp hx
  exact hlt

theorem titles_of_session (hs : t.session? = s.session?) : t.titles = s.titles := by
  refine List.ext_getElem? fun h => ?_
  rw [← title_eq, ← title_eq, hs]

theorem titles_of_parts {P : Deed → Prop} (hp : Parts .inside P s.pushState t.pushState)
    (hP : ∀ d, P d → ∀ h, d ≠ .opened h) : t.titles = s.titles := by
  refine List.ext_getElem? fun h => ?_
  rw [← title_eq, ← title_eq]
  cases hx : s.session? h with
  | none =>
    have hnone : t.session? h = none := hp.unopened (fun d hd => hP d hd h) hx
    rw [hnone]
  | some x =>
    obtain ⟨y, hy, he⟩ := hp.evolves hx
    have hy : t.session? h = some y := hy
    rw [hy, Option.map_some, Option.map_some, he.id]

theorem Part.titles {d : Deed} (hp : Part .inside s.pushState d t.pushState)
    (hd : ∀ h, d ≠ .opened h) :
    t.titles = s.titles :=
  titles_of_parts (.single (P := fun e => e = d) hp rfl) fun _ he => he ▸ hd

theorem titles_closeSession : (s.closeSession h).titles = s.titles := by
  refine titles_of_parts closeSession_parts ?_
  rintro d rfl k
  exact nofun

end Service

end DocSync
