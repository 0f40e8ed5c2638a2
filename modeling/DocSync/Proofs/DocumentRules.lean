import DocSync.Proofs.Bystanders
import Mathlib.Data.List.InsertIdx

/-!
What an event about a document does to what a service shows of it. Each rule reads and changes the
view of that document only, so services that show the same of it go on showing the same.
-/

namespace DocSync.Service

open PushState

/-- A new version of a text. -/
def Look.write (l : Look) (document : Document) (due : Option Nat) : Look :=
  { l with
    document := document
    version := l.version + 1
    phase := .pending (l.version + 1)
    due := due }

def Look.send (l : Look) : Look :=
  if l.phase = .pending l.version then { l with phase := .awaiting l.version } else l

def Look.settle (l : Look) (t : Ticket) : Look :=
  if l.phase = .awaiting t.version then { l with phase := .idle } else l

def Look.close (l : Look) : Look := { l with phase := .idle, isClosed := true, due := none }

namespace View

def look? (v : View) (n : Nat) : Option Look := v.sessions[n]?.join

def open? (v : View) (n : Nat) : Option Look := (v.look? n).filter fun l => !l.isClosed

def see (v : View) (n : Nat) (l : Look) : View := { v with sessions := v.sessions.set n (some l) }

def tell (v : View) (news : List News) : View := { v with news := news ++ v.news }

/-- A session gets a new text, which is to be pushed after the debounce delay. -/
def write (v : View) (n : Nat) (l : Look) (document : Document) : View :=
  { v.see n (l.write document (some (v.now + v.syncDelay))) with isBusy := true }

def edit (v : View) (n : Nat) (f : Document → Document) : View :=
  match v.open? n with
  | none => v
  | some l => v.write n l (f l.document)

/-- The session that owns the document takes a change of its channel in. -/
def change (v : View) (id : DocumentId) (channel : String) (change : ContentChange) : View :=
  match v.owner with
  | none => v
  | some n =>
    match v.open? n with
    | none => v
    | some l =>
      if l.channel = channel then
        match l.document.applyAll change.changes with
        | .error e => v.tell [.failed (some id) (Failure.edit e).message]
        | .ok document => v.write n l document
      else v

def closeSession (v : View) (n : Nat) : View :=
  match v.open? n with
  | none => v
  | some l => { v.see n l.close with isBusy := false }

def closeDocument (v : View) : View :=
  match v.owner with
  | none => v
  | some n => { v.closeSession n with owner := none, markers := none }

/-- Why the document cannot be opened. -/
def refusal? (v : View) (id : DocumentId) : Option Failure :=
  if v.isStopped then some .serviceStopped
  else if !v.isConnected then some .notConnected
  else if v.owner.isSome then some (.alreadyOpen id)
  else none

def openDocument (v : View) (id : DocumentId) (document : Document) (channel : String) : View :=
  match v.refusal? id with
  | some _ => v
  | none =>
    let markers := DiagnosticsStore.place ⟨v.messages, []⟩ id document.shift
    { v with
      sessions := v.sessions ++ [some ⟨document, 1, .pending 1, false, channel, some v.now⟩]
      owner := some v.sessions.length
      isBusy := true
      markers := some markers
      news := .markers markers :: v.news }

def flush (v : View) (request n : Nat) : View :=
  match v.look? n with
  | none => v
  | some l =>
    if l.isClosed then v.tell [.finished request (.done (.ok ()))]
    else
      { v.see n (l.write l.document none).send with
        isBusy := true
        tasks := v.tasks ++ [some (.sync n ⟨l.version + 1⟩ (.flush request))]
        news := .pushed (l.version + 1) l.document.fullText :: v.news }

/-- Why a request about the document is refused, or the session that it is about. -/
def require (v : View) (id : DocumentId) : Except Failure (Option Look) :=
  if v.isStopped then .error .serviceStopped
  else if !v.isConnected then .error .notConnected
  else
    match v.owner with
    | none => .error (.unknownDocument id)
    | some n => .ok (v.look? n)

def info (v : View) (id : DocumentId) (request : Nat) (p : EditorPosition) (use : InfoUse) : View :=
  match v.require id with
  | .error e => v.tell [.finished request (use.refuse e)]
  | .ok none => v
  | .ok (some l) =>
    { v with
      tasks := v.tasks ++ [some (.info request id use)]
      news := .asked (l.document.shift.toServer p) :: v.news }

/-- The answer to a push comes in. -/
def settle (v : View) (id : DocumentId) (n : Nat) (t : Ticket) (result : Except Failure Unit) :
    View :=
  match v.look? n with
  | none => v
  | some l =>
    let told := v.tell (refusal id l.isClosed result)
    if l.isClosed then told
    else
      match result with
      | .ok () =>
        if t.isCurrent l.version then { told.see n (l.settle t) with isBusy := false } else told
      | .error _ => told.see n (l.settle t)

def endTask (v : View) (i : Nat) (news : List News) : View :=
  { v with tasks := v.tasks.eraseIdx i, news := news ++ v.news }

def answer (v : View) (id : DocumentId) (i : Nat) (a : Answer) : View :=
  match v.tasks[i]?.join, a with
  | some (.sync n t after), .synced result =>
    (v.settle id n t result).endTask i (after.news result)
  | some (.info request _ use), .informed (.ok r) => v.endTask i [.finished request (use.outcome r)]
  | some (.info request _ use), .informed (.error e) =>
    v.endTask i [.finished request (use.refuse e), .failed (some id) e.message]
  | _, _ => v

/-- A task that a timer started gets its turn. -/
def start (v : View) (i n : Nat) : View :=
  match v.open? n with
  | none => v.endTask i []
  | some l =>
    { v.see n l.send with
      tasks := v.tasks.set i (some (.sync n ⟨l.version⟩ .nothing))
      news := .pushed l.version l.document.fullText :: v.news }

/-- The timer of a session fires. -/
def fire (v : View) (n : Nat) (l : Look) : View :=
  { v.see n { l with due := none } with tasks := v.tasks ++ [some (.start n)] }

end View

variable {s t : Service} {names : Names} {id : DocumentId} {e : Event} {w : Work}
  {h i k n task : Nat} {x y : Session}

/-- What of a service edits and pushes leave alone. -/
def desk (s : Service) :
    (Nat × Nat × Bool × Bool × Bool × Link) × List (DocumentId × Nat) × DiagnosticsStore :=
  (s.setting, s.registry, s.diagnostics)

theorem look?_eq (hx : s.session? h = some x) :
    s.pushState.look? h = some (.of x (s.pushState.due h)) := by
  have hx : s.pushState.session h = some x := hx
  rw [PushState.look?, hx]
  rfl

theorem session_of_number (hn : (s.sessionsOf id)[n]? = some h) :
    ∃ x, s.session? h = some x ∧ x.id = id :=
  mem_sessionsOf.mp (List.mem_of_getElem? hn)

theorem title_of_number (hn : (s.sessionsOf id)[n]? = some h) :
    (s.session? h).map Session.id = some id := by
  obtain ⟨x, hx, hid⟩ := session_of_number hn
  rw [hx, Option.map_some, hid]

theorem number_of_getElem? (hn : (s.sessionsOf id)[n]? = some h) : s.number id h = n :=
  idxOf_of_nodup (nodup_numbers _ _) hn

theorem getElem?_number (hx : s.session? h = some x) :
    (s.sessionsOf x.id)[s.number x.id h]? = some h :=
  getElem?_idxOf_of_mem (mem_sessionsOf.mpr ⟨x, hx, rfl⟩)

theorem view_look? (hn : (s.sessionsOf id)[n]? = some h) (hx : s.session? h = some x) :
    (s.view names id).look? n = some (.of x (s.pushState.due h)) := by
  simp only [View.look?, view, looks, List.getElem?_map, hn, Option.map_some, look?_eq hx,
    Option.join_some]

theorem view_open? (hn : (s.sessionsOf id)[n]? = some h) (hx : s.session? h = some x)
    (ho : x.isClosed = false) :
    (s.view names id).open? n = some (.of x (s.pushState.due h)) := by
  rw [View.open?, view_look? hn hx]
  exact if_pos (by simp [Look.of, ho])

theorem view_closed (hn : (s.sessionsOf id)[n]? = some h) (hx : s.session? h = some x)
    (ho : x.isClosed = true) : (s.view names id).open? n = none := by
  rw [View.open?, view_look? hn hx]
  exact if_neg (by simp [Look.of, ho])

theorem view_look?_none (hn : (s.sessionsOf id)[n]? = none) :
    (s.view names id).look? n = none := by
  simp only [View.look?, view, looks, List.getElem?_map, hn, Option.map_none, Option.join_none]

theorem view_of_desk (hd : t.desk = s.desk) (ht : t.titles = s.titles) :
    t.view names id =
      { s.view names id with
        sessions := t.looks id
        isBusy := t.running.isBusy id
        tasks := t.worksOf id
        news := t.news names id } := by
  simp only [desk, setting, Prod.mk.injEq] at hd
  obtain ⟨⟨hnow, hdelay, hstopped, hconnected, hlistening, _⟩, hreg, hdiag⟩ := hd
  simp only [view, hnow, hdelay, hstopped, hconnected, hlistening, hdiag, open?, hreg,
    number_of_titles ht]

theorem looks_set (hn : (s.sessionsOf id)[n]? = some h) (ht : t.titles = s.titles)
    (hl : ∀ k, k ≠ h → t.pushState.look? k = s.pushState.look? k) :
    t.looks id = (s.looks id).set n (t.pushState.look? h) := by
  rw [looks, sessionsOf_of_titles ht]
  exact map_eq_set (nodup_numbers _ _) hn fun k _ hk => hl k hk

theorem Part.looks_set {d : Deed} (hp : Part .inside s.pushState d t.pushState)
    (hs : s.pushState.Ticking)
    (hn : (s.sessionsOf id)[n]? = some h) (ht : t.titles = s.titles)
    (hd : ∀ k, d.IsAbout s.pushState k → k = h) :
    t.looks id = (s.looks id).set n (t.pushState.look? h) :=
  DocSync.Service.looks_set hn ht fun k hk => hp.look hs fun ha => hk (hd k ha)

theorem Part.looks_append (hp : Part .inside s.pushState (.opened s.sessions.length) t.pushState)
    (hs : s.pushState.Ticking) (ht : t.titles = s.titles ++ [id]) :
    t.looks id = s.looks id ++ [t.pushState.look? s.sessions.length] := by
  rw [looks, sessionsOf_append ht, if_pos rfl, List.map_append, List.map_singleton]
  refine congrArg (· ++ _) (List.map_congr_left fun k hk => hp.look hs ?_)
  rintro rfl
  obtain ⟨y, hy, _⟩ := mem_sessionsOf.mp hk
  have hnone : s.session? s.sessions.length = none := List.getElem?_eq_none (Nat.le_refl _)
  exact Option.some_ne_none y (hy.symm.trans hnone)

theorem worksFor_of_ne (ht : t.titles = s.titles) (hk : t.work k = s.work k) :
    t.worksFor id k = s.worksFor id k := by
  simp only [worksFor, hk]
  cases s.work k with
  | none => rfl
  | some w => rw [Option.bind_some, Option.bind_some, documentOf_of_titles ht]

theorem work_of_tasks (htasks : t.tasks = s.tasks) : t.work = s.work := by
  funext k
  rw [work, work, htasks]

theorem tasksOf_of_tasks (htasks : t.tasks = s.tasks) (hnext : t.nextTask = s.nextTask)
    (ht : t.titles = s.titles) : t.tasksOf id = s.tasksOf id := by
  rw [tasksOf, tasksOf, hnext]
  exact numbers_congr fun k _ => worksFor_of_ne ht (congrFun (work_of_tasks htasks) k)

theorem worksOf_of_tasks (htasks : t.tasks = s.tasks) (hnext : t.nextTask = s.nextTask)
    (ht : t.titles = s.titles) : t.worksOf id = s.worksOf id := by
  rw [worksOf, worksOf, tasksOf_of_tasks htasks hnext ht, work_of_tasks htasks,
    number_of_titles ht]

theorem worksOf_begin (ht : t.titles = s.titles)
    (hnext : t.nextTask = s.nextTask + 1) (hother : ∀ k, k ≠ s.nextTask → t.work k = s.work k)
    (hself : t.work s.nextTask = some w) (hw : s.documentOf w = some id) :
    t.worksOf id = s.worksOf id ++ [some (w.renumber (s.number id))] := by
  have htasks : t.tasksOf id = s.tasksOf id ++ [s.nextTask] := by
    have hlast : t.worksFor id s.nextTask = true :=
      worksFor_iff.mpr ⟨w, hself, (documentOf_of_titles ht w).trans hw⟩
    have hfirst : ∀ k < s.nextTask, t.worksFor id k = s.worksFor id k := fun k hk =>
      worksFor_of_ne ht (hother k (Nat.ne_of_lt hk))
    rw [tasksOf, hnext, numbers_succ, if_pos hlast, numbers_congr hfirst]
    rfl
  rw [worksOf, htasks, List.map_append, List.map_singleton, hself, number_of_titles ht]
  refine congrArg (· ++ _) (List.map_congr_left fun k hk => ?_)
  rw [hother k (Nat.ne_of_lt (mem_numbers.mp hk).1)]

theorem worksOf_skip (ht : t.titles = s.titles) (hnext : t.nextTask = s.nextTask + 1)
    (hother : ∀ k, k ≠ s.nextTask → t.work k = s.work k)
    (hself : t.worksFor id s.nextTask = false) : t.worksOf id = s.worksOf id := by
  have htasks : t.tasksOf id = s.tasksOf id := by
    have hfirst : ∀ k < s.nextTask, t.worksFor id k = s.worksFor id k := fun k hk =>
      worksFor_of_ne ht (hother k (Nat.ne_of_lt hk))
    rw [tasksOf, hnext, numbers_succ, hself, if_neg Bool.false_ne_true, numbers_congr hfirst,
      List.append_nil]
    rfl
  rw [worksOf, htasks, number_of_titles ht]
  refine List.map_congr_left fun k hk => ?_
  rw [hother k (Nat.ne_of_lt (mem_numbers.mp hk).1)]

theorem worksOf_move (hi : (s.tasksOf id)[i]? = some k) (ht : t.titles = s.titles)
    (hnext : t.nextTask = s.nextTask) (hother : ∀ j, j ≠ k → t.work j = s.work j)
    (hself : t.work k = some w) (hw : s.documentOf w = some id) :
    t.worksOf id = (s.worksOf id).set i (some (w.renumber (s.number id))) := by
  have htasks : t.tasksOf id = s.tasksOf id := by
    rw [tasksOf, hnext]
    refine numbers_congr fun j _ => ?_
    by_cases hj : j = k
    · subst hj
      have hs := (mem_numbers.mp (List.mem_of_getElem? hi)).2
      rw [hs]
      exact worksFor_iff.mpr ⟨w, hself, (documentOf_of_titles ht w).trans hw⟩
    · exact worksFor_of_ne ht (hother j hj)
  have hset := map_eq_set (f := fun j => (s.work j).map (Work.renumber (s.number id)))
    (g := fun j => (t.work j).map (Work.renumber (s.number id))) (nodup_numbers _ _) hi
    fun j _ hj => congrArg _ (hother j hj)
  rw [worksOf, htasks, number_of_titles ht]
  refine hset.trans ?_
  rw [hself]
  rfl

theorem worksOf_end (hi : (s.tasksOf id)[i]? = some k) (ht : t.titles = s.titles)
    (hnext : t.nextTask = s.nextTask) (hother : ∀ j, j ≠ k → t.work j = s.work j)
    (hself : t.work k = none) : t.worksOf id = (s.worksOf id).eraseIdx i := by
  have hk : t.worksFor id k = false := by
    rw [worksFor, hself]
    rfl
  have htasks : t.tasksOf id = (s.tasksOf id).eraseIdx i := by
    rw [tasksOf, hnext]
    exact numbers_eraseIdx hi hk fun j _ hj => worksFor_of_ne ht (hother j hj)
  have hlist : (s.worksOf id).eraseIdx i =
      ((s.tasksOf id).eraseIdx i).map fun j => (s.work j).map (Work.renumber (s.number id)) :=
    List.eraseIdx_map _ _ _
  rw [hlist, ← htasks, worksOf, number_of_titles ht]
  refine List.map_congr_left fun j hj => ?_
  rw [hother j]
  rintro rfl
  exact Bool.false_ne_true (hk.symm.trans (mem_numbers.mp hj).2)

end DocSync.Service
