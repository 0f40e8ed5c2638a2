import DocSync.Proofs.Lookup
import DocSync.Service.Step

/-!
What events do about pushes, told in parts. A part is one change of the little that matters for
pushing: sessions, who owns a document, which documents run, the debounce timers, the tasks, and
the pushes that were called and answered. Every event of a service that opens documents in one go
is a sequence of parts, so what every part keeps is kept by every run. The parts of an event are
made where the event is.
-/

namespace DocSync.Service

/-- The work of a task that pushes, or is about to. -/
def Work.isPush : Work → Bool
  | .start _ => true
  | .sync _ _ _ => true
  | _ => false

/-- A push that was called or answered. -/
def Notice.isPush : Notice → Bool
  | .called _ (.sync _ _ _ _) => true
  | .answered _ _ _ _ => true
  | _ => false

/-- What matters for pushing. The log lists calls and answers, newest first. -/
structure PushState where
  session : Nat → Option Session
  owner : DocumentId → Option Nat
  running : RunningSet
  agenda : Agenda Debounce
  work : Nat → Option Work
  nextTask : Nat
  isConnected : Bool
  log : List Notice

def pushState (s : Service) : PushState where
  session h := s.sessions[h]?
  owner id := s.registry.lookup id
  running := s.running
  agenda := s.agenda
  work k := s.tasks.lookup k
  nextTask := s.nextTask
  isConnected := s.isConnected
  log := s.journal.filter Notice.isPush

/-- No task, or one that has nothing to do with pushing. -/
def IsQuiet (w : Option Work) : Prop := ∀ v, w = some v → v.isPush = false

/-- What a part is about, by session or task. -/
inductive Deed where
  | aside
  | opened (session : Nat)
  | edited (session : Nat)
  | pushed (session : Nat)
  | fired (session : Nat)
  | answered (task : Nat)
  | closed (session : Nat)

/-- The part is a push. -/
def Deed.isPush : Deed → Bool
  | .pushed _ => true
  | _ => false

namespace PushState

variable (v : PushState)

def setSession (h : Nat) (x : Session) : PushState :=
  { v with session := Function.update v.session h (some x) }

def setWork (task : Nat) (w : Option Work) : PushState :=
  { v with work := Function.update v.work task w }

/-- A new task, which takes the next number. -/
def spawn (w : Work) : PushState :=
  { v with
    work := fun k => (v.work k).or (if k = v.nextTask then some w else none)
    nextTask := v.nextTask + 1 }

def note (n : Notice) : PushState := { v with log := n :: v.log }

def markBusy (id : DocumentId) : PushState := { v with running := (v.running.markBusy id).1 }

def markIdle (id : DocumentId) : PushState := { v with running := (v.running.markIdle id).1 }

def setOwner (owner : DocumentId → Option Nat) : PushState := { v with owner := owner }

/-- A session's debounce timer starts anew. -/
def arm (h : Nat) (x : Session) (deadline : Nat) (place : Place := .inside) : PushState :=
  { v with agenda := (x.timer.schedule v.agenda deadline (fun g => ⟨h, g⟩) place).2 }.setSession h
    { x with
      timer := (x.timer.schedule v.agenda deadline (fun g : Nat => Debounce.mk h g) place).1 }

/-- The task of a session's debounce timer is dropped. -/
def dropTimer (x : Session) : PushState := { v with agenda := (x.timer.cancel v.agenda).2 }

/-- A task calls the push of a session's text. -/
def push (task h : Nat) (x : Session) (after : After) : PushState :=
  ((v.setSession h x.send).setWork task (some (.sync h x.ticket after))).note
    (.called task (.sync h x.version x.id x.document.fullText))

def close (h : Nat) (x : Session) : PushState :=
  ((v.dropTimer x).setSession h
    { x with
      isClosed := true
      subscription := none
      timer := (x.timer.cancel v.agenda).1
      phase := .idle }).markIdle x.id

end PushState

open PushState

inductive Part (place : Place) : PushState → Deed → PushState → Prop where
  /-- Tasks that do not push come and go. -/
  | tasks {v : PushState} {work nextTask} (hn : v.nextTask ≤ nextTask)
      (hw : ∀ k, work k = v.work k ∨ k < nextTask ∧ IsQuiet (v.work k) ∧ IsQuiet (work k)) :
      Part place v .aside { v with work := work, nextTask := nextTask }
  | connect {v} : Part place v .aside { v with isConnected := true }
  | disconnect {v} (ho : ∀ id, v.owner id = none) :
      Part place v .aside { v with isConnected := false }
  /-- Documents are given up by closed sessions only. -/
  | disown {v : PushState} {owner}
      (ho : ∀ id, owner id = v.owner id ∨ owner id = none ∧
        ∀ h x, v.owner id = some h → v.session h = some x → x.isClosed = true) :
      Part place v .aside (v.setOwner owner)
  | open {v : PushState} {h id document channel subscription deadline}
      (hs : v.session h = none) (ho : v.owner id = none) (hc : v.isConnected = true) :
      Part place v (.opened h)
        (((v.setOwner (Function.update v.owner id (some h))).arm h
          (Session.opened id document channel subscription).bump deadline place).markBusy id)
  | edit {v : PushState} {h x document deadline} (hx : v.session h = some x)
      (ho : x.isClosed = false) :
      Part place v (.edited h)
        ((v.arm h { x.bump with document := document } deadline place).markBusy x.id)
  | flush {v : PushState} {h x task after} (hx : v.session h = some x) (ho : x.isClosed = false)
      (hc : v.isConnected = true) (ht : task < v.nextTask) (hw : IsQuiet (v.work task)) :
      Part place v (.pushed h) (((v.dropTimer x).markBusy x.id).push task h
        { x.bump with timer := (x.timer.cancel v.agenda).1 } after)
  /-- Without a connection nothing is pushed. -/
  | stall {v : PushState} {h x} (hx : v.session h = some x) (ho : x.isClosed = false)
      (hc : v.isConnected = false) :
      Part place v (.edited h) (((v.dropTimer x).markBusy x.id).setSession h
        { x.bump with timer := (x.timer.cancel v.agenda).1 })
  | start {v : PushState} {h x task} (hw : v.work task = some (.start h))
      (hx : v.session h = some x) (ho : x.isClosed = false) (hc : v.isConnected = true) :
      Part place v (.pushed h) (v.push task h x .nothing)
  /-- A push is not started when its session is closed or the connection is gone. -/
  | forgo {v : PushState} {h task} (hw : v.work task = some (.start h))
      (hx : ∀ x, v.session h = some x → x.isClosed = true ∨ v.isConnected = false) :
      Part place v .aside (v.setWork task none)
  | fire {v : PushState} {i sleeper x timer} (hi : v.agenda.find? i = some sleeper)
      (hx : v.session sleeper.job.session = some x)
      (ht : x.timer.fire? sleeper.job.generation = some timer) :
      Part place v (.fired sleeper.job.session)
        (({ v with agenda := v.agenda.drop i }.setSession sleeper.job.session
          { x with timer := timer }).spawn (.start sleeper.job.session))
  /-- An outdated timer task ends. -/
  | expire {v : PushState} {i sleeper} (hi : v.agenda.find? i = some sleeper)
      (hx : ∀ x, v.session sleeper.job.session = some x →
        x.timer.fire? sleeper.job.generation = none) :
      Part place v .aside { v with agenda := v.agenda.drop i }
  | accept {v : PushState} {task h t after x w} (hw : v.work task = some (.sync h t after))
      (hq : IsQuiet w) (hx : v.session h = some x) (ho : x.isClosed = false)
      (ht : t.version = x.version) :
      Part place v (.answered task)
        ((((v.note (.answered task h t.version true)).setSession h (x.settle t)).markIdle
          x.id).setWork task w)
  | refuse {v : PushState} {task h t after x w} (hw : v.work task = some (.sync h t after))
      (hq : IsQuiet w) (hx : v.session h = some x) (ho : x.isClosed = false) :
      Part place v (.answered task)
        (((v.note (.answered task h t.version false)).setSession h (x.settle t)).setWork task w)
  /-- An answer that comes after the session was closed, or an acceptance of an old version. -/
  | ignore {v : PushState} {task h t after accepted w} (hw : v.work task = some (.sync h t after))
      (hq : IsQuiet w)
      (hx : ∀ x, v.session h = some x →
        x.isClosed = true ∨ accepted = true ∧ t.version ≠ x.version) :
      Part place v (.answered task) ((v.note (.answered task h t.version accepted)).setWork task w)
  | close {v : PushState} {h x} (hx : v.session h = some x) (ho : x.isClosed = false) :
      Part place v (.closed h) (v.close h x)

/-- Parts in sequence, all of them of some kinds. -/
inductive Parts (place : Place) (P : Deed → Prop) : PushState → PushState → Prop where
  | refl (v) : Parts place P v v
  | tail {v u w d} : Parts place P v u → Part place u d w → P d → Parts place P v w

variable {place : Place}

theorem Parts.single {P : Deed → Prop} {v w d} (h : Part place v d w) (hd : P d) :
    Parts place P v w :=
  .tail (.refl v) h hd

theorem Parts.trans {P : Deed → Prop} {v u w} (h : Parts place P v u) (k : Parts place P u w) :
    Parts place P v w := by
  induction k with
  | refl => exact h
  | tail _ hp hd ih => exact .tail ih hp hd

theorem Parts.mono {P Q : Deed → Prop} {v w} (h : Parts place P v w) (hPQ : ∀ d, P d → Q d) :
    Parts place Q v w := by
  induction h with
  | refl => exact .refl _
  | tail _ hp hd ih => exact .tail ih hp (hPQ _ hd)

theorem Parts.keep {P : Deed → Prop} {I : PushState → Prop}
    (hI : ∀ {v d w}, Part place v d w → I v → I w) {v w} (h : Parts place P v w) (hv : I v) :
    I w := by
  induction h with
  | refl => exact hv
  | tail _ hp _ ih => exact hI hp ih

/-- Parts of which none is a push, or a push after parts that do nothing else. -/
def PushLast (place : Place) (P : Deed → Prop) (v w : PushState) : Prop :=
  Parts place (fun d => P d ∧ d.isPush = false) v w ∨
    ∃ u h, Parts place (fun d => d = .aside) v u ∧ Part place u (.pushed h) w ∧ P (.pushed h)

theorem PushLast.parts {P : Deed → Prop} {v w} (h : PushLast place P v w) (hP : P .aside) :
    Parts place P v w := by
  rcases h with h | ⟨u, k, h, hp, hd⟩
  · exact h.mono fun d hd => hd.1
  · exact .tail (h.mono fun d hd => hd ▸ hP) hp hd

theorem PushLast.after {P : Deed → Prop} {v u w} (hp : Part place v .aside u) (hP : P .aside)
    (h : PushLast place P u w) : PushLast place P v w := by
  rcases h with h | ⟨t, k, h, hq, hd⟩
  · exact Or.inl (.trans (.single hp ⟨hP, rfl⟩) h)
  · exact Or.inr ⟨t, k, .trans (.single hp rfl) h, hq, hd⟩

theorem PushLast.mono {P Q : Deed → Prop} {v w} (h : PushLast place P v w)
    (hPQ : ∀ d, P d → Q d) : PushLast place Q v w := by
  rcases h with h | ⟨u, k, h, hp, hd⟩
  · exact Or.inl (h.mono fun d hd => ⟨hPQ d hd.1, hd.2⟩)
  · exact Or.inr ⟨u, k, h, hp, hPQ _ hd⟩

/-- How a session can move on. A closed one does not. -/
structure Evolves (x y : Session) : Prop where
  id : y.id = x.id
  version : x.version ≤ y.version
  document : y.version = x.version → y.document = x.document
  closed : x.isClosed = true → y.isClosed = true ∧ y.version = x.version ∧ y.phase = x.phase

theorem Evolves.refl (x : Session) : Evolves x x :=
  ⟨rfl, Nat.le_refl _, fun _ => rfl, fun h => ⟨h, rfl, rfl⟩⟩

theorem Evolves.trans {x y z : Session} (h : Evolves x y) (k : Evolves y z) : Evolves x z where
  id := k.id.trans h.id
  version := Nat.le_trans h.version k.version
  document he := by
    have hv := h.version
    have kv := k.version
    exact (k.document (by omega)).trans (h.document (by omega))
  closed hc := by
    obtain ⟨hc, hv, hp⟩ := h.closed hc
    obtain ⟨kc, kv, kp⟩ := k.closed hc
    exact ⟨kc, kv.trans hv, kp.trans hp⟩

theorem evolves_bump {x y : Session} (ho : x.isClosed = false) (hi : y.id = x.id)
    (hv : y.version = x.version + 1) : Evolves x y where
  id := hi
  version := by omega
  document := by omega
  closed hc := by simp [ho] at hc

theorem evolves_send (x : Session) (ho : x.isClosed = false) : Evolves x x.send := by
  simp only [Session.send]
  split
  · exact ⟨rfl, Nat.le_refl _, fun _ => rfl, by simp [ho]⟩
  · exact .refl x

theorem evolves_settle (x : Session) (t : Ticket) (ho : x.isClosed = false) :
    Evolves x (x.settle t) := by
  simp only [Session.settle]
  split
  · exact ⟨rfl, Nat.le_refl _, fun _ => rfl, by simp [ho]⟩
  · exact .refl x

theorem evolves_update {f : Nat → Option Session} {h k : Nat} {x y z : Session}
    (hx : f h = some x) (hxy : Evolves x y) (hz : f k = some z) :
    ∃ z', Function.update f h (some y) k = some z' ∧ Evolves z z' := by
  by_cases hk : k = h
  · subst k
    obtain rfl : x = z := by simpa [hx] using hz
    exact ⟨y, by simp, hxy⟩
  · exact ⟨z, by simp [hk, hz], .refl z⟩

theorem Part.evolves {v w : PushState} {d : Deed} (hp : Part place v d w) {k : Nat} {z : Session}
    (hz : v.session k = some z) : ∃ z', w.session k = some z' ∧ Evolves z z' := by
  cases hp with
  | tasks | connect | disconnect | disown | forgo | expire | ignore => exact ⟨z, hz, .refl z⟩
  | @«open» h _ _ _ _ _ hs =>
    have hk : k ≠ h := by
      rintro rfl
      simp [hs] at hz
    exact ⟨z, (Function.update_of_ne hk _ _).trans hz, .refl z⟩
  | edit hx ho => exact evolves_update hx (evolves_bump ho rfl rfl) hz
  | @flush h x _ _ hx ho =>
    have hb := evolves_bump (y := { x.bump with timer := (x.timer.cancel v.agenda).1 }) ho rfl rfl
    exact evolves_update hx (hb.trans (evolves_send _ ho)) hz
  | stall hx ho => exact evolves_update hx (evolves_bump ho rfl rfl) hz
  | start _ hx ho => exact evolves_update hx (evolves_send _ ho) hz
  | fire _ hx =>
    exact evolves_update hx ⟨rfl, Nat.le_refl _, fun _ => rfl, fun h => ⟨h, rfl, rfl⟩⟩ hz
  | accept _ _ hx ho => exact evolves_update hx (evolves_settle _ _ ho) hz
  | refuse _ _ hx ho => exact evolves_update hx (evolves_settle _ _ ho) hz
  | close hx ho => exact evolves_update hx ⟨rfl, Nat.le_refl _, fun _ => rfl, by simp [ho]⟩ hz

theorem Parts.evolves {P : Deed → Prop} {v w : PushState} (hp : Parts place P v w) {k : Nat}
    {z : Session} (hz : v.session k = some z) : ∃ z', w.session k = some z' ∧ Evolves z z' := by
  induction hp with
  | refl => exact ⟨z, hz, .refl z⟩
  | tail _ hp _ ih =>
    obtain ⟨y, hy, hzy⟩ := ih
    obtain ⟨z', hz', hyz⟩ := hp.evolves hy
    exact ⟨z', hz', hzy.trans hyz⟩

/-- What an event can do about pushes. -/
def Event.Admits : Event → Deed → Prop
  | _, .aside => True
  | .openDocument _ _ _, .opened _ => True
  | .change _ _, .edited _ => True
  | .setText h _, .edited k => k = h
  | .setContext h _ _, .edited k => k = h
  | .flush _ h, .edited k => k = h
  | .flush _ h, .pushed k => k = h
  | .run _, .edited _ => True
  | .run _, .pushed _ => True
  | .fire _, .fired _ => True
  | .answer task _, .answered k => k = task
  | .closeDocument _, .closed _ => True
  | .closeSession h, .closed k => k = h
  | .shutdown _, .closed _ => True
  | _, _ => False

/-- The event does not split the opening of a document in two. -/
def Event.isWhole : Event → Bool
  | .beginOpen _ _ _ => false
  | .finishOpen _ => false
  | _ => true

end DocSync.Service
