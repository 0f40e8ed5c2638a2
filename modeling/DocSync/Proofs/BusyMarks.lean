import DocSync.Proofs.PushRun

/-!
What a busy mark tells. An open document is marked until the server has accepted its current text,
and nothing but that and closing it takes the mark away.
-/

namespace DocSync.Service

variable {s : Service} {h n task : Nat} {x y : Session}

def IsOpen (s : Service) (h : Nat) (x : Session) : Prop :=
  s.session? h = some x ∧ x.isClosed = false

/-- A push of a session was called for a version, with a text, and then accepted. The journal lists
the later one first. -/
def Confirmed (s : Service) (h n : Nat) (id : DocumentId) (content : List Char) : Prop :=
  ∃ task, [Notice.answered task h n true, .called task (.sync h n id content)].Sublist s.journal

/-- An event of a run takes in that the current text of a session was accepted. -/
def Run.Accepts (r : Run) (k h : Nat) (x : Session) : Prop :=
  ∃ task a, r.event k = .answer task a ∧
    .called task (.sync h x.version x.id x.document.fullText) ∈ (r.state k).journal ∧
    .answered task h x.version true ∉ (r.state k).journal ∧
    .answered task h x.version true ∈ (r.state (k + 1)).journal

def Run.Closes (r : Run) (k h : Nat) : Prop :=
  ∃ y, (r.state (k + 1)).session? h = some y ∧ y.isClosed = true

/-- What the busy marks of a state of a run tell. -/
structure BusySound (r : Run) (k : Nat) : Prop where
  /-- What an open session pushes, or is to push, is its current version, and it is marked. -/
  current : ∀ h x v, (r.state k).IsOpen h x → x.phase = .pending v ∨ x.phase = .awaiting v →
    v = x.version ∧ (r.state k).running.isBusy x.id = true
  /-- An open session without a mark rests, and the server has accepted its current text. -/
  confirmed : ∀ h x, (r.state k).IsOpen h x → (r.state k).running.isBusy x.id = false →
    x.phase = .idle ∧ (r.state k).Confirmed h x.version x.id x.document.fullText
  /-- A mark is never about a document that no session has open. -/
  owned : ∀ id, (r.state k).running.isBusy id = true → ∃ h x, (r.state k).IsOpen h x ∧ x.id = id
  /-- An awaited push is under way. -/
  awaited : ∀ h x v, (r.state k).IsOpen h x → x.phase = .awaiting v →
    ∃ task after, (r.state k).tasks.lookup task = some (.sync h ⟨v⟩ after)
  /-- Only closing a session, or the acceptance of its current text, takes its mark away. -/
  cleared : ∀ id, (r.state k).running.isBusy id = true →
    (r.state (k + 1)).running.isBusy id = false →
    ∃ h x, (r.state k).IsOpen h x ∧ x.id = id ∧ (r.Closes k h ∨ r.Accepts k h x)
  /-- The answer to a push of an older version changes neither the session nor any mark. -/
  outdated : ∀ task h t after x a, (r.state k).tasks.lookup task = some (.sync h t after) →
    (r.state k).IsOpen h x → t.version ≠ x.version →
    ((r.state k).next (.answer task a)).session? h = some x ∧
      ((r.state k).next (.answer task a)).running = (r.state k).running

theorem confirmed_of_accepted (hs : PushInvariant s.pushState) (hx : s.session? h = some x)
    (ha : s.pushState.Accepted h x.version) :
    s.Confirmed h x.version x.id x.document.fullText := by
  obtain ⟨task, hm⟩ := ha
  obtain ⟨before, rest, he⟩ := List.mem_iff_append.mp hm
  have hsuffix : .answered task h x.version true :: rest <:+ s.pushState.log := ⟨before, he.symm⟩
  obtain ⟨id, c, hc⟩ := hs.answered hsuffix
  have hlog : .called task (.sync h x.version id c) ∈ s.pushState.log :=
    he ▸ List.mem_append_right _ (List.mem_cons_of_mem _ hc)
  obtain ⟨y, hy, rfl, _, hcontent⟩ := hs.called hlog
  obtain rfl : x = y := Option.some.inj (hx.symm.trans hy)
  refine ⟨task, ?_⟩
  have hrest : [Notice.called task (.sync h x.version x.id x.document.fullText)].Sublist rest :=
    List.singleton_sublist.mpr (hcontent rfl ▸ hc)
  have hfilter : s.pushState.log.Sublist s.journal := List.filter_sublist
  refine List.Sublist.trans ?_ hfilter
  rw [he]
  exact (hrest.cons_cons _).trans (List.sublist_append_right _ _)

theorem phase_of_not_busy (hs : PushInvariant s.pushState) (hx : s.IsOpen h x)
    (hb : s.running.isBusy x.id = false) : x.phase = .idle ∧ s.pushState.Accepted h x.version := by
  have hacc : s.pushState.Accepted h x.version := by
    by_contra hn
    exact absurd ((hs.marked.session hx).mpr hn) (by simpa [pushState] using hb)
  have hp := hs.phased hx
  refine ⟨?_, hacc⟩
  simp only [PushState.PhaseHolds] at hp
  cases hphase : x.phase with
  | idle => rfl
  | pending n =>
    rw [hphase] at hp
    obtain ⟨task, hm⟩ := hacc
    obtain ⟨id, c, hc⟩ := PushState.Answered.call hs.answered hm
    exact absurd hc (hp.1 ▸ hp.2 task id c)
  | awaiting n =>
    rw [hphase] at hp
    exact absurd hacc (hp.1 ▸ hp.2.2)

theorem phase_version (hs : PushInvariant s.pushState) (hx : s.IsOpen h x)
    (hp : x.phase = .pending n ∨ x.phase = .awaiting n) : n = x.version := by
  have hphase := hs.phased hx
  simp only [PushState.PhaseHolds] at hphase
  rcases hp with hp | hp
  · rw [hp] at hphase
    exact hphase.1
  · rw [hp] at hphase
    exact hphase.1

theorem Run.called_before (r : Run) {k : Nat} {a : Answer} {c : Call}
    (he : r.event k = .answer task a) {j : Nat}
    (hm : .called j c ∈ (r.state (k + 1)).pushState.log) :
    .called j c ∈ (r.state k).pushState.log := by
  rcases (r.step k).logged_call hm with hm | ⟨i, hi, _⟩
  · exact hm
  · rw [he] at hi
    exact absurd hi (by simp [Event.Admits])

theorem Run.mark_cleared (r : Run) (k : Nat) {id : DocumentId}
    (hb : (r.state k).running.isBusy id = true)
    (hb' : (r.state (k + 1)).running.isBusy id = false) :
    ∃ h x, (r.state k).IsOpen h x ∧ x.id = id ∧ (r.Closes k h ∨ r.Accepts k h x) := by
  have hs := r.invariant k
  have hs' := r.invariant (k + 1)
  obtain ⟨h, x, hx, rfl⟩ := hs.marked.owner hb
  refine ⟨h, x, hx, rfl, ?_⟩
  obtain ⟨y, hy, hxy⟩ := r.evolves (Nat.le_succ k) hx.1
  cases hc : y.isClosed with
  | true => exact Or.inl ⟨y, hy, hc⟩
  | false =>
    right
    obtain ⟨_, task, hm⟩ := phase_of_not_busy hs' ⟨hy, hc⟩ (hxy.id ▸ hb')
    have hold (hm : .answered task h y.version true ∈ (r.state k).pushState.log) : False := by
      obtain ⟨id, c, hcall⟩ := PushState.Answered.call hs.answered hm
      obtain ⟨z, hz, _, hle, _⟩ := hs.called hcall
      obtain rfl : x = z := Option.some.inj (hx.1.symm.trans hz)
      have hv : y.version = x.version := Nat.le_antisymm hle hxy.version
      exact (hs.marked.session hx).mp hb ⟨task, hv ▸ hm⟩
    have hnew : .answered task h y.version true ∉ (r.state k).journal :=
      fun hm => hold ((mem_log rfl).mpr hm)
    obtain ⟨a, he⟩ := r.answer ((mem_log rfl).mp hm) hnew
    obtain ⟨id, c, hcall⟩ := PushState.Answered.call hs'.answered hm
    have hcall := r.called_before he hcall
    obtain ⟨z, hz, rfl, hle, hcontent⟩ := hs.called hcall
    obtain rfl : x = z := Option.some.inj (hx.1.symm.trans hz)
    have hv : y.version = x.version := Nat.le_antisymm hle hxy.version
    rw [hv] at hm hnew hcall
    rw [hcontent hv] at hcall
    exact ⟨task, a, he, (mem_log rfl).mp hcall, hnew, (mem_log rfl).mp hm⟩

theorem outdated_answer (hs : PushInvariant s.pushState) {t : Ticket} {after : After}
    (hw : s.tasks.lookup task = some (.sync h t after)) (hx : s.IsOpen h x)
    (ht : t.version ≠ x.version) (a : Answer) :
    (s.next (.answer task a)).session? h = some x ∧
      (s.next (.answer task a)).running = s.running := by
  simp only [next, hw]
  cases a with
  | connected | completed | informed | stopped => exact ⟨hx.1, rfl⟩
  | synced result =>
    have hp : Part .inside _ _ _ := sync_answered_part (s := s) hw result
    change (s.answer task (.sync h t after) (.synced result)).pushState.session h = some x ∧
      (s.answer task (.sync h t after) (.synced result)).pushState.running = s.running
    generalize (s.answer task (.sync h t after) (.synced result)).pushState = v at hp
    have hsame {h' : Nat} {t' : Ticket} {after' : After}
        (hw' : s.pushState.work task = some (.sync h' t' after')) : h' = h ∧ t' = t := by
      injection hw'.symm.trans hw with he
      injection he with hh ht _
      exact ⟨hh, ht⟩
    cases hp with
    | accept hw' _ hx' _ ht' =>
      obtain ⟨rfl, rfl⟩ := hsame hw'
      obtain rfl := Option.some.inj (hx.1.symm.trans hx')
      exact absurd ht' ht
    | @refuse _ h' t' _ x' _ hw' _ hx' =>
      obtain ⟨rfl, rfl⟩ := hsame hw'
      obtain rfl : x' = x := Option.some.inj (hx'.symm.trans hx.1)
      refine ⟨?_, rfl⟩
      have hphase : x'.phase ≠ .awaiting t'.version := fun hp =>
        ht (phase_version hs hx (Or.inr hp))
      have hsettle : x'.settle t' = x' := by simp [Session.settle, hphase]
      rw [hsettle]
      exact Function.update_self _ _ _
    | ignore => exact ⟨hx.1, rfl⟩

theorem busy_marks_sound (r : Run) (k : Nat) : BusySound r k where
  current h x v hx hp := by
    refine ⟨phase_version (r.invariant k) hx hp, ?_⟩
    cases hb : (r.state k).running.isBusy x.id with
    | true => rfl
    | false =>
      have hidle := (phase_of_not_busy (r.invariant k) hx hb).1
      rcases hp with hp | hp <;> exact absurd (hidle.symm.trans hp) (by simp)
  confirmed h x hx hb := by
    obtain ⟨hidle, hacc⟩ := phase_of_not_busy (r.invariant k) hx hb
    exact ⟨hidle, confirmed_of_accepted (r.invariant k) hx.1 hacc⟩
  owned id hb := (r.invariant k).marked.owner hb
  awaited h x v hx hp := by
    have hphase := (r.invariant k).phased hx
    simp only [PushState.PhaseHolds] at hphase
    rw [hp] at hphase
    exact hphase.2.1
  cleared id hb hb' := r.mark_cleared k hb hb'
  outdated task h t after x a hw hx ht := outdated_answer (r.invariant k) hw hx ht a

/-- A document is opened, and its first push is accepted. -/
def acceptedRun : Run where
  syncDelay := 300
  completionDelay := 100
  input := ⟨⟨[]⟩, []⟩
  event
    | 0 => .connect 0
    | 1 => .answer 0 (.connected (.ok ()) (.ok ()))
    | 2 => .openDocument ⟨"a"⟩ (.standalone ['x']) "a"
    | 3 => .fire 0
    | 4 => .run 1
    | 5 => .answer 1 (.synced (.ok ()))
    | _ => .endStream
  whole k := by
    split <;> rfl

theorem mark_cleared_by_acceptance :
    (acceptedRun.state 5).running.isBusy ⟨"a"⟩ = true ∧
      (acceptedRun.state 6).running.isBusy ⟨"a"⟩ = false ∧
      ∃ h x, (acceptedRun.state 5).IsOpen h x ∧ x.id = ⟨"a"⟩ ∧
        (acceptedRun.Closes 5 h ∨ acceptedRun.Accepts 5 h x) :=
  ⟨by decide, by decide, (busy_marks_sound acceptedRun 5).cleared ⟨"a"⟩ (by decide) (by decide)⟩

end DocSync.Service
