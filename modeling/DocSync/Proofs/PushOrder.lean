import DocSync.Proofs.PushRun

/-!
No edit is lost, and pushes are in order. The current text of an open document is in the latest
push, unless a push of it is to come; and a push carries the text of the version that its ticket
names.

A service is meant to be driven from inside a runtime. An edit that is made outside of one cannot
schedule its push, so its version is left until the next edit or flush. Nothing else is lost: the
order and the texts of pushes do not depend on where calls are made.
-/

namespace DocSync.Service

variable {s : Service} {h k n : Nat} {x : Session} {place : Nat → Place}

/-- The pushes of a session with their versions and texts, newest first. -/
def pushes (s : Service) (h : Nat) : List (Nat × List Char) :=
  s.journal.filterMap (Notice.sync? h)

/-- A session's debounce timer is armed: its task sleeps and is not outdated. -/
def IsArmed (s : Service) (h : Nat) (x : Session) : Prop :=
  ∃ sleeper ∈ s.agenda.sleepers, x.timer.pending = some sleeper.id ∧
    sleeper.job = ⟨h, x.timer.generation⟩

/-- The event schedules a push for later. -/
def Event.schedules : Event → Bool
  | .openDocument _ _ _ => true
  | .beginOpen _ _ _ => true
  | .change _ _ => true
  | .setText _ _ => true
  | .setContext _ _ _ => true
  | _ => false

/-- A version of a session was started outside a runtime, so its push could not be scheduled. -/
def Run.IsLeft (r : Run) (place : Nat → Place) (k h n : Nat) : Prop :=
  ∃ j < k, place j = .outside ∧ (r.event j).schedules = true ∧
    (∃ x, (r.state (j + 1) place).session? h = some x ∧ x.version = n) ∧
    ∀ x, (r.state j place).session? h = some x → x.version < n

/-- How the pushes of a run stand in one of its states. -/
structure PushSound (r : Run) (place : Nat → Place) (k : Nat) : Prop where
  /-- In a run that is driven from inside a runtime nothing is left. -/
  kept : (∀ j < k, place j = .inside) → ∀ h n, ¬r.IsLeft place k h n
  /-- The timer is armed, or the task of a fired timer is to start, or the text is pushed, unless
  the text was last changed outside a runtime. -/
  delivered : ∀ h x, (r.state k place).session? h = some x → x.isClosed = false →
    ¬r.IsLeft place k h x.version →
      (r.state k place).IsArmed h x ∨
        (∃ task, (r.state k place).tasks.lookup task = some (.start h)) ∨
        ∃ n, ((r.state k place).pushes h).head? = some (n, x.document.fullText)
  /-- Versions do not decrease. -/
  ordered : ∀ h, ((r.state k place).pushes h).Pairwise fun later earlier => earlier.1 ≤ later.1
  /-- The version of a push was current at some time, and whenever it was, its text was the text. -/
  truthful : ∀ h n content, (n, content) ∈ (r.state k place).pushes h →
    (∃ j ≤ k, ∃ x, (r.state j place).session? h = some x ∧ x.version = n) ∧
      ∀ j x, (r.state j place).session? h = some x → x.version = n →
        x.document.fullText = content

theorem pushes_eq : s.pushes h = syncs h s.pushState.log := by
  simp only [pushes, syncs]
  change _ = (s.journal.filter Notice.isPush).filterMap (Notice.sync? h)
  rw [List.filterMap_filter]
  congr 1
  funext m
  cases m with
  | called task c => cases c <;> rfl
  | _ => rfl

theorem delivered_of_invariant (hs : PushInvariant s.pushState) (hx : s.session? h = some x)
    (ho : x.isClosed = false) (hd : s.pushState.Delivers h x) :
    s.IsArmed h x ∨ (∃ task, s.tasks.lookup task = some (.start h)) ∨
      ∃ n, (s.pushes h).head? = some (n, x.document.fullText) := by
  rcases hd with hp | hw | ⟨c, hc⟩
  · obtain ⟨i, hi⟩ := Option.isSome_iff_exists.mp hp
    obtain ⟨sleeper, hf, hjob⟩ := hs.timed.armed ⟨hx, ho⟩ hi
    have hid : sleeper.id = i := Agenda.find?_id hf
    exact Or.inl ⟨sleeper, List.mem_of_find?_eq_some hf, hid ▸ hi, hjob⟩
  · exact Or.inr (Or.inl hw)
  · refine Or.inr (Or.inr ⟨x.version, ?_⟩)
    obtain ⟨task, id, hm⟩ := mem_syncs (List.mem_of_head? hc)
    obtain ⟨y, hy, _, _, hcontent⟩ := hs.called hm
    obtain rfl : x = y := Option.some.inj (hx.symm.trans hy)
    rw [pushes_eq, hc, hcontent rfl]

theorem next_place {e : Event} (he : e.schedules = false) (place : Place) :
    s.next e place = s.next e := by
  cases e <;> first | rfl | cases he

theorem Run.not_isLeft (r : Run) (hp : ∀ j < k, place j = .inside) : ¬r.IsLeft place k h n := by
  rintro ⟨j, hj, hout, _⟩
  cases (hp j hj).symm.trans hout

/-- A version that is not left gets to the server. -/
theorem Run.delivers (r : Run) (place : Nat → Place) (k : Nat) {h : Nat} {x : Session}
    (hx : (r.state k place).pushState.IsOpen h x) :
    (r.state k place).pushState.Delivers h x ∨ r.IsLeft place k h x.version := by
  induction k generalizing x with
  | zero => exact absurd hx not_open_initial
  | succ k ih =>
    by_cases hv : ∀ y, (r.state k place).pushState.IsOpen h y → y.version = x.version →
        (r.state k place).pushState.Delivers h y
    · cases he : (r.event k).schedules with
      | true =>
        refine (((r.step k place).parts trivial).delivers (r.invariant k place) hx hv).imp id ?_
        rintro ⟨hout, hlt⟩
        exact ⟨k, Nat.lt_succ_self k, hout, he, ⟨x, hx.1, rfl⟩, hlt⟩
      | false =>
        have hp := (next_parts (r.invariant k place).numbered (r.whole k)).parts trivial
        rw [← next_place he (place k)] at hp
        refine (hp.delivers (r.invariant k place) hx hv).imp id ?_
        rintro ⟨hout, _⟩
        cases hout
    · simp only [not_forall] at hv
      obtain ⟨y, hy, hversion, hnot⟩ := hv
      obtain ⟨j, hj, hleft⟩ := (ih hy).resolve_left hnot
      exact Or.inr ⟨j, Nat.lt_succ_of_lt hj, hversion ▸ hleft⟩

theorem Run.current_when_called (r : Run) {task : Nat} {id : DocumentId} {content : List Char}
    (hm : .called task (.sync h n id content) ∈ (r.state k place).pushState.log) :
    ∃ j ≤ k, ∃ x, (r.state j place).session? h = some x ∧ x.version = n ∧
      x.document.fullText = content := by
  induction k with
  | zero => exact absurd hm List.not_mem_nil
  | succ k ih =>
    rcases (r.step k place).logged_call hm with hm | ⟨i, _, x, task', after, hx, _, he⟩
    · obtain ⟨j, hj, hx⟩ := ih hm
      exact ⟨j, Nat.le_succ_of_le hj, hx⟩
    · cases he
      exact ⟨k + 1, Nat.le_refl _, x, hx.1, rfl, rfl⟩

/-- An edit comes between a timer's firing and the push that it starts. -/
def editedRun : Run where
  syncDelay := 300
  completionDelay := 100
  input := ⟨⟨[]⟩, []⟩
  event
    | 0 => .connect 0
    | 1 => .answer 0 (.connected (.ok ()) (.ok ()))
    | 2 => .openDocument ⟨"a"⟩ (.standalone ['x']) "a"
    | 3 => .fire 0
    | 4 => .setText 0 ['y']
    | 5 => .run 1
    | 6 => .flush 1 0
    | _ => .endStream
  whole k := by
    split <;> rfl

/-- Outside a runtime neither the opening nor the edit is pushed before the flush. -/
example :
    let outside (k : Nat) := editedRun.state k fun _ => .outside
    (outside 6).agenda.sleepers = [] ∧ (outside 6).tasks = [] ∧ (outside 6).pushes 0 = [] ∧
      (outside 7).pushes 0 = [(3, ['y'])] := by
  decide

end DocSync.Service
