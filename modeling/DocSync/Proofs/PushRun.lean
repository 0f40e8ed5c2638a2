import DocSync.Proofs.PushInvariant

/-!
Runs of a service, and what they keep: the invariant of its pushes, and the text of a session for as
long as its version lasts.
-/

namespace DocSync.Service

variable {place : Place} {s : Service} {e : Event} {k h n task : Nat} {x y : Session}

/-- An unending run of a service that opens documents in one go. -/
structure Run where
  syncDelay : Nat
  completionDelay : Nat
  input : AbbreviationInput
  event : Nat → Event
  whole : ∀ k, (event k).isWhole = true

/-- The events of a run are made inside a runtime, unless it is said where each of them is made. -/
def Run.state (r : Run) : Nat → (place : Nat → Place := fun _ => .inside) → Service
  | 0, _ => initial r.syncDelay r.completionDelay r.input
  | k + 1, place => (r.state k place).next (r.event k) (place k)

theorem Run.invariant (r : Run) (k : Nat) (place : Nat → Place := fun _ => .inside) :
    PushInvariant (r.state k place).pushState := by
  induction k with
  | zero => exact invariant_initial _ _ _
  | succ k ih => exact next_invariant ih (r.whole k) (place k)

theorem Run.step (r : Run) (k : Nat) (place : Nat → Place := fun _ => .inside) :
    PushLast (place k) (r.event k).Admits (r.state k place).pushState
      (r.state (k + 1) place).pushState :=
  next_parts (r.invariant k place).numbered (r.whole k) (place k)

section

variable {place : Nat → Place}

theorem Run.evolves (r : Run) {j : Nat} (hjk : j ≤ k)
    (hx : (r.state j place).session? h = some x) :
    ∃ y, (r.state k place).session? h = some y ∧ Evolves x y := by
  induction hjk with
  | refl => exact ⟨x, hx, .refl x⟩
  | @step k _ ih =>
    obtain ⟨y, hy, hxy⟩ := ih
    obtain ⟨z, hz, hyz⟩ := ((r.step k place).parts trivial).evolves hy
    exact ⟨z, hz, hxy.trans hyz⟩

theorem Run.document_eq (r : Run) {j k : Nat} (hx : (r.state j place).session? h = some x)
    (hy : (r.state k place).session? h = some y) (hv : x.version = y.version) :
    x.document = y.document := by
  rcases Nat.le_total j k with hjk | hkj
  · obtain ⟨z, hz, he⟩ := r.evolves hjk hx
    obtain rfl : y = z := Option.some.inj (hy.symm.trans hz)
    exact (he.document hv.symm).symm
  · obtain ⟨z, hz, he⟩ := r.evolves hkj hy
    obtain rfl : x = z := Option.some.inj (hx.symm.trans hz)
    exact he.document hv

end

theorem mem_log {m : Notice} (hm : m.isPush = true) :
    m ∈ s.pushState.log ↔ m ∈ s.journal := by
  simp [pushState, hm]

theorem Parts.logged_call {P : Deed → Prop} {v w : PushState} (hp : Parts place P v w)
    (hP : ∀ d, P d → d.isPush = false) {c : Call} (hm : .called task c ∈ w.log) :
    .called task c ∈ v.log := by
  induction hp with
  | refl => exact hm
  | tail _ hq hd ih =>
    rcases hq.logged_call hm with hm | ⟨j, rfl, _⟩
    · exact ih hm
    · exact absurd (hP _ hd) (by simp [Deed.isPush])

theorem PushLast.logged_call {P : Deed → Prop} {v w : PushState} (hp : PushLast place P v w)
    {c : Call} (hm : .called task c ∈ w.log) :
    .called task c ∈ v.log ∨ ∃ h, P (.pushed h) ∧ w.Pushes h (.called task c) := by
  rcases hp with hp | ⟨u, h, hp, hq, hd⟩
  · exact Or.inl (hp.logged_call (fun d hd => hd.2) hm)
  · rcases hq.logged_call hm with hm | ⟨j, hj, hn⟩
    · refine Or.inl (hp.logged_call ?_ hm)
      rintro d rfl
      rfl
    · cases hj
      exact Or.inr ⟨h, hd, hn⟩

theorem Parts.logged_answer {P : Deed → Prop} {v w : PushState} (hp : Parts place P v w)
    {accepted : Bool} (hm : .answered task h n accepted ∈ w.log) :
    .answered task h n accepted ∈ v.log ∨ P (.answered task) := by
  induction hp with
  | refl => exact Or.inl hm
  | tail _ hq hd ih =>
    rcases hq.logged_answer hm with hm | ⟨rfl, _⟩
    · exact ih hm
    · exact Or.inr hd

theorem Event.Admits.answer (ha : e.Admits (.answered task)) : ∃ a, e = .answer task a := by
  cases e with
  | answer k a =>
    obtain rfl : task = k := ha
    exact ⟨a, rfl⟩
  | _ => exact absurd ha (by simp [Event.Admits])

theorem Run.answer (r : Run) {accepted : Bool}
    (hm : .answered task h n accepted ∈ (r.state (k + 1)).journal)
    (hnew : .answered task h n accepted ∉ (r.state k).journal) :
    ∃ a, r.event k = .answer task a := by
  have hp := (r.step k).parts trivial
  rcases hp.logged_answer ((mem_log rfl).mpr hm) with hm | ha
  · exact absurd ((mem_log rfl).mp hm) hnew
  · exact ha.answer

end DocSync.Service
