import DocSync.Proofs.Connections

/-! Unending runs of a client, in which the steps of all parties come in any order. -/

set_option linter.unusedSectionVars false

namespace DocSync.Server.Client

variable [Wording]

variable {c : Client} {seq : Nat}

/-- The client of an unending run. -/
def run (event : Nat → Event) : Nat → Client
  | 0 => initial
  | k + 1 => (run event k).next (event k)

theorem invariant_run (event : Nat → Event) (k : Nat) : (run event k).Invariant := by
  induction k with
  | zero => exact invariant_initial
  | succ k ih => exact invariant_next ih (event k)

theorem move_run (event : Nat → Event) (k seq : Nat) :
    ((run event k).standing seq).Move (run event k) (event k) seq
      ((run event (k + 1)).standing seq) :=
  move_next (invariant_run event k).numbered _ _

theorem inBounds_run (event : Nat → Event) (k : Nat) : (run event k).InBounds := by
  induction k with
  | zero => exact inBounds_initial
  | succ k ih => exact inBounds_next ih (event k)

theorem alive?_run (event : Nat → Event) {k j : Nat} (hkj : k ≤ j)
    (hno : ∀ i, k ≤ i → i < j → ¬(run event i).Installs (event i))
    (ha : (run event k).alive? = none) : (run event j).alive? = none := by
  induction hkj with
  | refl => exact ha
  | @step j hkj ih =>
    have hj := ih fun i hi hij => hno i hi (Nat.lt_succ_of_lt hij)
    have hfades := fades_next (hno j hkj (Nat.lt_succ_self j))
    exact hfades.alive?_eq_none (inBounds_run event j) hj

theorem mem_endings {r : Except Failure Reply} :
    r ∈ (c.standing seq).endings ↔ .ended seq r ∈ c.journal := by
  simp only [standing, List.mem_filterMap]
  constructor
  · rintro ⟨n, hn, he⟩
    simp only [Notice.ending?] at he
    split at he
    · split at he
      · cases he
        subst_vars
        exact hn
      · cases he
    · cases he
  · intro hn
    exact ⟨_, hn, by simp [Notice.ending?]⟩

theorem mem_pending : seq ∈ c.pending ↔ (c.standing seq).isPending = true := by
  simp [standing]

theorem not_pending_of_standing (hp : (c.standing seq).isPending = false) : seq ∉ c.pending := by
  simp [mem_pending, hp]

end DocSync.Server.Client
