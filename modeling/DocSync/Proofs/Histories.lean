import Mathlib.Order.Monotone.Basic

/-!
Histories of runs: what holds of every step between two others, and the numbers that steps take.
-/

namespace DocSync.History

variable {γ : Type} {P : Nat → Prop} {next : Nat → Nat} {taken? : Nat → Option γ} {c d : γ}
  {j k n : Nat}

theorem between_self (P : Nat → Prop) (k : Nat) : ∀ m, k < m → m < k + 1 → P m := by
  intro m hk hm
  exact absurd hk (Nat.not_lt_of_le (Nat.le_of_lt_succ hm))

theorem between_succ (hk : k < n) :
    (∀ m, k < m → m < n + 1 → P m) ↔ (∀ m, k < m → m < n → P m) ∧ P n := by
  constructor
  · intro h
    exact ⟨fun m hm hn => h m hm (Nat.lt_succ_of_lt hn), h n hk (Nat.lt_succ_self n)⟩
  · rintro ⟨h, hlast⟩ m hm hn
    rcases Nat.lt_succ_iff_lt_or_eq.mp hn with hn | rfl
    · exact h m hm hn
    · exact hlast

/-- The next number grows by one in every step that takes one. -/
def Counted (next : Nat → Nat) (taken? : Nat → Option γ) : Prop :=
  ∀ k, next (k + 1) = next k + (taken? k).toList.length

theorem Counted.monotone (hc : Counted next taken?) : Monotone next := by
  refine monotone_nat_of_le_succ fun k => ?_
  rw [hc k]
  exact Nat.le_add_right _ _

theorem Counted.lt (hc : Counted next taken?) (ht : taken? k = some c) (hk : k < n) :
    next k < next n := by
  calc next k < next k + 1 := Nat.lt_succ_self _
    _ = next (k + 1) := by rw [hc k, ht]; rfl
    _ ≤ next n := hc.monotone hk

theorem Counted.apart (hc : Counted next taken?) (hj : taken? j = some c) (hk : taken? k = some d)
    (hn : next j = next k) : j = k := by
  rcases Nat.lt_trichotomy j k with hlt | he | hlt
  · exact absurd hn (Nat.ne_of_lt (hc.lt hj hlt))
  · exact he
  · exact absurd hn (Nat.ne_of_gt (hc.lt hk hlt))

end DocSync.History
