/-!
Line and column counts: 32-bit numbers whose sums and differences stop at the ends of the range.
-/

namespace DocSync

/-- A line or column number, or a number of lines. -/
abbrev Count := UInt32

namespace Count

def top : Count := 4294967295

def clamp (n : Nat) : Count := if n ≤ 4294967295 then UInt32.ofNat n else top

/-- The sum, or the largest count where the sum is out of range. -/
def plus (a b : Count) : Count := clamp (a.toNat + b.toNat)

/-- The difference, or zero where it would be negative. -/
def minus (a b : Count) : Count := clamp (a.toNat - b.toNat)

theorem toNat_clamp (n : Nat) : (clamp n).toNat = min n 4294967295 := by
  unfold clamp top
  split
  · rw [UInt32.toNat_ofNat_of_lt' (by show n < 4294967296; omega)]; omega
  · show 4294967295 = _; omega

theorem toNat_plus (a b : Count) : (plus a b).toNat = min (a.toNat + b.toNat) 4294967295 :=
  toNat_clamp _

theorem toNat_minus (a b : Count) : (minus a b).toNat = a.toNat - b.toNat := by
  have h := UInt32.toNat_lt a
  rw [minus, toNat_clamp]
  omega

end Count

end DocSync
