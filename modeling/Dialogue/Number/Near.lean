import Dialogue.Number

/-!
Numbers count as equal when they are near each other. Main statement: `near_iff` says how far apart
they may be, counted in smallest units.
-/

namespace Dialogue.Number

/-- The greatest distance, in units, of numbers that count as equal. A distance counts as near
when its rounding to a number is below the number nearest to one ten-thousandth; up to the
midpoint between that number and the one before it this is so. -/
def reach : Nat := (2 * 0x1a36e2eb1c432d - 1) <<< 1007

/-- `reach` without its last 1007 bits, which are zero. -/
@[noinline] def reachHead : Nat := 2 * 0x1a36e2eb1c432d - 1

def doubled (n times : Nat) : Nat := if times = 0 then n else n <<< times

@[simp] theorem doubled_eq (n times : Nat) : doubled n times = n <<< times := by
  unfold doubled
  split <;> simp_all

def reachAt (s : Nat) : Nat := doubled reachHead (1007 - s) >>> (s - 1007)

def gap (s : Nat) (x y : Number) : Nat :=
  let a := doubled x.significand (x.scale - s)
  let b := doubled y.significand (y.scale - s)
  if x.isNegative = y.isNegative then (a - b) + (b - a) else a + b

/-- A number is out of reach of those with a much smaller scale, unless it is small itself. -/
def dwarfs (x y : Number) : Bool := 1012 ≤ x.scale && y.scale + 2 ≤ x.scale

/-- Equality of numbers up to `reach`. Infinities and NaN are equal to nothing. The distance is
counted as coarsely as both numbers allow. -/
def near (x y : Number) : Bool :=
  x.isFinite && y.isFinite && !x.dwarfs y && !y.dwarfs x &&
    decide (gap (min x.scale y.scale) x y ≤ reachAt (min x.scale y.scale))

theorem reachAt_eq (s : Nat) : reachAt s = reach >>> s := by
  unfold reachAt reach
  rw [doubled_eq, ← reachHead]
  generalize reachHead = m
  generalize 1007 = k
  rcases Nat.le_total s k with h | h
  · obtain ⟨d, rfl⟩ := Nat.exists_eq_add_of_le' h
    rw [Nat.add_sub_cancel, Nat.sub_eq_zero_of_le h, Nat.shiftRight_zero, Nat.shiftLeft_add,
      Nat.shiftLeft_shiftRight]
  · obtain ⟨d, rfl⟩ := Nat.exists_eq_add_of_le h
    rw [Nat.add_sub_cancel_left, Nat.sub_eq_zero_of_le h, Nat.shiftLeft_zero, Nat.shiftRight_add,
      Nat.shiftLeft_shiftRight]

theorem gap_shiftLeft {s : Nat} {x y : Number} (hx : s ≤ x.scale) (hy : s ≤ y.scale) :
    gap s x y <<< s = (x.units - y.units).natAbs := by
  have ha : x.significand <<< (x.scale - s) <<< s = x.significand <<< x.scale := by
    rw [← Nat.shiftLeft_add, Nat.sub_add_cancel hx]
  have hb : y.significand <<< (y.scale - s) <<< s = y.significand <<< y.scale := by
    rw [← Nat.shiftLeft_add, Nat.sub_add_cancel hy]
  simp only [gap, units, magnitude, doubled_eq]
  generalize x.significand <<< (x.scale - s) = a at ha ⊢
  generalize y.significand <<< (y.scale - s) = b at hb ⊢
  rw [Nat.shiftLeft_eq] at ha hb ⊢
  rw [← ha, ← hb]
  cases x.isNegative <;> cases y.isNegative <;>
    simp only [reduceIte, Bool.false_eq_true, Bool.true_eq_false, Nat.add_mul, Nat.sub_mul] <;>
    omega

theorem natAbs_units (x : Number) : x.units.natAbs = x.magnitude := by
  unfold units
  split <;> simp

theorem fraction_lt (x : Number) : x.fraction < 0x10000000000000 := by
  have h := Nat.and_le_right (n := x.bits.toNat) (m := 0xfffffffffffff)
  simp only [fraction, UInt64.toNat_and]
  exact Nat.lt_succ_of_le h

theorem significand_lt (x : Number) : x.significand < 0x20000000000000 := by
  have h := x.fraction_lt
  unfold significand
  split
  · omega
  · unfold leadingBit
    omega

theorem le_significand {x : Number} (h : 0 < x.scale) : 0x10000000000000 ≤ x.significand := by
  unfold scale at h
  unfold significand
  split
  · omega
  · unfold leadingBit
    omega

theorem magnitude_lt_of_scale_le {x : Number} {k : Nat} (h : x.scale ≤ k) :
    x.magnitude < 0x20000000000000 <<< k := by
  unfold magnitude
  rw [Nat.shiftLeft_eq, Nat.shiftLeft_eq]
  exact Nat.mul_lt_mul_of_lt_of_le x.significand_lt (Nat.pow_le_pow_right (by omega) h)
    (Nat.two_pow_pos _)

theorem le_magnitude_of_le_scale {x : Number} {k : Nat} (hk : 0 < k) (h : k ≤ x.scale) :
    0x10000000000000 <<< k ≤ x.magnitude := by
  unfold magnitude
  rw [Nat.shiftLeft_eq, Nat.shiftLeft_eq]
  exact Nat.mul_le_mul (le_significand (by omega)) (Nat.pow_le_pow_right (by omega) h)

theorem reach_lt_of_dwarfs {x y : Number} (h : x.dwarfs y = true) :
    reach < (x.units - y.units).natAbs := by
  simp only [dwarfs, Bool.and_eq_true, decide_eq_true_eq] at h
  obtain ⟨d, hd⟩ := Nat.exists_eq_add_of_le h.1
  have hx : 0x10000000000000 <<< (1012 + d) ≤ x.magnitude :=
    le_magnitude_of_le_scale (by omega) (by omega)
  have hy : y.magnitude < 0x20000000000000 <<< (1010 + d) := magnitude_lt_of_scale_le (by omega)
  have hr : reach < 0x8000000000000 <<< (1012 + d) := by
    rw [show 1012 + d = 5 + d + 1007 by omega, Nat.shiftLeft_add]
    unfold reach
    generalize 1007 = k
    rw [Nat.shiftLeft_eq, Nat.shiftLeft_eq _ k]
    refine Nat.mul_lt_mul_of_pos_right ?_ (Nat.two_pow_pos k)
    rw [Nat.shiftLeft_eq, Nat.pow_add]
    have := Nat.two_pow_pos d
    omega
  have hs : 0x20000000000000 <<< (1010 + d) = 0x8000000000000 <<< (1012 + d) := by
    rw [show 1012 + d = 2 + (1010 + d) by omega, Nat.shiftLeft_add _ 2,
      show 0x8000000000000 <<< 2 = 0x20000000000000 by rfl]
  have ht : 0x10000000000000 <<< (1012 + d) = 2 * 0x8000000000000 <<< (1012 + d) := by
    rw [Nat.shiftLeft_eq, Nat.shiftLeft_eq, ← Nat.mul_assoc]
  rw [← natAbs_units] at hx hy
  omega

theorem near_iff {x y : Number} : x.near y = true ↔
    x.isFinite = true ∧ y.isFinite = true ∧ (x.units - y.units).natAbs ≤ reach := by
  have hgap : gap (min x.scale y.scale) x y ≤ reachAt (min x.scale y.scale) ↔
      (x.units - y.units).natAbs ≤ reach := by
    rw [← gap_shiftLeft (Nat.min_le_left x.scale y.scale) (Nat.min_le_right x.scale y.scale),
      Nat.shiftLeft_eq, ← Nat.le_div_iff_mul_le (Nat.two_pow_pos _), ← Nat.shiftRight_eq_div_pow,
      reachAt_eq]
  simp only [near, Bool.and_eq_true, decide_eq_true_eq, and_assoc, hgap, Bool.not_eq_true']
  constructor
  · rintro ⟨hx, hy, -, -, h⟩
    exact ⟨hx, hy, h⟩
  · rintro ⟨hx, hy, h⟩
    refine ⟨hx, hy, ?_, ?_, h⟩
    · cases hd : x.dwarfs y with
      | false => rfl
      | true => exact absurd (reach_lt_of_dwarfs hd) (by omega)
    · cases hd : y.dwarfs x with
      | false => rfl
      | true => exact absurd (reach_lt_of_dwarfs hd) (by omega)

end Dialogue.Number
