import Dialogue.Number.Near
import Mathlib.Algebra.Order.Ring.Nat

namespace Dialogue.Number

variable {negative : Bool} {a b c k : Nat} {x : Number}

theorem roundHalfEven_mul (hc : 0 < c) (a b : Nat) :
    roundHalfEven (c * a) (c * b) = roundHalfEven a b := by
  have htwice (r : Nat) : 2 * (c * r) = c * (2 * r) := Nat.mul_left_comm ..
  simp only [roundHalfEven, Nat.mul_div_mul_left a b hc, Nat.mul_mod_mul_left, htwice,
    Nat.mul_lt_mul_left hc]

theorem roundHalfEven_exact (hb : 0 < b) (a : Nat) : roundHalfEven (a * b) b = a := by
  simp [roundHalfEven, Nat.mul_div_cancel a hb, hb]

theorem roundHalfEven_of_small (h : 2 * a < b) : roundHalfEven a b = 0 := by
  have hab : a < b := by omega
  simp [roundHalfEven, Nat.div_eq_of_lt hab, Nat.mod_eq_of_lt hab, h]

theorem ofRatio?_mul (hc : 0 < c) (negative : Bool) (a b : Nat) :
    ofRatio? negative (c * a) (c * b) = ofRatio? negative a b := by
  have hshift (n s : Nat) : (c * n) <<< s = c * n <<< s := by
    simp only [Nat.shiftLeft_eq, Nat.mul_assoc]
  simp only [ofRatio?, hshift, Nat.mul_div_mul_left _ _ hc, roundHalfEven_mul hc]

theorem toNat_signBit_or {word : Nat} (h : word < 2 ^ 63) :
    (signBit negative ||| word.toUInt64).toNat = (if negative then 2 ^ 63 else 0) + word := by
  have hword : word.toUInt64.toNat = word := by
    simp only [Nat.toUInt64, UInt64.toNat_ofNat']
    omega
  rw [UInt64.toNat_or, hword]
  cases negative with
  | false => simp [signBit]
  | true => exact (Nat.two_pow_add_eq_or_of_lt h 1).symm

theorem exponentField_eq (x : Number) : x.exponentField = x.bits.toNat / 2 ^ 52 % 2 ^ 11 := by
  have hmask (n : Nat) : n &&& 0x7ff = n % 2 ^ 11 := Nat.and_two_pow_sub_one_eq_mod n 11
  simp [exponentField, UInt64.toNat_and, UInt64.toNat_shiftRight, Nat.shiftRight_eq_div_pow, hmask]

theorem fraction_eq (x : Number) : x.fraction = x.bits.toNat % 2 ^ 52 := by
  have hmask (n : Nat) : n &&& 0xfffffffffffff = n % 2 ^ 52 := Nat.and_two_pow_sub_one_eq_mod n 52
  simp [fraction, UInt64.toNat_and, hmask]

theorem isNegative_eq (x : Number) : x.isNegative = decide (2 ^ 63 ≤ x.bits.toNat) := by
  have hshift : (x.bits >>> 63).toNat = x.bits.toNat / 2 ^ 63 := by
    simp [UInt64.toNat_shiftRight, Nat.shiftRight_eq_div_pow]
  rw [isNegative, Bool.eq_iff_iff, bne_iff_ne, decide_eq_true_eq, Ne, ← UInt64.toNat_inj, hshift]
  simp only [UInt64.toNat_zero]
  omega

theorem isFinite_iff {x : Number} : x.isFinite = true ↔ x.exponentField < 0x7ff := by
  rw [isFinite, bne_iff_ne, exponentField_eq]
  omega

theorem bits_eq (x : Number) :
    x.bits = signBit x.isNegative ||| (x.exponentField * 2 ^ 52 + x.fraction).toUInt64 := by
  have hbits := x.bits.toNat_lt
  have hrest : x.exponentField * 2 ^ 52 + x.fraction = x.bits.toNat % 2 ^ 63 := by
    rw [exponentField_eq, fraction_eq]
    omega
  have hlt : x.bits.toNat % 2 ^ 63 < 2 ^ 63 := Nat.mod_lt _ (by decide)
  rw [← UInt64.toNat_inj, hrest, toNat_signBit_or hlt, isNegative_eq]
  by_cases h : 2 ^ 63 ≤ x.bits.toNat
  · simp only [h, decide_true, if_true]
    omega
  · simp only [h, decide_false, Bool.false_eq_true, if_false]
    omega

theorem word_lt_iff (x : Number) :
    x.exponentField * 2 ^ 52 + x.fraction < 0x7ff <<< 52 ↔ x.isFinite = true := by
  have hfraction : x.fraction < 2 ^ 52 := x.fraction_lt
  rw [isFinite_iff, Nat.shiftLeft_eq]
  omega

theorem log2_magnitude_sub (x : Number) : x.magnitude.log2 - 52 = x.scale := by
  have hfraction : x.fraction < 2 ^ 52 := x.fraction_lt
  unfold magnitude significand scale
  split
  · rename_i hzero
    rw [hzero, Nat.shiftLeft_zero]
    rcases Nat.eq_zero_or_pos x.fraction with h | h
    · rw [h, Nat.log2_zero]
    · have hlog := (Nat.log2_lt (Nat.pos_iff_ne_zero.mp h)).mpr hfraction
      omega
  · have hlower : 2 ^ 52 ≤ leadingBit + x.fraction := by
      unfold leadingBit
      omega
    have hupper : leadingBit + x.fraction < 2 ^ (52 + 1) := by
      unfold leadingBit
      omega
    have hlog (s : Nat) : ((leadingBit + x.fraction) <<< s).log2 = 52 + s := by
      have hpos := Nat.two_pow_pos s
      rw [Nat.shiftLeft_eq, Nat.log2_eq_iff (Nat.mul_ne_zero (by omega) (by omega)), Nat.pow_add,
        Nat.add_right_comm, Nat.pow_add 2 (52 + 1)]
      exact ⟨Nat.mul_le_mul_right _ hlower, Nat.mul_lt_mul_of_pos_right hupper hpos⟩
    rw [hlog]
    omega

theorem shiftLeft_div_two_pow (a n : Nat) : a <<< n / 2 ^ n = a := by
  rw [← Nat.shiftRight_eq_div_pow, Nat.shiftLeft_shiftRight]

theorem ofRatio?_magnitude (hx : x.isFinite = true) :
    ofRatio? x.isNegative x.magnitude (2 ^ 1074) = some x := by
  have hexact (n : Nat) : x.magnitude <<< n = x.significand * (2 ^ n) <<< x.scale := by
    unfold magnitude
    simp only [Nat.shiftLeft_eq, Nat.mul_assoc, Nat.mul_comm (2 ^ x.scale)]
  have hpos (n : Nat) : 0 < (2 ^ n) <<< x.scale := by
    rw [Nat.shiftLeft_eq]
    exact Nat.mul_pos (Nat.two_pow_pos _) (Nat.two_pow_pos _)
  have hword : x.scale <<< 52 + x.significand = x.exponentField * 2 ^ 52 + x.fraction := by
    unfold scale significand
    rw [Nat.shiftLeft_eq]
    split
    · simp_all
    · unfold leadingBit
      omega
  unfold ofRatio?
  generalize 1074 = n
  dsimp only
  rw [shiftLeft_div_two_pow, log2_magnitude_sub, hexact, roundHalfEven_exact (hpos n), hword,
    if_pos ((word_lt_iff x).mpr hx), ← bits_eq]

theorem ofRatio?_zero (negative : Bool) (b : Nat) :
    ofRatio? negative 0 b = some ⟨signBit negative⟩ := by
  simp [ofRatio?, roundHalfEven]

theorem isFinite_signBit_or {word : Nat} (h : word < 0x7ff <<< 52) :
    isFinite ⟨signBit negative ||| word.toUInt64⟩ = true := by
  have hlt : word < 2 ^ 63 := Nat.lt_of_lt_of_le h (by decide)
  rw [Nat.shiftLeft_eq] at h
  rw [isFinite_iff, exponentField_eq]
  simp only
  rw [toNat_signBit_or hlt]
  split <;> omega

theorem isFinite_of_ofRatio? (h : ofRatio? negative a b = some x) : x.isFinite = true := by
  unfold ofRatio? at h
  dsimp only at h
  split at h
  · rename_i hword
    cases h
    exact isFinite_signBit_or hword
  · cases h

theorem ofRatio?_of_small (h : 2 * a <<< 1074 < b) :
    ofRatio? negative a b = some ⟨signBit negative⟩ := by
  unfold ofRatio?
  generalize 1074 = n at h
  dsimp only
  have hdiv : a <<< n / b = 0 := Nat.div_eq_of_lt (by omega)
  rw [hdiv, Nat.log2_zero, Nat.shiftLeft_zero, roundHalfEven_of_small h]
  simp

theorem ofRatio?_of_large {n : Nat} (hn : 0x7ff ≤ n) (h : 2 ^ (n + 52) ≤ a <<< 1074) :
    ofRatio? negative a 1 = none := by
  unfold ofRatio?
  generalize 1074 = m at h
  dsimp only
  have hpos := Nat.two_pow_pos (n + 52)
  have hlog : ¬(a <<< m).log2 < n + 52 := by
    rw [Nat.log2_lt (by omega)]
    omega
  rw [Nat.div_one, if_neg]
  simp only [Nat.shiftLeft_eq]
  have hscale : n * 2 ^ 52 ≤ ((a * 2 ^ m).log2 - 52) * 2 ^ 52 := by
    rw [Nat.shiftLeft_eq] at hlog
    exact Nat.mul_le_mul_right _ (by omega)
  omega

theorem two_pow_le_ten_pow (n : Nat) : 2 ^ (3 * n) ≤ 10 ^ n := by
  rw [Nat.pow_mul]
  exact Nat.pow_le_pow_left (by decide) n

theorem ofRatio?_tenfold_of_large (hk : 0 < k) {n : Nat} (hn : 400 < n) :
    ofRatio? negative (k * 10 ^ n) 1 = none := by
  refine ofRatio?_of_large (n := 3 * n + 1022) (by omega) ?_
  have hsum : 3 * n + 1022 + 52 = 3 * n + 1074 := by omega
  rw [Nat.shiftLeft_eq, hsum, Nat.pow_add]
  exact Nat.mul_le_mul_right _ ((two_pow_le_ten_pow n).trans (Nat.le_mul_of_pos_left _ hk))

theorem ofRatio?_tenfold_of_small {n : Nat} (hn : 400 + k.log2 < n) :
    ofRatio? negative k (10 ^ n) = some ⟨signBit negative⟩ := by
  refine ofRatio?_of_small (Nat.lt_of_lt_of_le ?_ (two_pow_le_ten_pow n))
  have hk : k < 2 ^ (k.log2 + 1) := Nat.lt_log2_self
  rw [Nat.shiftLeft_eq]
  generalize hm : 1074 = m
  calc 2 * (k * 2 ^ m) < 2 * (2 ^ (k.log2 + 1) * 2 ^ m) := by
        have := Nat.mul_lt_mul_of_pos_right hk (Nat.two_pow_pos m)
        omega
    _ = 2 ^ (k.log2 + 1 + m + 1) := by rw [← Nat.pow_add, Nat.pow_succ _ (k.log2 + 1 + m), Nat.mul_comm]
    _ ≤ 2 ^ (3 * n) := Nat.pow_le_pow_right (by decide) (by omega)

theorem ofDecimal?_eq (negative : Bool) (k : Nat) (e : Int) :
    ofDecimal? negative k e = ofRatio? negative (k * 10 ^ e.toNat) (10 ^ (-e).toNat) := by
  unfold ofDecimal?
  split
  · rename_i h
    rw [h, Nat.zero_mul, ofRatio?_zero]
  · rename_i h
    split
    · rename_i he
      have hneg : (-e).toNat = 0 := by omega
      rw [hneg, Nat.pow_zero, ofRatio?_tenfold_of_large (by omega) (by omega)]
    · split
      · rename_i he
        have hpos : e.toNat = 0 := by omega
        rw [hpos, Nat.pow_zero, Nat.mul_one, ofRatio?_tenfold_of_small (by omega)]
      · rfl

theorem ofDecimal?_mul_ten (negative : Bool) (k : Nat) (e : Int) :
    ofDecimal? negative (10 * k) e = ofDecimal? negative k (e + 1) := by
  rw [ofDecimal?_eq, ofDecimal?_eq]
  by_cases he : 0 ≤ e
  · have hpos : (e + 1).toNat = e.toNat + 1 := by omega
    have hneg : (-(e + 1)).toNat = 0 ∧ (-e).toNat = 0 := by omega
    rw [hpos, hneg.1, hneg.2, Nat.pow_succ, Nat.mul_comm 10 k, Nat.mul_assoc, Nat.mul_comm 10]
  · have hpos : e.toNat = 0 ∧ (e + 1).toNat = 0 := by omega
    have hneg : (-e).toNat = (-(e + 1)).toNat + 1 := by omega
    rw [hpos.1, hpos.2, hneg, Nat.pow_succ', Nat.pow_zero, Nat.mul_one, Nat.mul_one,
      ofRatio?_mul (by decide)]

theorem ofDecimal?_mul_ten_pow (negative : Bool) (k : Nat) (e : Int) (n : Nat) :
    ofDecimal? negative (10 ^ n * k) e = ofDecimal? negative k (e + n) := by
  induction n generalizing e with
  | zero => simp
  | succ n ih =>
    rw [Nat.pow_succ', Nat.mul_assoc, ofDecimal?_mul_ten, ih]
    congr 1
    omega

theorem isFinite_of_ofDecimal? {e : Int} (h : ofDecimal? negative k e = some x) :
    x.isFinite = true := by
  rw [ofDecimal?_eq] at h
  exact isFinite_of_ofRatio? h

end Dialogue.Number
