import Dialogue.Number.Decimal
import Dialogue.Proofs.Number.Rounding

namespace Dialogue

namespace Number

theorem eq_of_magnitude {x : Number} (hx : x.isFinite = true) (h : x.magnitude = 0) :
    x = ⟨signBit x.isNegative⟩ := by
  have hself := ofRatio?_magnitude hx
  rw [h, ofRatio?_zero] at hself
  exact (Option.some.inj hself).symm

theorem magnitude_signBit (negative : Bool) : magnitude ⟨signBit negative⟩ = 0 := by
  cases negative <;> rfl

end Number

namespace Decimal

variable {x : Number} {d : Decimal} {tie : Tie}

theorem readsAs_iff : readsAs x d = true ↔
    Number.ofDecimal? x.isNegative d.digits d.exponent = some x := by
  rw [readsAs, beq_iff_eq]

theorem ofDecimal?_strip (negative : Bool) (n : Nat) (d : Decimal) :
    Number.ofDecimal? negative (strip n d).digits (strip n d).exponent =
      Number.ofDecimal? negative d.digits d.exponent := by
  induction n generalizing d with
  | zero => rfl
  | succ n ih =>
    rw [strip]
    split
    · rename_i h
      have hdigits : d.digits = 10 * (d.digits / 10) := by omega
      rw [ih, ← Number.ofDecimal?_mul_ten, ← hdigits]
    · rfl

theorem readsAs_of_choose {below rest whole : Nat} {exponent : Int}
    (h : choose tie x below exponent rest whole = some d) : readsAs x d = true := by
  unfold choose at h
  simp only at h
  split at h
  · rename_i hlower hupper
    split at h
    · cases h
      exact hlower
    · split at h
      · cases h
        exact hupper
      · split at h <;> cases h
        · exact hupper
        · split
          · exact hlower
          · exact hupper
  · rename_i hlower _
    cases h
    exact hlower
  · rename_i _ hupper
    cases h
    exact hupper
  · cases h

theorem readsAs_expansion (hx : x.isFinite = true) : readsAs x (expansion x) = true := by
  have hself (n : Nat) (h : Number.ofRatio? x.isNegative x.magnitude (2 ^ n) = some x) :
      Number.ofRatio? x.isNegative (x.magnitude * Nat.pow 5 n) (10 ^ n) = some x := by
    have hpower : 10 ^ n = 5 ^ n * 2 ^ n := by rw [← Nat.mul_pow]
    rw [hpower, Nat.mul_comm]
    exact (Number.ofRatio?_mul (Nat.pow_pos (by decide)) _ _ _).trans h
  have hpos : (expansion x).exponent.toNat = 0 := rfl
  have hneg : (-(expansion x).exponent).toNat = 1074 := rfl
  have hdigits : (expansion x).digits = x.magnitude * Nat.pow 5 1074 := rfl
  rw [readsAs_iff, Number.ofDecimal?_eq, hpos, hneg, hdigits, Nat.pow_zero, Nat.mul_one]
  have hx' := Number.ofRatio?_magnitude hx
  generalize 1074 = n at hx' ⊢
  exact hself n hx'

theorem readsAs_shortest (hx : x.isFinite = true) (h : x.magnitude ≠ 0) :
    readsAs x (shortest tie x) = true := by
  rw [shortest, if_neg h]
  simp only
  rw [readsAs_iff, ofDecimal?_strip, ← readsAs_iff]
  cases hgrid : (List.range 17).findSome? fun n =>
      onGrid tie x (pointPlace x.magnitude (1 <<< 1074)) (n + 1) with
  | none => exact readsAs_expansion hx
  | some d =>
    obtain ⟨n, -, hn⟩ := List.exists_of_findSome?_eq_some hgrid
    exact readsAs_of_choose hn

theorem digits_shortest_ne_zero (hx : x.isFinite = true) (h : x.magnitude ≠ 0) :
    (shortest tie x).digits ≠ 0 := by
  intro hzero
  have hshort : readsAs x (shortest tie x) = true := readsAs_shortest hx h
  have hreads := readsAs_iff.mp hshort
  rw [hzero, Number.ofDecimal?_eq, Nat.zero_mul, Number.ofRatio?_zero] at hreads
  apply h
  rw [← Option.some.inj hreads, Number.magnitude_signBit]

end Decimal

end Dialogue
