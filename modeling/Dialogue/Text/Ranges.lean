/-!
Sets of characters as ranges of their numbers. A look-up stops at the first range beyond the
character, since the ranges ascend.
-/

namespace Dialogue.Text

namespace Ranges

def ascendFrom : Nat → List (Nat × Nat) → Bool
  | _, [] => true
  | start, r :: rest => start ≤ r.1 && r.1 ≤ r.2 && ascendFrom (r.2 + 1) rest

def search (n : Nat) : List (Nat × Nat) → Bool
  | [] => false
  | r :: rest => if n < r.1 then false else if n ≤ r.2 then true else search n rest

theorem not_mem_of_lt {n start : Nat} {rs : List (Nat × Nat)} (h : ascendFrom start rs = true)
    (hn : n < start) : ¬∃ r ∈ rs, r.1 ≤ n ∧ n ≤ r.2 := by
  induction rs generalizing start with
  | nil => simp
  | cons r rest ih =>
    simp only [ascendFrom, Bool.and_eq_true, decide_eq_true_eq] at h
    obtain ⟨⟨hs, hr⟩, hrest⟩ := h
    rintro ⟨s, hmem, hlow, hhigh⟩
    rcases List.mem_cons.1 hmem with rfl | hmem
    · omega
    · exact ih hrest (by omega) ⟨s, hmem, hlow, hhigh⟩

theorem search_iff {n start : Nat} {rs : List (Nat × Nat)} (h : ascendFrom start rs = true) :
    search n rs = true ↔ ∃ r ∈ rs, r.1 ≤ n ∧ n ≤ r.2 := by
  induction rs generalizing start with
  | nil => simp [search]
  | cons r rest ih =>
    simp only [ascendFrom, Bool.and_eq_true, decide_eq_true_eq] at h
    obtain ⟨⟨hs, hr⟩, hrest⟩ := h
    simp only [search]
    split
    · rename_i hlt
      constructor
      · simp
      · rintro ⟨s, hmem, hlow, hhigh⟩
        rcases List.mem_cons.1 hmem with rfl | hmem
        · omega
        · exact (not_mem_of_lt hrest (by omega) ⟨s, hmem, hlow, hhigh⟩).elim
    · split
      · rename_i hge hle
        exact iff_of_true rfl ⟨r, List.mem_cons_self, by omega, hle⟩
      · rename_i hge hgt
        rw [ih hrest]
        constructor
        · rintro ⟨s, hmem, hs⟩
          exact ⟨s, List.mem_cons_of_mem _ hmem, hs⟩
        · rintro ⟨s, hmem, hlow, hhigh⟩
          rcases List.mem_cons.1 hmem with rfl | hmem
          · omega
          · exact ⟨s, hmem, hlow, hhigh⟩

end Ranges

structure Ranges where
  ranges : List (Nat × Nat)
  ascending : Ranges.ascendFrom 0 ranges = true

def Ranges.contains (rs : Ranges) (c : Char) : Bool := search c.toNat rs.ranges

theorem Ranges.contains_iff (rs : Ranges) (c : Char) :
    rs.contains c = true ↔ ∃ r ∈ rs.ranges, r.1 ≤ c.toNat ∧ c.toNat ≤ r.2 :=
  search_iff rs.ascending

end Dialogue.Text
