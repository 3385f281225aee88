import Dialogue.Proofs.Value.Exchange
import Dialogue.Proofs.Value.Symmetry
import Dialogue.Value.Collection

/-!
What insertion into sets and maps promises. Main statement: `lawful_iff_finite`. Whatever is
inserted has to equal itself, and so has to be free of infinite numbers, and not only of NaN.
-/

namespace Dialogue.Value

/-- A member is present once it has been inserted, and an entry has the value that was inserted
last; neither is inserted twice. -/
structure Lawful (x : Value) : Prop where
  present (members : List Value) : memberOf (addMember members x).2 x = true
  refused (members : List Value) :
    addMember (addMember members x).2 x = (false, (addMember members x).2)
  found (entries : List (Value × Value)) (y : Value) :
    lookup (putEntry entries x y).2 x = some y
  replaced (entries : List (Value × Value)) (y z : Value) :
    (putEntry (putEntry entries x y).2 x z).1 = some y
  length (entries : List (Value × Value)) (y z : Value) :
    (putEntry (putEntry entries x y).2 x z).2.length = (putEntry entries x y).2.length

theorem memberOf_insertMember {x : Value} (hx : (x == x) = true) (members : List Value) :
    memberOf (insertMember members x) x = true := by
  unfold insertMember
  by_cases h : memberOf members x = true
  · rwa [if_pos h]
  · rw [if_neg h]
    exact memberOf_iff.mpr ⟨x, List.mem_append_right _ (List.mem_singleton_self x), hx⟩

theorem lookup_insertEntry {x : Value} (hx : (x == x) = true) (entries : List (Value × Value))
    (y : Value) : lookup (insertEntry entries x y) x = some y := by
  induction entries with
  | nil => simp [insertEntry, lookup, hx]
  | cons e entries ih =>
    by_cases h : (e.1 == x) = true
    · simp [insertEntry, lookup, h]
    · simp [insertEntry, lookup, h, ih]

theorem length_insertEntry (entries : List (Value × Value)) (key value : Value) :
    (insertEntry entries key value).length =
      (insertMember (entries.map Prod.fst) key).length := by
  rw [← keys_insertEntry entries key value, List.length_map]

theorem lawful_iff {x : Value} : x.Lawful ↔ (x == x) = true := by
  constructor
  · intro h
    obtain ⟨y, hy, hyx⟩ := memberOf_iff.mp (h.present [])
    rwa [List.mem_singleton.mp (show y ∈ [x] from hy)] at hyx
  · intro hx
    refine ⟨fun members => ?_, fun members => ?_, fun entries y => ?_, fun entries y z => ?_,
      fun entries y z => ?_⟩
    · rw [addMember_eq]
      exact memberOf_insertMember hx members
    · rw [addMember_eq members, addMember, if_pos (memberOf_insertMember hx members)]
    · rw [putEntry_eq]
      exact lookup_insertEntry hx entries y
    · rw [putEntry_eq, putEntry_eq]
      exact lookup_insertEntry hx entries y
    · rw [putEntry_eq, putEntry_eq, length_insertEntry, insertMember, keys_insertEntry,
        if_pos (memberOf_insertMember hx _), ← keys_insertEntry entries x y, List.length_map]

theorem number_beq_self {n : Number} : (number n == number n) = true ↔ n.isFinite = true := by
  refine Number.near_iff.trans ⟨fun h => h.1, fun h => ⟨h, h, ?_⟩⟩
  rw [Int.sub_self]
  exact Nat.zero_le _

theorem beq_self_of_finite : ∀ x : Value, x.Proper → x.Finite → (x == x) = true := by
  refine Hereditary.all ⟨fun x hleaf _ hx => ?_, fun xs ih hproper hx => ?_,
    fun xs ih hproper hx => ?_, fun xs ih hproper hx => ?_⟩
  · by_cases hnumber : x.tag = .number
    · cases x with
      | number n => exact number_beq_self.mpr (hx 0 n (.self _))
      | _ => cases hnumber
    · refine beq_iff_alike.mpr (.leaf ?_)
      rw [List.mem_cons]
      exact not_or.mpr ⟨hnumber, hleaf⟩
  · refine list_beq_iff.mpr (List.forall₂_same.mpr fun v hv => ?_)
    exact ih v hv (proper_list.mp hproper v hv) (finite_list hx v hv)
  · refine set_beq_iff.mpr ⟨rfl, fun v hv => ⟨v, hv, ?_⟩⟩
    exact ih v hv ((proper_set.mp hproper).2 v hv) (finite_set hx v hv)
  · obtain ⟨hdistinct, hproper⟩ := proper_map.mp hproper
    refine map_beq_iff.mpr ⟨rfl, fun e he => ⟨e.2, ?_, ?_⟩⟩
    · have hkey := (ih e he).1 (hproper e he).1 (finite_map hx e he).1
      rw [lookup_eq, find?_eq_of_distinct he hkey hdistinct fun _ _ h => h]
      rfl
    · exact (ih e he).2 (hproper e he).2 (finite_map hx e he).2

theorem Equates.self_of_mem {α : Type} {G : α → Prop} {R : α → α → Prop} (h : Equates G R)
    {x y : α} (hx : G x) (hy : G y) (hyx : R y x) : R x x :=
  h.trans hx hy hx (h.symm hy hx hyx) hyx

theorem finite_of_beq_self {ns : List Number} (hns : Number.Clustered ns) (size : Nat) :
    ∀ x : Value, x.Bounded ns size → (x == x) = true → x.Finite := by
  induction size with
  | zero => exact fun x hx => absurd hx.lt (Nat.not_lt_zero _)
  | succ size ih =>
    have heq := equates_of_clustered hns size
    intro x hx hself
    cases x with
    | nil | bool | string | enum => exact finite_of_leaf (by simp [tag])
    | number n => exact finite_number (number_beq_self.mp hself)
    | list xs =>
      have hitems := List.forall₂_same.mp (list_beq_iff.mp hself)
      exact finite_of_items fun v hv => ih v (hx.items v hv) (hitems v hv)
    | set xs =>
      obtain ⟨hbound, -⟩ := hx.members
      refine finite_of_members fun v hv => ?_
      -- Whichever member is found for `v`, it takes `v` back to itself.
      obtain ⟨u, hu, huv⟩ := (set_beq_iff.mp hself).2 v hv
      exact ih v (hbound v hv) (heq.self_of_mem (hbound v hv) (hbound u hu) huv)
    | map xs =>
      obtain ⟨hbound, -⟩ := hx.entries
      rw [heq.map_beq_iff_covered (fun e he => (hbound e he).1) (fun e he => (hbound e he).1)
        (proper_map.mp hx.proper).1] at hself
      refine finite_of_entries fun e he => ?_
      obtain ⟨f, hf, hkey, hvalue⟩ := hself.2 e he
      obtain ⟨hek, hev⟩ := hbound e he
      obtain ⟨hfk, hfv⟩ := hbound f hf
      exact ⟨ih e.1 hek (heq.self_of_mem hek hfk hkey), ih e.2 hev (heq.self_of_mem hev hfv hvalue)⟩

theorem finite_of_beq_self_of_gathered : ∀ x : Value, x.Proper →
    Number.Clustered x.gathered → (x == x) = true → x.Finite := by
  refine Hereditary.all ⟨fun x hleaf _ _ hself => ?_, fun xs ih hx h hself => ?_,
    fun xs _ hx h hself => ?_, fun xs _ hx h hself => ?_⟩
  · by_cases hnumber : x.tag = .number
    · cases x with
      | number n => exact finite_number (number_beq_self.mp hself)
      | _ => cases hnumber
    · apply finite_of_leaf
      rw [List.mem_cons]
      exact not_or.mpr ⟨hnumber, hleaf⟩
  · have hitems := List.forall₂_same.mp (list_beq_iff.mp hself)
    refine finite_of_items fun v hv => ?_
    apply ih v hv (proper_list.mp hx v hv) _ (hitems v hv)
    exact h.mono (by simpa [gathered] using gathered_subset_of_mem hv)
  · exact finite_of_beq_self h _ _ ⟨hx, List.Subset.refl _, Nat.lt_succ_self _⟩ hself
  · exact finite_of_beq_self h _ _ ⟨hx, List.Subset.refl _, Nat.lt_succ_self _⟩ hself

theorem lawful_iff_finite {x : Value} (hx : x.Proper) :
    (x.Finite → x.Lawful) ∧ (Number.Clustered x.gathered → x.Lawful → x.Finite) := by
  constructor
  · intro h
    exact lawful_iff.mpr (beq_self_of_finite x hx h)
  · intro hclustered h
    exact finite_of_beq_self_of_gathered x hx hclustered (lawful_iff.mp h)

theorem lawful_scales : scales.Proper ∧ scales.Finite ∧ scales.Lawful ∧
    Number.Clustered scales.gathered := by
  have hproper : scales.Proper := proper_weighed (by decide +kernel)
  have hfinite : scales.Finite := finite_of_toJson (show toJson scales = .ok _ from rfl)
  exact ⟨hproper, hfinite, (lawful_iff_finite hproper).1 hfinite, by decide +kernel⟩

example : memberOf (addMember [] (number ⟨0x7ff0000000000000⟩)).2
    (number ⟨0x7ff0000000000000⟩) = false := by
  decide +kernel

end Dialogue.Value
