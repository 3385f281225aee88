import Dialogue.Proofs.Value.Equality

/-!
When equality of values is symmetric. Nearness of numbers is symmetric, but not transitive, and so
equality of sets and maps, which looks for members and entries in one direction only, is not
symmetric in general. Main statement: `beq_comm_of_clustered`. Where nearness is transitive among
the numbers that stand in sets and maps, equality of the values is symmetric.
-/

namespace Dialogue

/-- Of the numbers no one is near two that are not near each other. -/
def Number.Clustered (ns : List Number) : Prop :=
  ∀ x ∈ ns, ∀ y ∈ ns, ∀ z ∈ ns, x.near y = true → y.near z = true → x.near z = true

instance (ns : List Number) : Decidable (Number.Clustered ns) :=
  inferInstanceAs (Decidable (∀ x ∈ ns, ∀ y ∈ ns, ∀ z ∈ ns, _ → _ → _))

theorem exists_partner {α β : Type} {R : α → β → Prop} {xs : List α} {ys : List β}
    (hlength : ys.length ≤ xs.length)
    (hapart : xs.Pairwise fun x x' => ∀ y ∈ ys, R x y → ¬ R x' y)
    (hpartner : ∀ x ∈ xs, ∃ y ∈ ys, R x y) : ∀ y ∈ ys, ∃ x ∈ xs, R x y := by
  induction xs generalizing ys with
  | nil =>
    intro y hy
    rw [List.length_eq_zero_iff.mp (Nat.le_zero.mp hlength)] at hy
    cases hy
  | cons x xs ih =>
    obtain ⟨hx, hxs⟩ := List.pairwise_cons.mp hapart
    obtain ⟨y₀, hy₀, hR⟩ := hpartner x List.mem_cons_self
    obtain ⟨before, after, rfl⟩ := List.append_of_mem hy₀
    have hrest (y : β) (hy : y ∈ before ++ after) : y ∈ before ++ y₀ :: after := by
      rw [List.mem_append, List.mem_cons]
      exact (List.mem_append.mp hy).imp_right .inr
    have hothers : ∀ y ∈ before ++ after, ∃ x' ∈ xs, R x' y := by
      apply ih
      · simp only [List.length_append, List.length_cons] at hlength ⊢
        omega
      · exact hxs.imp fun h y hy => h y (hrest y hy)
      · intro x' hx'
        obtain ⟨y, hy, hR'⟩ := hpartner x' (List.mem_cons_of_mem x hx')
        refine ⟨y, ?_, hR'⟩
        rcases List.mem_append.mp hy with hy | hy
        · exact List.mem_append_left _ hy
        · rcases List.mem_cons.mp hy with rfl | hy
          · exact absurd hR' (hx x' hx' y hy₀ hR)
          · exact List.mem_append_right _ hy
    intro y hy
    rcases List.mem_append.mp hy with hy | hy
    · obtain ⟨x', hx', hR'⟩ := hothers y (List.mem_append_left _ hy)
      exact ⟨x', List.mem_cons_of_mem x hx', hR'⟩
    · rcases List.mem_cons.mp hy with rfl | hy
      · exact ⟨x, List.mem_cons_self, hR⟩
      · obtain ⟨x', hx', hR'⟩ := hothers y (List.mem_append_right _ hy)
        exact ⟨x', List.mem_cons_of_mem x hx', hR'⟩

theorem Number.Clustered.mono {ns ms : List Number} (h : Clustered ns) (hsub : ms ⊆ ns) :
    Clustered ms :=
  fun x hx y hy z hz => h x (hsub hx) y (hsub hy) z (hsub hz)

theorem forall₂_flip_of_mem {α β : Type} {R : α → β → Prop} {S : β → α → Prop} {xs : List α}
    {ys : List β} (h : List.Forall₂ R xs ys)
    (hflip : ∀ x ∈ xs, ∀ y ∈ ys, R x y → S y x) : List.Forall₂ S ys xs := by
  induction h with
  | nil => exact .nil
  | cons hR _ ih =>
    refine .cons (hflip _ List.mem_cons_self _ List.mem_cons_self hR) (ih ?_)
    exact fun x hx y hy => hflip x (List.mem_cons_of_mem _ hx) y (List.mem_cons_of_mem _ hy)

namespace Value

mutual

def numbers : Value → List Number
  | number n => [n]
  | list items => numbersOf items
  | set members => numbersOf members
  | map entries => numbersOfEntries entries
  | _ => []
termination_by structural v => v

def numbersOf : List Value → List Number
  | [] => []
  | v :: vs => v.numbers ++ numbersOf vs
termination_by structural vs => vs

def numbersOfEntries : List (Value × Value) → List Number
  | [] => []
  | (k, v) :: es => k.numbers ++ v.numbers ++ numbersOfEntries es
termination_by structural es => es

end

mutual

def gathered : Value → List Number
  | list items => gatheredOf items
  | set members => numbersOf members
  | map entries => numbersOfEntries entries
  | _ => []
termination_by structural v => v

def gatheredOf : List Value → List Number
  | [] => []
  | v :: vs => v.gathered ++ gatheredOf vs
termination_by structural vs => vs

end

theorem numbers_subset_of_mem {v : Value} {vs : List Value} (h : v ∈ vs) :
    v.numbers ⊆ numbersOf vs := by
  induction vs with
  | nil => cases h
  | cons x xs ih =>
    rw [numbersOf]
    rcases List.mem_cons.mp h with rfl | h
    · exact List.subset_append_left _ _
    · exact List.subset_append_of_subset_right _ (ih h)

theorem numbers_subset_of_mem_entries {e : Value × Value} {es : List (Value × Value)}
    (h : e ∈ es) : e.1.numbers ⊆ numbersOfEntries es ∧ e.2.numbers ⊆ numbersOfEntries es := by
  induction es with
  | nil => cases h
  | cons x xs ih =>
    rw [numbersOfEntries]
    rcases List.mem_cons.mp h with rfl | h
    · rw [List.append_assoc]
      exact ⟨List.subset_append_left _ _,
        List.subset_append_of_subset_right _ (List.subset_append_left _ _)⟩
    · exact ⟨List.subset_append_of_subset_right _ (ih h).1,
        List.subset_append_of_subset_right _ (ih h).2⟩

theorem gathered_subset_of_mem {v : Value} {vs : List Value} (h : v ∈ vs) :
    v.gathered ⊆ gatheredOf vs := by
  induction vs with
  | nil => cases h
  | cons x xs ih =>
    rw [gatheredOf]
    rcases List.mem_cons.mp h with rfl | h
    · exact List.subset_append_left _ _
    · exact List.subset_append_of_subset_right _ (ih h)

structure Equates {α : Type} (G : α → Prop) (R : α → α → Prop) : Prop where
  symm : ∀ {a b}, G a → G b → R a b → R b a
  trans : ∀ {a b c}, G a → G b → G c → R a b → R b c → R a c

section

variable {α : Type} {G : α → Prop} {R : α → α → Prop}

theorem Equates.pairs (h : Equates G R) : Equates (fun e : α × α => G e.1 ∧ G e.2)
    fun e f => R e.1 f.1 ∧ R e.2 f.2 where
  symm ha hb hab := ⟨h.symm ha.1 hb.1 hab.1, h.symm ha.2 hb.2 hab.2⟩
  trans ha hb hc hab hbc :=
    ⟨h.trans ha.1 hb.1 hc.1 hab.1 hbc.1, h.trans ha.2 hb.2 hc.2 hab.2 hbc.2⟩

theorem Equates.forall₂ (h : Equates G R) :
    Equates (fun xs : List α => ∀ x ∈ xs, G x) (List.Forall₂ R) where
  symm hxs hys hxy :=
    forall₂_flip_of_mem hxy fun x hx y hy => h.symm (hxs x hx) (hys y hy)
  trans := by
    intro xs ys zs hxs hys hzs hxy hyz
    induction hxy generalizing zs with
    | nil =>
      cases hyz
      exact .nil
    | cons hR _ ih =>
      cases hyz with
      | cons hR' hyz =>
        rw [List.forall_mem_cons] at hxs hys hzs
        exact .cons (h.trans hxs.1 hys.1 hzs.1 hR hR') (ih hxs.2 hys.2 hzs.2 hyz)

theorem Equates.covered (h : Equates G R) :
    Equates (fun xs : List α => (∀ x ∈ xs, G x) ∧ xs.Pairwise fun x x' => ¬ R x x')
      (Covered R) where
  symm := by
    rintro xs ys ⟨hxs, hapart⟩ ⟨hys, -⟩ ⟨hlength, hfound⟩
    refine ⟨hlength.symm, ?_⟩
    -- No two of `xs` share a partner, so that all of `ys` are partners.
    apply exists_partner (R := fun x y => R x y) (Nat.le_of_eq hlength.symm)
    · refine hapart.imp_of_mem fun {x x'} hx hx' hne y hy hxy hx'y => hne ?_
      exact h.trans (hxs x hx) (hys y hy) (hxs x' hx') hxy (h.symm (hxs x' hx') (hys y hy) hx'y)
    · intro x hx
      obtain ⟨y, hy, hyx⟩ := hfound x hx
      exact ⟨y, hy, h.symm (hys y hy) (hxs x hx) hyx⟩
  trans := by
    rintro xs ys zs ⟨hxs, -⟩ ⟨hys, -⟩ ⟨hzs, -⟩ ⟨hlength, hfound⟩ ⟨hlength', hfound'⟩
    refine ⟨hlength.trans hlength', fun x hx => ?_⟩
    obtain ⟨y, hy, hyx⟩ := hfound x hx
    obtain ⟨z, hz, hzy⟩ := hfound' y hy
    exact ⟨z, hz, h.trans (hzs z hz) (hys y hy) (hxs x hx) hzy hyx⟩

end

theorem Equates.map_beq_iff_covered {G : Value → Prop} (h : Equates G fun a b => (a == b) = true)
    {xs ys : List (Value × Value)} (hxs : ∀ e ∈ xs, G e.1) (hys : ∀ e ∈ ys, G e.1)
    (hdistinct : Distinct (fun x y => x == y) (ys.map Prod.fst)) :
    (map xs == map ys) = true ↔
      Covered (fun e f => (e.1 == f.1) = true ∧ (e.2 == f.2) = true) xs ys := by
  rw [map_beq_iff, Covered]
  refine and_congr_right fun _ => forall₂_congr fun e he => ?_
  simp only [lookup_eq, Option.map_eq_some_iff]
  constructor
  · rintro ⟨_, ⟨f, hf, rfl⟩, hv⟩
    exact ⟨f, List.mem_of_find?_eq_some hf, by simpa using List.find?_some hf, hv⟩
  · rintro ⟨f, hf, hk, hv⟩
    -- The first entry found for the key is `f`, since no other key of `ys` equals it.
    refine ⟨f.2, ⟨f, find?_eq_of_distinct hf hk hdistinct fun f' hf' hk' => ?_, rfl⟩, hv⟩
    exact h.trans (hys f' hf') (hxs e he) (hys f hf) hk' (h.symm (hys f hf) (hxs e he) hk)

/-- Without repetitions, with numbers of the list only, and of less than the given size. -/
structure Bounded (ns : List Number) (size : Nat) (v : Value) : Prop where
  proper : v.Proper
  numbers : v.numbers ⊆ ns
  lt : sizeOf v < size

section

variable {ns : List Number} {size : Nat}

theorem Bounded.items {items : List Value} (h : (list items).Bounded ns (size + 1)) :
    ∀ v ∈ items, v.Bounded ns size := by
  intro v hv
  refine ⟨proper_list.mp h.proper v hv, List.Subset.trans (numbers_subset_of_mem hv) ?_, ?_⟩
  · simpa [Value.numbers] using h.numbers
  · have hsize := List.sizeOf_lt_of_mem hv
    have hlt := h.lt
    simp only [list.sizeOf_spec] at hlt
    omega

theorem Bounded.members {members : List Value} (h : (set members).Bounded ns (size + 1)) :
    (∀ v ∈ members, v.Bounded ns size) ∧
      members.Pairwise fun x y => ¬ (x == y) = true := by
  obtain ⟨hdistinct, hproper⟩ := proper_set.mp h.proper
  refine ⟨fun v hv => ⟨hproper v hv, List.Subset.trans (numbers_subset_of_mem hv) ?_, ?_⟩, ?_⟩
  · simpa [Value.numbers] using h.numbers
  · have hsize := List.sizeOf_lt_of_mem hv
    have hlt := h.lt
    simp only [set.sizeOf_spec] at hlt
    omega
  · exact hdistinct.imp Bool.eq_false_iff.mp

theorem Bounded.entries {entries : List (Value × Value)}
    (h : (map entries).Bounded ns (size + 1)) :
    (∀ e ∈ entries, e.1.Bounded ns size ∧ e.2.Bounded ns size) ∧
      entries.Pairwise fun e f => ¬ ((e.1 == f.1) = true ∧ (e.2 == f.2) = true) := by
  obtain ⟨hdistinct, hproper⟩ := proper_map.mp h.proper
  have hnumbers : numbersOfEntries entries ⊆ ns := by simpa [Value.numbers] using h.numbers
  constructor
  · intro e he
    have hsize := List.sizeOf_lt_of_mem he
    have hpair : sizeOf e = 1 + sizeOf e.1 + sizeOf e.2 := Prod.mk.sizeOf_spec e.1 e.2
    have hlt := h.lt
    simp only [map.sizeOf_spec] at hlt
    obtain ⟨hkey, hvalue⟩ := numbers_subset_of_mem_entries he
    refine ⟨⟨(hproper e he).1, List.Subset.trans hkey hnumbers, ?_⟩,
      ⟨(hproper e he).2, List.Subset.trans hvalue hnumbers, ?_⟩⟩ <;> omega
  · refine (List.pairwise_map.mp hdistinct).imp ?_
    intro e f hne hef
    exact Bool.eq_false_iff.mp hne hef.1

theorem Bounded.number_mem {n : Number} (h : (number n).Bounded ns size) : n ∈ ns :=
  h.numbers (by simp [Value.numbers])

theorem equates_of_clustered (hns : Number.Clustered ns) (size : Nat) :
    Equates (Bounded ns size) fun a b => (a == b) = true := by
  -- The induction is on the size, and not on one of the values, because a member of one collection
  -- is compared with partners of its partners.
  induction size with
  | zero =>
    exact ⟨fun h => absurd h.lt (Nat.not_lt_zero _), fun h => absurd h.lt (Nat.not_lt_zero _)⟩
  | succ size ih =>
    have hmap {xs ys : List (Value × Value)} (hxs : (map xs).Bounded ns (size + 1))
        (hys : (map ys).Bounded ns (size + 1)) := ih.map_beq_iff_covered
      (fun e he => (hxs.entries.1 e he).1) (fun e he => (hys.entries.1 e he).1)
      (proper_map.mp hys.proper).1
    constructor
    · intro a b ha hb hab
      rcases beq_iff_alike.mp hab with hv | h | h | h | -
      · exact hab
      · exact Number.near_symm h
      · exact list_beq_iff.mpr (ih.forall₂.symm ha.items hb.items h)
      · exact set_beq_iff.mpr (ih.covered.symm ha.members hb.members h)
      · rw [hmap ha hb] at hab
        exact (hmap hb ha).mpr (ih.pairs.covered.symm ha.entries hb.entries hab)
    · intro a b c ha hb hc hab hbc
      rcases beq_iff_alike.mp hab with hv | h | h | h | -
      · exact hbc
      · rcases beq_iff_alike.mp hbc with hv | h' | _ | _ | _
        · exact hab
        · exact hns _ ha.number_mem _ hb.number_mem _ hc.number_mem h h'
      · rcases beq_iff_alike.mp hbc with hv | _ | h' | _ | _
        · exact hab
        · exact list_beq_iff.mpr (ih.forall₂.trans ha.items hb.items hc.items h h')
      · rcases beq_iff_alike.mp hbc with hv | _ | _ | h' | _
        · exact hab
        · exact set_beq_iff.mpr (ih.covered.trans ha.members hb.members hc.members h h')
      · rcases beq_iff_alike.mp hbc with hv | _ | _ | _ | -
        · exact hab
        · rw [hmap ha hb] at hab
          rw [hmap hb hc] at hbc
          exact (hmap ha hc).mpr (ih.pairs.covered.trans ha.entries hb.entries hc.entries hab hbc)

end

theorem beq_symm_of_numbers {a b : Value} (ha : a.Proper) (hb : b.Proper)
    (h : Number.Clustered (a.numbers ++ b.numbers)) (hab : (a == b) = true) : (b == a) = true := by
  refine (equates_of_clustered h (sizeOf a + sizeOf b + 1)).symm ?_ ?_ hab
  · exact ⟨ha, List.subset_append_left _ _, by omega⟩
  · exact ⟨hb, List.subset_append_right _ _, by omega⟩

theorem beq_symm_of_gathered : ∀ a b : Value, a.Proper → b.Proper →
    Number.Clustered (a.gathered ++ b.gathered) → (a == b) = true → (b == a) = true := by
  refine Hereditary.all ⟨?_, ?_, ?_, ?_⟩
  · intro a hleaf b _ _ _ hab
    rcases beq_iff_alike.mp hab with _ | h | _ | _ | _
    · exact hab
    · exact Number.near_symm h
    all_goals simp [tag] at hleaf
  · intro xs ih b ha hb h hab
    rcases beq_iff_alike.mp hab with hv | _ | ⟨hitems⟩ | _ | _
    · exact hab
    rename_i ys
    refine list_beq_iff.mpr (forall₂_flip_of_mem hitems fun x hx y hy => ?_)
    apply ih x hx y (proper_list.mp ha x hx) (proper_list.mp hb y hy)
    refine h.mono (List.append_subset.mpr ⟨?_, ?_⟩)
    · apply List.subset_append_of_subset_left
      simpa [gathered] using gathered_subset_of_mem hx
    · apply List.subset_append_of_subset_right
      simpa [gathered] using gathered_subset_of_mem hy
  · intro xs _ b ha hb h hab
    rcases beq_iff_alike.mp hab with hv | _ | _ | _ | _
    · exact hab
    · exact beq_symm_of_numbers ha hb (by simpa [gathered, numbers] using h) hab
  · intro xs _ b ha hb h hab
    rcases beq_iff_alike.mp hab with hv | _ | _ | _ | _
    · exact hab
    · exact beq_symm_of_numbers ha hb (by simpa [gathered, numbers] using h) hab

theorem beq_comm_of_clustered {a b : Value} (ha : a.Proper) (hb : b.Proper)
    (h : Number.Clustered (a.gathered ++ b.gathered)) : (a == b) = (b == a) := by
  refine Bool.eq_iff_iff.mpr ⟨beq_symm_of_gathered a b ha hb h, beq_symm_of_gathered b a hb ha ?_⟩
  exact h.mono (List.append_subset.mpr
    ⟨List.subset_append_right _ _, List.subset_append_left _ _⟩)

def weighed (x y weight : Number) : Value :=
  list [number weight, map [(set [number x, number y], nil)]]

theorem proper_weighed {x y weight : Number} (h : x.near y = false) :
    (weighed x y weight).Proper := by
  have hnumber (n : Number) : (number n).Proper := proper_of_leaf (by simp [tag])
  have hset : (set [number x, number y]).Proper :=
    proper_set.mpr ⟨List.pairwise_pair.mpr h, by simp [hnumber]⟩
  have hmap : (map [(set [number x, number y], nil)]).Proper :=
    proper_map.mpr ⟨List.pairwise_singleton _ _, by simp [hset, proper_nil]⟩
  exact proper_list.mpr (by simp [hnumber, hmap])

def scales : Value := weighed ⟨0⟩ ⟨0x4024000000000000⟩ ⟨0x3f14f8b588e368f1⟩

def scalesAgain : Value :=
  weighed ⟨0x402400068db8bac7⟩ ⟨0x3f0a36e2eb1c432d⟩ ⟨0x3f24f8b588e368f1⟩

theorem beq_comm_scales : scales.Proper ∧ scalesAgain.Proper ∧
    Number.Clustered (scales.gathered ++ scalesAgain.gathered) ∧
      (scales == scalesAgain) = true ∧ (scales == scalesAgain) = (scalesAgain == scales) := by
  have hscales : scales.Proper := proper_weighed (by decide +kernel)
  have hagain : scalesAgain.Proper := proper_weighed (by decide +kernel)
  have hclustered : Number.Clustered (scales.gathered ++ scalesAgain.gathered) := by
    decide +kernel
  exact ⟨hscales, hagain, hclustered, by decide +kernel,
    beq_comm_of_clustered hscales hagain hclustered⟩

example :
    let crowded := set [number ⟨0⟩, number ⟨0x3f23a92a30553261⟩]
    let spread := set [number ⟨0x3f13a92a30553261⟩, number ⟨0x4024000000000000⟩]
    (crowded == spread) = true ∧ (spread == crowded) = false := by
  decide +kernel

end Value

end Dialogue
