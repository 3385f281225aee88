import Dialogue.Proofs.Value.Proper
import Mathlib.Data.List.Forall2

/-!
Equality of values, shape by shape. Main statements: `matching_true`, by which it does not matter
which of two values is taken apart, and `beq_iff_alike`.
-/

namespace Dialogue

theorem Number.near_symm {x y : Number} (h : x.near y = true) : y.near x = true := by
  obtain ⟨hx, hy, hdistance⟩ := near_iff.mp h
  refine near_iff.mpr ⟨hy, hx, ?_⟩
  rwa [← Int.natAbs_neg, Int.neg_sub]

theorem Number.near_comm (x y : Number) : x.near y = y.near x :=
  Bool.eq_iff_iff.mpr ⟨near_symm, near_symm⟩

namespace Value

/-- What a collection has if all its parts have it, and all other values have anyway. -/
structure Hereditary (P : Value → Prop) : Prop where
  leaf : ∀ v, v.tag ∉ [.list, .set, .map] → P v
  list : ∀ items, (∀ v ∈ items, P v) → P (list items)
  set : ∀ members, (∀ v ∈ members, P v) → P (set members)
  map : ∀ entries, (∀ e ∈ entries, P e.1 ∧ P e.2) → P (map entries)

mutual

theorem Hereditary.all {P : Value → Prop} (h : Hereditary P) : ∀ v, P v
  | .nil | .bool _ | .number _ | .string _ | .enum _ => h.leaf _ (by simp [tag])
  | .list items => h.list items (h.all_items items)
  | .set members => h.set members (h.all_items members)
  | .map entries => h.map entries (h.all_entries entries)

theorem Hereditary.all_items {P : Value → Prop} (h : Hereditary P) :
    ∀ vs : List Value, ∀ v ∈ vs, P v
  | [] => nofun
  | v :: vs => List.forall_mem_cons.mpr ⟨h.all v, h.all_items vs⟩

theorem Hereditary.all_entries {P : Value → Prop} (h : Hereditary P) :
    ∀ es : List (Value × Value), ∀ e ∈ es, P e.1 ∧ P e.2
  | [] => nofun
  | (k, v) :: es => List.forall_mem_cons.mpr ⟨⟨h.all k, h.all v⟩, h.all_entries es⟩

end

def Swaps (x : Value) : Prop :=
  ∀ y, matching x true y = matching y false x ∧ matching x false y = matching y true x

theorem itemsMatch_swap {xs : List Value} (h : ∀ x ∈ xs, Swaps x) (ys : List Value) :
    itemsMatch xs true ys = itemsMatch ys false xs ∧
      itemsMatch xs false ys = itemsMatch ys true xs := by
  induction xs generalizing ys with
  | nil => cases ys <;> exact ⟨rfl, rfl⟩
  | cons x xs ih =>
    obtain ⟨hx, hxs⟩ := List.forall_mem_cons.mp h
    cases ys with
    | nil => exact ⟨rfl, rfl⟩
    | cons y ys => simp only [itemsMatch, hx y, ih hxs ys, and_self]

theorem memberOf_eq (xs : List Value) (y : Value) :
    memberOf xs y = xs.any fun x => matching x false y := by
  induction xs with
  | nil => rfl
  | cons x xs ih => rw [memberOf, List.any_cons, ih]

theorem memberOf_swap {xs : List Value} (h : ∀ x ∈ xs, Swaps x) (y : Value) :
    memberOf xs y = xs.any fun x => matching y true x := by
  induction xs with
  | nil => rfl
  | cons x xs ih =>
    obtain ⟨hx, hxs⟩ := List.forall_mem_cons.mp h
    rw [memberOf, List.any_cons, ih hxs, (hx y).2]

theorem foundIn_eq (xs ys : List Value) :
    foundIn xs ys = xs.all fun x => ys.any fun y => matching x true y := by
  induction xs with
  | nil => rfl
  | cons x xs ih => rw [foundIn, List.all_cons, ih]

theorem foundIn_swap {xs : List Value} (h : ∀ x ∈ xs, Swaps x) (ys : List Value) :
    foundIn xs ys = xs.all (memberOf ys) := by
  induction xs with
  | nil => rfl
  | cons x xs ih =>
    obtain ⟨hx, hxs⟩ := List.forall_mem_cons.mp h
    have hmember : (fun y => matching x true y) = fun y => matching y false x :=
      funext fun y => (hx y).1
    rw [foundIn, List.all_cons, ih hxs, memberOf_eq, hmember]

theorem entryOf_eq (xs : List (Value × Value)) (k v : Value) : entryOf xs k v =
    (xs.find? fun x => matching x.1 false k).any fun x => matching x.2 false v := by
  induction xs with
  | nil => rfl
  | cons x xs ih =>
    rw [entryOf, List.find?_cons, ih]
    cases matching x.1 false k <;> rfl

theorem entryOf_swap {xs : List (Value × Value)} (h : ∀ e ∈ xs, Swaps e.1 ∧ Swaps e.2)
    (k v : Value) : entryOf xs k v =
      (xs.find? fun x => matching k true x.1).any fun x => matching v true x.2 := by
  induction xs with
  | nil => rfl
  | cons x xs ih =>
    obtain ⟨⟨hkey, hvalue⟩, hxs⟩ := List.forall_mem_cons.mp h
    rw [entryOf, List.find?_cons, ih hxs, (hkey k).2, (hvalue v).2]
    cases matching k true x.1 <;> rfl

theorem entriesFoundIn_cons (x : Value × Value) (xs ys : List (Value × Value)) :
    entriesFoundIn (x :: xs) ys =
      ((ys.find? fun y => matching x.1 true y.1).any (fun y => matching x.2 true y.2) &&
        entriesFoundIn xs ys) := by
  rw [entriesFoundIn]
  cases ys.find? fun y => matching x.1 true y.1 <;> rfl

theorem entriesFoundIn_eq (xs ys : List (Value × Value)) : entriesFoundIn xs ys =
    xs.all fun x =>
      (ys.find? fun y => matching x.1 true y.1).any fun y => matching x.2 true y.2 := by
  induction xs with
  | nil => rfl
  | cons x xs ih => rw [entriesFoundIn_cons, List.all_cons, ih]

theorem entriesFoundIn_swap {xs : List (Value × Value)} (h : ∀ e ∈ xs, Swaps e.1 ∧ Swaps e.2)
    (ys : List (Value × Value)) : entriesFoundIn xs ys = xs.all fun x => entryOf ys x.1 x.2 := by
  induction xs with
  | nil => rfl
  | cons x xs ih =>
    obtain ⟨⟨hkey, hvalue⟩, hxs⟩ := List.forall_mem_cons.mp h
    rw [entriesFoundIn_cons, List.all_cons, ih hxs, entryOf_eq]
    simp only [hkey _, hvalue _]

theorem swaps : ∀ x, Swaps x := by
  refine Hereditary.all ⟨fun x hx y => ?_, fun xs ih y => ?_, fun xs ih y => ?_, fun xs ih y => ?_⟩
  · cases x with
    | list | set | map => simp [tag] at hx
    | nil => cases y <;> exact ⟨rfl, rfl⟩
    | number a => cases y with
      | number b => exact ⟨a.near_comm b, a.near_comm b⟩
      | _ => exact ⟨rfl, rfl⟩
    | bool a => cases y with
      | bool b => exact ⟨Bool.beq_comm, Bool.beq_comm⟩
      | _ => exact ⟨rfl, rfl⟩
    | string a => cases y with
      | string b => exact ⟨BEq.comm, BEq.comm⟩
      | _ => exact ⟨rfl, rfl⟩
    | enum a => cases y with
      | enum b => exact ⟨BEq.comm, BEq.comm⟩
      | _ => exact ⟨rfl, rfl⟩
  · cases y with
    | list ys => exact itemsMatch_swap ih ys
    | _ => exact ⟨rfl, rfl⟩
  · cases y with
    | set ys =>
      have hlength : (xs.length == ys.length) = (ys.length == xs.length) := BEq.comm
      have hmembers : ys.all (memberOf xs) = foundIn ys xs := by
        rw [foundIn_eq, show memberOf xs = _ from funext (memberOf_swap ih)]
      simp only [matching, hlength, hmembers, foundIn_swap ih ys, if_true, Bool.false_eq_true,
        if_false, and_self]
    | _ => exact ⟨rfl, rfl⟩
  · cases y with
    | map ys =>
      have hlength : (xs.length == ys.length) = (ys.length == xs.length) := BEq.comm
      have hentries : (ys.all fun y => entryOf xs y.1 y.2) = entriesFoundIn ys xs := by
        rw [entriesFoundIn_eq]
        simp only [entryOf_swap ih]
      simp only [matching, hlength, hentries, entriesFoundIn_swap ih ys, if_true,
        Bool.false_eq_true, if_false, and_self]
    | _ => exact ⟨rfl, rfl⟩

theorem matching_true (x y : Value) : matching x true y = (y == x) := (swaps x y).1

def Covered {α : Type} (R : α → α → Prop) (xs ys : List α) : Prop :=
  xs.length = ys.length ∧ ∀ x ∈ xs, ∃ y ∈ ys, R y x

theorem list_beq_iff {xs ys : List Value} : (list xs == list ys) = true ↔
    List.Forall₂ (fun x y => (x == y) = true) xs ys := by
  change itemsMatch xs false ys = true ↔ _
  induction xs generalizing ys with
  | nil => cases ys <;> simp [itemsMatch]
  | cons x xs ih =>
    cases ys with
    | nil => simp [itemsMatch]
    | cons y ys =>
      rw [itemsMatch, Bool.and_eq_true, ih, List.forall₂_cons]
      rfl

theorem set_beq_iff {xs ys : List Value} : (set xs == set ys) = true ↔
    Covered (fun x y => (x == y) = true) xs ys := by
  change (xs.length == ys.length && foundIn xs ys) = true ↔ _
  simp only [Bool.and_eq_true, beq_iff_eq, foundIn_eq, matching_true, List.all_eq_true,
    List.any_eq_true, Covered]

theorem lookup_eq (entries : List (Value × Value)) (key : Value) :
    lookup entries key = (entries.find? fun e => e.1 == key).map Prod.snd := by
  induction entries with
  | nil => rfl
  | cons e entries ih =>
    rw [List.find?_cons]
    change (if e.1 == key then some e.2 else lookup entries key) = _
    cases e.1 == key with
    | true => rfl
    | false => exact ih

theorem find?_eq_of_distinct {entries : List (Value × Value)} {e : Value × Value} {key : Value}
    (he : e ∈ entries) (hkey : (e.1 == key) = true)
    (hdistinct : Distinct (fun x y => x == y) (entries.map Prod.fst))
    (hsame : ∀ f ∈ entries, (f.1 == key) = true → (f.1 == e.1) = true) :
    entries.find? (fun f => f.1 == key) = some e := by
  obtain ⟨before, after, rfl⟩ := List.append_of_mem he
  rw [List.find?_eq_some_iff_append]
  refine ⟨hkey, before, after, rfl, fun f hf => ?_⟩
  rw [Bool.not_eq_true', ← Bool.not_eq_true]
  intro hfkey
  rw [List.map_append, Distinct, List.pairwise_append] at hdistinct
  have hne := hdistinct.2.2 f.1 (List.mem_map_of_mem hf) e.1 (by simp)
  rw [hsame f (List.mem_append_left _ hf) hfkey] at hne
  cases hne

theorem map_beq_iff {xs ys : List (Value × Value)} : (map xs == map ys) = true ↔
    xs.length = ys.length ∧ ∀ e ∈ xs, ∃ v, lookup ys e.1 = some v ∧ (v == e.2) = true := by
  change (xs.length == ys.length && entriesFoundIn xs ys) = true ↔ _
  simp only [Bool.and_eq_true, beq_iff_eq, entriesFoundIn_eq, matching_true, List.all_eq_true,
    Option.any_eq_true, lookup_eq, Option.map_eq_some_iff]
  refine and_congr_right fun _ => forall₂_congr fun e _ => ?_
  constructor
  · rintro ⟨f, hf, hv⟩
    exact ⟨f.2, ⟨f, hf, rfl⟩, hv⟩
  · rintro ⟨_, ⟨f, hf, rfl⟩, hv⟩
    exact ⟨f, hf, hv⟩

inductive Alike : Value → Value → Prop
  | leaf {v : Value} : v.tag ∉ [.number, .list, .set, .map] → Alike v v
  | number {x y : Number} : x.near y = true → Alike (number x) (number y)
  | list {xs ys : List Value} :
    List.Forall₂ (fun x y => (x == y) = true) xs ys → Alike (list xs) (list ys)
  | set {xs ys : List Value} :
    Covered (fun x y => (x == y) = true) xs ys → Alike (set xs) (set ys)
  | map {xs ys : List (Value × Value)} : xs.length = ys.length →
    (∀ e ∈ xs, ∃ v, lookup ys e.1 = some v ∧ (v == e.2) = true) → Alike (map xs) (map ys)

theorem beq_iff_alike {a b : Value} : (a == b) = true ↔ Alike a b := by
  constructor
  · intro h
    cases a with
    | nil => cases b with
      | nil => exact .leaf (by simp [tag])
      | _ => cases h
    | bool x => cases b with
      | bool y =>
        cases (beq_iff_eq (a := x)).mp h
        exact .leaf (by simp [tag])
      | _ => cases h
    | number x => cases b with
      | number y => exact .number h
      | _ => cases h
    | string x => cases b with
      | string y =>
        cases (beq_iff_eq (a := x)).mp h
        exact .leaf (by simp [tag])
      | _ => cases h
    | enum x => cases b with
      | enum y =>
        cases (beq_iff_eq (a := x)).mp h
        exact .leaf (by simp [tag])
      | _ => cases h
    | list xs => cases b with
      | list ys => exact .list (list_beq_iff.mp h)
      | _ => cases h
    | set xs => cases b with
      | set ys => exact .set (set_beq_iff.mp h)
      | _ => cases h
    | map xs => cases b with
      | map ys => exact .map (map_beq_iff.mp h).1 (map_beq_iff.mp h).2
      | _ => cases h
  · rintro (hv | h | h | h | ⟨hlength, h⟩)
    · cases a with
      | nil => rfl
      | bool x => exact beq_self_eq_true x
      | string x => exact beq_self_eq_true x
      | enum x => exact beq_self_eq_true x
      | number | list | set | map => simp [tag] at hv
    · exact h
    · exact list_beq_iff.mpr h
    · exact set_beq_iff.mpr h
    · exact map_beq_iff.mpr ⟨hlength, h⟩

end Value

end Dialogue
