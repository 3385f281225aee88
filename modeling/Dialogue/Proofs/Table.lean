import Dialogue.Table
import Mathlib.Data.List.Nodup

namespace Dialogue

theorem Entries.find?_eq_none {α : Type} {key : String} {entries : List (String × α)}
    (h : key ∉ entries.map (·.1)) : find? key entries = none := by
  induction entries with
  | nil => rfl
  | cons hd tl ih =>
    rw [List.map_cons, List.mem_cons, not_or] at h
    rw [find?, if_neg h.1, ih h.2]

theorem Entries.find?_of_perm {α : Type} {es es' : List (String × α)} (h : es.Perm es')
    (hnodup : (es.map (·.1)).Nodup) (key : String) : find? key es = find? key es' := by
  induction h with
  | nil => rfl
  | cons e _ ih => rw [find?, find?, ih (List.nodup_cons.mp hnodup).2]
  | swap e e' es =>
    have hne : e'.1 ≠ e.1 := fun heq =>
      (List.nodup_cons.mp hnodup).1 (List.mem_map.mpr ⟨e, List.mem_cons_self, heq.symm⟩)
    simp only [find?]
    by_cases hkey : key = e'.1
    · simp [hkey, hne]
    · simp [hkey]
  | trans h _ ih ih' => exact (ih hnodup).trans (ih' ((h.map _).nodup_iff.mp hnodup))

namespace Table

variable {α : Type}

theorem get?_of_isEmpty {t : Table α} (h : t.isEmpty = true) (key : String) : t.get? key = none := by
  rw [get?, List.isEmpty_iff.mp h]
  rfl

theorem nodup_keys (t : Table α) : t.keys.Nodup := by
  refine List.Pairwise.map _ (fun a b hlt heq => ?_) t.ordered
  exact Std.lt_irrefl (heq ▸ hlt)

theorem get?_of_mem {t : Table α} {e : String × α} (he : e ∈ t.entries) :
    t.get? e.1 = some e.2 := by
  have hnodup := t.nodup_keys
  obtain ⟨entries, ordered⟩ := t
  change Entries.find? e.1 entries = _
  simp only [keys] at hnodup he
  clear ordered
  induction entries with
  | nil => cases he
  | cons hd tl ih =>
    obtain ⟨k, v⟩ := hd
    obtain ⟨hk, htl⟩ := List.nodup_cons.mp hnodup
    rw [Entries.find?]
    rcases List.mem_cons.mp he with rfl | he
    · exact if_pos rfl
    · rw [if_neg]
      · exact ih he htl
      · intro heq
        exact hk (List.mem_map.mpr ⟨e, he, heq⟩)

theorem mem_of_get? {t : Table α} {key : String} {value : α} (h : t.get? key = some value) :
    (key, value) ∈ t.entries := by
  obtain ⟨entries, ordered⟩ := t
  change Entries.find? key entries = _ at h
  simp only
  clear ordered
  induction entries with
  | nil => cases h
  | cons hd tl ih =>
    obtain ⟨k, v⟩ := hd
    rw [Entries.find?] at h
    split at h
    · rename_i heq
      cases h
      rw [heq]
      exact List.mem_cons_self
    · exact List.mem_cons_of_mem _ (ih h)

theorem get?_foldl_insert {es : List (String × α)} {t : Table α} {key : String} {value : α}
    (hvalue : ∀ v, (key, v) ∈ es → v = value) (h : (key, value) ∈ es ∨ t.get? key = some value) :
    (es.foldl (fun t e => t.insert e.1 e.2) t).get? key = some value := by
  induction es generalizing t with
  | nil => simpa using h
  | cons e es ih =>
    obtain ⟨k, v⟩ := e
    refine ih (fun v hv => hvalue v (List.mem_cons_of_mem _ hv)) ?_
    by_cases hk : key = k
    · subst hk
      rw [hvalue v List.mem_cons_self, get?_insert_self]
      exact .inr rfl
    · rw [get?_insert_of_ne t hk]
      rcases h with h | h
      · rcases List.mem_cons.mp h with heq | h
        · cases heq
          exact absurd rfl hk
        · exact .inl h
      · exact .inr h

theorem get?_foldl_insert_of_not_mem {es : List (String × α)} {t : Table α} {key : String}
    (h : key ∉ es.map (·.1)) : (es.foldl (fun t e => t.insert e.1 e.2) t).get? key = t.get? key := by
  induction es generalizing t with
  | nil => rfl
  | cons e es ih =>
    rw [List.map_cons, List.mem_cons, not_or] at h
    exact (ih h.2).trans (get?_insert_of_ne t h.1 e.2)

theorem mem_of_mem_keys_foldl_insert {es : List (String × α)} {t : Table α} {key : String}
    (h : key ∈ (es.foldl (fun t e => t.insert e.1 e.2) t).keys) :
    key ∈ es.map (·.1) ∨ key ∈ t.keys := by
  induction es generalizing t with
  | nil => exact .inr h
  | cons e es ih =>
    rcases ih h with h | h
    · exact .inl (List.mem_cons_of_mem _ h)
    · obtain ⟨e', he', rfl⟩ := List.mem_map.mp h
      rcases Entries.mem_insert he' with rfl | he'
      · exact .inl List.mem_cons_self
      · exact .inr (List.mem_map_of_mem he')

theorem mem_of_mem_keys_ofList {es : List (String × α)} {key : String}
    (h : key ∈ (ofList es).keys) : key ∈ es.map (·.1) :=
  (mem_of_mem_keys_foldl_insert h).resolve_right nofun

theorem get?_merge {t u : Table α} {key : String} {value : α} (h : u.get? key = some value) :
    (t.merge u).get? key = some value := by
  refine get?_foldl_insert (fun v hv => ?_) (.inl (mem_of_get? h))
  rw [get?_of_mem hv, Option.some.injEq] at h
  exact h

theorem get?_merge_of_none {t u : Table α} {key : String} (h : u.get? key = none) :
    (t.merge u).get? key = t.get? key := by
  refine get?_foldl_insert_of_not_mem fun hmem => ?_
  obtain ⟨e, he, rfl⟩ := List.mem_map.mp hmem
  rw [get?_of_mem he] at h
  cases h

theorem get?_merge_or (t u : Table α) (key : String) :
    (t.merge u).get? key = (u.get? key).or (t.get? key) := by
  cases h : u.get? key with
  | none => exact get?_merge_of_none h
  | some value => exact get?_merge h

theorem ext_get? {t u : Table α} (h : ∀ key, t.get? key = u.get? key) : t = u := by
  have hmem {t u : Table α} (h : ∀ key, t.get? key = u.get? key) {e : String × α}
      (he : e ∈ t.entries) : e ∈ u.entries :=
    mem_of_get? ((h e.1).symm.trans (get?_of_mem he))
  have hperm : t.entries.Perm u.entries :=
    (List.perm_ext_iff_of_nodup (List.Nodup.of_map _ t.nodup_keys)
      (List.Nodup.of_map _ u.nodup_keys)).mpr
      fun e => ⟨hmem h, hmem fun key => (h key).symm⟩
  have heq : t.entries = u.entries :=
    hperm.eq_of_pairwise (fun e e' _ _ hlt hgt => absurd hgt (Std.not_gt_of_lt hlt))
      t.ordered u.ordered
  cases t
  cases u
  cases heq
  rfl

theorem merge_assoc (t u v : Table α) : (t.merge u).merge v = t.merge (u.merge v) :=
  ext_get? fun key => by simp only [get?_merge_or, Option.or_assoc]

theorem merge_self (t : Table α) : t.merge t = t :=
  ext_get? fun key => by simp only [get?_merge_or, Option.or_self]

theorem mem_keys_iff {t : Table α} {key : String} :
    key ∈ t.keys ↔ ∃ value, t.get? key = some value := by
  constructor
  · intro h
    obtain ⟨e, he, rfl⟩ := List.mem_map.mp h
    exact ⟨e.2, get?_of_mem he⟩
  · rintro ⟨value, h⟩
    exact List.mem_map_of_mem (mem_of_get? h)

theorem get?_eq_none_of_disjoint {t u : Table α} (h : t.keys.Disjoint u.keys) (key : String) :
    t.get? key = none ∨ u.get? key = none := by
  cases ht : t.get? key with
  | none => exact .inl rfl
  | some value =>
    refine .inr (Option.eq_none_iff_forall_ne_some.mpr fun value' hu => ?_)
    exact h (mem_keys_iff.mpr ⟨value, ht⟩) (mem_keys_iff.mpr ⟨value', hu⟩)

theorem merge_comm {t u : Table α} (h : t.keys.Disjoint u.keys) : t.merge u = u.merge t := by
  refine ext_get? fun key => ?_
  simp only [get?_merge_or]
  rcases get?_eq_none_of_disjoint h key with hkey | hkey <;> simp [hkey]

theorem merge_right_comm (t : Table α) {u v : Table α} (h : u.keys.Disjoint v.keys) :
    (t.merge u).merge v = (t.merge v).merge u := by
  rw [merge_assoc, merge_comm h, merge_assoc]

end Table

end Dialogue
