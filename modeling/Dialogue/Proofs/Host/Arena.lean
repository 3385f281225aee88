import Dialogue.Proofs.Host.Status

namespace Dialogue.Arena

variable {α : Type} {a a' : Arena α} {h h' : Handle} {x y : α}

structure Sound (a : Arena α) : Prop where
  free : ∀ i ∈ a.free, ∃ generation, a.slots[i]? = some ⟨generation, none⟩
  nodup : a.free.Nodup
  injective : ∀ h h' x, a.get? h = some x → a.get? h' = some x → h = h'

/-- Slots have numbers of 32 bits, so that there is room while there are fewer than `2 ^ 32`. -/
def HasRoom (a : Arena α) : Prop := a.slots.length < UInt32.size

theorem get?_empty (h : Handle) : (empty : Arena α).get? h = none := by
  simp [empty, get?, slot?]

theorem sound_empty : (empty : Arena α).Sound := by
  refine ⟨nofun, .nil, fun h h' x hx => ?_⟩
  rw [get?_empty] at hx
  cases hx

theorem toNat_toUInt32 {n : Nat} (h : n < UInt32.size) : n.toUInt32.toNat = n :=
  Nat.mod_eq_of_lt h

theorem HasRoom.free_toNat (hroom : a.HasRoom) (ha : a.Sound) {i : Nat} (hi : i ∈ a.free) :
    i.toUInt32.toNat = i := by
  obtain ⟨generation, hslot⟩ := ha.free i hi
  obtain ⟨hlt, -⟩ := List.getElem?_eq_some_iff.mp hslot
  exact toNat_toUInt32 (Nat.lt_trans hlt hroom)

theorem get?_insert_self (ha : a.Sound) (hroom : a.HasRoom) :
    (a.insert x).2.get? (a.insert x).1 = some x := by
  rw [get?_eq_some_iff]
  unfold insert
  split
  · rename_i i free hfree
    have hi : i ∈ a.free := hfree ▸ List.mem_cons_self
    obtain ⟨generation, hslot⟩ := ha.free i hi
    obtain ⟨hlt, -⟩ := List.getElem?_eq_some_iff.mp hslot
    simp [hroom.free_toNat ha hi, hlt]
  · simp [toNat_toUInt32 hroom]

theorem get?_insert_of_get? (ha : a.Sound) (hx : a.get? h = some y) :
    (a.insert x).2.get? h = some y := by
  rw [get?_eq_some_iff] at hx ⊢
  obtain ⟨hlt, -⟩ := List.getElem?_eq_some_iff.mp hx
  unfold insert
  split
  · rename_i i free hfree
    obtain ⟨generation, hslot⟩ := ha.free i (hfree ▸ List.mem_cons_self)
    have hne : i ≠ h.index.toNat := by
      rintro rfl
      rw [hslot] at hx
      simp at hx
    simpa [List.getElem?_set_ne hne] using hx
  · simpa [List.getElem?_append_left hlt] using hx

theorem get?_insert_fst (ha : a.Sound) (hroom : a.HasRoom) : a.get? (a.insert x).1 = none := by
  by_contra hne
  obtain ⟨y, hy⟩ := Option.ne_none_iff_exists'.mp hne
  rw [get?_eq_some_iff] at hy
  unfold insert at hy
  split at hy
  · rename_i i free hfree
    have hi : i ∈ a.free := hfree ▸ List.mem_cons_self
    obtain ⟨generation, hslot⟩ := ha.free i hi
    simp [hroom.free_toNat ha hi, hslot] at hy
  · simp [toNat_toUInt32 hroom] at hy

theorem sound_insert (ha : a.Sound) (hnew : ∀ h, a.get? h ≠ some x) : (a.insert x).2.Sound := by
  refine ⟨?_, ?_, fun h h' y hy hy' => ?_⟩
  · intro j hj
    unfold insert at hj ⊢
    split at hj
    · rename_i i free hfree
      have hnodup := ha.nodup
      rw [hfree, List.nodup_cons] at hnodup
      obtain ⟨generation, hslot⟩ := ha.free j (hfree ▸ List.mem_cons_of_mem i hj)
      have hne : i ≠ j := fun heq => hnodup.1 (heq ▸ hj)
      exact ⟨generation, by simpa [List.getElem?_set_ne hne] using hslot⟩
    · cases hj
  · unfold insert
    split
    · rename_i i free hfree
      have hnodup := ha.nodup
      rw [hfree, List.nodup_cons] at hnodup
      exact hnodup.2
    · exact .nil
  · rcases get?_insert hy with ⟨rfl, rfl⟩ | hy
    · rcases get?_insert hy' with ⟨rfl, -⟩ | hy'
      · rfl
      · exact absurd hy' (hnew h')
    · rcases get?_insert hy' with ⟨-, heq⟩ | hy'
      · exact absurd (heq ▸ hy) (hnew h)
      · exact ha.injective h h' y hy hy'

theorem get?_remove_self (ha : a.remove? h = some a') : a'.get? h = none := by
  unfold remove? at ha
  obtain ⟨y, hy, rfl⟩ := Option.map_eq_some_iff.mp ha
  rw [get?_eq_some_iff] at hy
  obtain ⟨hlt, -⟩ := List.getElem?_eq_some_iff.mp hy
  simp only [get?, slot?, List.getElem?_set_self hlt, Option.filter]
  split <;> rfl

theorem get?_remove_of_ne (ha : a.remove? h = some a') (hne : h' ≠ h) :
    a'.get? h' = a.get? h' := by
  unfold remove? at ha
  obtain ⟨y, hy, rfl⟩ := Option.map_eq_some_iff.mp ha
  rw [get?_eq_some_iff] at hy
  obtain ⟨hlt, -⟩ := List.getElem?_eq_some_iff.mp hy
  by_cases hindex : h.index.toNat = h'.index.toNat
  · -- The slot was of another generation and is empty now.
    have hgeneration : h.generation ≠ h'.generation := by
      intro heq
      obtain ⟨index, generation⟩ := h
      obtain ⟨index', generation'⟩ := h'
      simp only at heq hindex
      exact hne (by rw [heq, UInt32.toNat_inj.mp hindex])
    have hbefore : a.get? h' = none := by
      simp [get?, slot?, ← hindex, hy, Option.filter, hgeneration]
    rw [hbefore]
    simp only [get?, slot?, ← hindex, List.getElem?_set_self hlt, Option.filter]
    split <;> rfl
  · simp [get?, slot?, List.getElem?_set_ne hindex]

theorem sound_remove (hs : a.Sound) (ha : a.remove? h = some a') : a'.Sound := by
  have hinjective : ∀ k k' x, a'.get? k = some x → a'.get? k' = some x → k = k' := by
    intro k k' x hx hx'
    exact hs.injective k k' x (get?_remove ha hx) (get?_remove ha hx')
  unfold remove? at ha
  obtain ⟨y, hy, rfl⟩ := Option.map_eq_some_iff.mp ha
  rw [get?_eq_some_iff] at hy
  obtain ⟨hlt, -⟩ := List.getElem?_eq_some_iff.mp hy
  have hfull : h.index.toNat ∉ a.free := by
    intro hmem
    obtain ⟨generation, hslot⟩ := hs.free _ hmem
    rw [hslot] at hy
    simp at hy
  refine ⟨?_, List.nodup_cons.mpr ⟨hfull, hs.nodup⟩, hinjective⟩
  intro i hi
  rcases List.mem_cons.mp hi with rfl | hi
  · exact ⟨h.generation + 1, by simp [hlt]⟩
  · obtain ⟨generation, hslot⟩ := hs.free i hi
    have hne : h.index.toNat ≠ i := fun heq => hfull (heq ▸ hi)
    exact ⟨generation, by simpa [List.getElem?_set_ne hne] using hslot⟩

end Dialogue.Arena
