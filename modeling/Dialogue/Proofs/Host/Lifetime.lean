import Dialogue.Proofs.Container.RoundTrip
import Dialogue.Proofs.Host.Arena
import Mathlib.Data.Finset.Card

namespace Dialogue

inductive Deed where
  | created (h : Handle)
  | failed
  | destroyed (h : Handle)
  | refused (h : Handle)
deriving DecidableEq

namespace Deed

variable {t p q : List Deed} {d e : Deed} {h : Handle}

def empties (i : Nat) : Deed → Bool
  | destroyed h => h.index.toNat == i
  | _ => false

def Held (t : List Deed) (h : Handle) : Prop := ∃ p q, t = p ++ created h :: q ∧ destroyed h ∉ q

/-- What can become of a call after a history: no handle is given out again, a handle is destroyed
once, while it is held, and it is refused when it is not held. -/
def Fits (t : List Deed) : Deed → Prop
  | created h => created h ∉ t
  | failed => True
  | destroyed h => Held t h ∧ destroyed h ∉ t
  | refused h => ¬Held t h

theorem split_last (heq : t ++ [d] = p ++ e :: q) :
    (t = p ∧ d = e ∧ q = []) ∨ ∃ q', q = q' ++ [d] ∧ t = p ++ e :: q' := by
  rcases List.eq_nil_or_concat q with rfl | ⟨q', d', rfl⟩
  · obtain ⟨rfl, hd⟩ := List.append_inj' heq rfl
    exact .inl ⟨rfl, List.singleton_inj.mp hd, rfl⟩
  · rw [List.concat_eq_append] at heq ⊢
    rw [← List.cons_append, ← List.append_assoc] at heq
    obtain ⟨rfl, hd⟩ := List.append_inj' heq rfl
    rw [List.singleton_inj.mp hd]
    exact .inr ⟨q', rfl, rfl⟩

theorem held_append : Held (t ++ [d]) h ↔ d = created h ∨ (d ≠ destroyed h ∧ Held t h) := by
  constructor
  · rintro ⟨p, q, heq, hq⟩
    rcases split_last heq with ⟨-, hd, -⟩ | ⟨q', rfl, ht⟩
    · exact .inl hd
    · rw [List.mem_append, List.mem_singleton, not_or] at hq
      exact .inr ⟨Ne.symm hq.2, p, q', ht, hq.1⟩
  · rintro (rfl | ⟨hd, p, q, rfl, hq⟩)
    · exact ⟨t, [], rfl, List.not_mem_nil⟩
    · refine ⟨p, q ++ [d], by simp, ?_⟩
      rw [List.mem_append, List.mem_singleton, not_or]
      exact ⟨hq, Ne.symm hd⟩

theorem fits_append (ht : ∀ p d q, t = p ++ d :: q → d.Fits p) (hd : d.Fits t) :
    ∀ p e q, t ++ [d] = p ++ e :: q → e.Fits p := by
  intro p e q heq
  rcases split_last heq with ⟨rfl, rfl, -⟩ | ⟨q', -, ht'⟩
  · exact hd
  · exact ht p e q' ht'

theorem countP_append (i : Nat) :
    (t ++ [d]).countP (·.empties i) = t.countP (·.empties i) + if d.empties i then 1 else 0 := by
  rw [List.countP_append, List.countP_singleton]

end Deed

namespace Arena

open Deed

variable {α : Type} {a a' : Arena α} {h h' : Handle} {x : α} {t : List Deed} {d : Deed}

theorem insert_room (ha : a.Sound) (hroom : a.HasRoom) (x : α) :
    (a.slots[(a.insert x).1.index.toNat]? = some ⟨(a.insert x).1.generation, none⟩ ∨
      a.slots[(a.insert x).1.index.toNat]? = none ∧ (a.insert x).1.generation = 0) ∧
    (∀ j, (a.insert x).2.slots[j]? = if j = (a.insert x).1.index.toNat then
      some ⟨(a.insert x).1.generation, some x⟩ else a.slots[j]?) ∧
    (∀ j, j ∈ (a.insert x).2.free ↔ j ∈ a.free ∧ j ≠ (a.insert x).1.index.toNat) ∧
    (a.insert x).2.live = a.live + 1 := by
  unfold insert
  split
  · rename_i i free hfree
    have hi : i ∈ a.free := hfree ▸ List.mem_cons_self
    have hnodup := ha.nodup
    rw [hfree, List.nodup_cons] at hnodup
    obtain ⟨generation, hslot⟩ := ha.free i hi
    obtain ⟨hlt, -⟩ := List.getElem?_eq_some_iff.mp hslot
    simp only [hroom.free_toNat ha hi, hslot, Option.map_some, Option.getD_some]
    refine ⟨.inl trivial, fun j => ?_, fun j => ?_, trivial⟩
    · by_cases hj : j = i
      · rw [hj, List.getElem?_set_self hlt, if_pos rfl]
      · rw [List.getElem?_set_ne (Ne.symm hj), if_neg hj]
    · grind
  · rename_i hfree
    simp only [toNat_toUInt32 hroom]
    have hnew : a.slots[a.slots.length]? = none := List.getElem?_eq_none (Nat.le_refl _)
    refine ⟨.inr ⟨hnew, trivial⟩, fun j => ?_, fun j => ?_, trivial⟩
    · grind
    · simp [hfree]

theorem length_le_insert (a : Arena α) (x : α) : a.slots.length ≤ (a.insert x).2.slots.length := by
  unfold insert
  split <;> simp

theorem length_remove (hr : a.remove? h = some a') : a'.slots.length = a.slots.length := by
  unfold remove? at hr
  obtain ⟨x, -, rfl⟩ := Option.map_eq_some_iff.mp hr
  exact List.length_set

theorem isSome_get?_insert (ha : a.Sound) (hroom : a.HasRoom) :
    ((a.insert x).2.get? h).isSome ↔ h = (a.insert x).1 ∨ (a.get? h).isSome := by
  constructor
  · intro hsome
    obtain ⟨y, hy⟩ := Option.isSome_iff_exists.mp hsome
    rcases get?_insert hy with ⟨rfl, -⟩ | hy
    · exact .inl rfl
    · exact .inr (Option.isSome_iff_exists.mpr ⟨y, hy⟩)
  · rintro (rfl | hsome)
    · rw [get?_insert_self ha hroom]
      rfl
    · obtain ⟨y, hy⟩ := Option.isSome_iff_exists.mp hsome
      rw [get?_insert_of_get? ha hy]
      rfl

theorem remove_slots (hr : a.remove? h = some a') :
    (∃ x, a.slots[h.index.toNat]? = some ⟨h.generation, some x⟩) ∧
    (∀ j, a'.slots[j]? = if j = h.index.toNat then some ⟨h.generation + 1, none⟩
      else a.slots[j]?) ∧
    a'.free = h.index.toNat :: a.free ∧ a'.live = a.live - 1 := by
  unfold remove? at hr
  obtain ⟨x, hx, rfl⟩ := Option.map_eq_some_iff.mp hr
  rw [get?_eq_some_iff] at hx
  obtain ⟨hlt, -⟩ := List.getElem?_eq_some_iff.mp hx
  refine ⟨⟨x, hx⟩, fun j => ?_, rfl, rfl⟩
  by_cases hj : j = h.index.toNat
  · rw [hj, if_pos rfl, List.getElem?_set_self hlt]
  · rw [if_neg hj, List.getElem?_set_ne (Ne.symm hj)]

theorem isSome_get?_remove (hr : a.remove? h = some a') :
    (a'.get? h').isSome ↔ h' ≠ h ∧ (a.get? h').isSome := by
  by_cases heq : h' = h
  · subst heq
    obtain ⟨-, hslots, -⟩ := remove_slots hr
    have hslot := hslots h'.index.toNat
    rw [if_pos rfl] at hslot
    have hnone : a'.get? h' = none := by
      by_contra hsome
      obtain ⟨y, hy⟩ := Option.ne_none_iff_exists'.mp hsome
      rw [get?_eq_some_iff, hslot] at hy
      simp at hy
    simp [hnone]
  · rw [get?_remove_of_ne hr heq]
    simp [heq]

def Retired (a : Arena α) (h : Handle) : Prop :=
  ∃ s, a.slots[h.index.toNat]? = some s ∧ h.generation < s.generation

/-- An arena after a history. The generation of a slot tells how often it has been emptied. -/
structure Follows (t : List Deed) (a : Arena α) : Prop where
  alive : ∀ h, (a.get? h).isSome ↔ Held t h
  generation : ∀ i, (a.slots[i]?.map (·.generation.toNat)).getD 0 = t.countP (·.empties i)
  created : ∀ h, .created h ∈ t → a.Retired h ∨ (a.get? h).isSome
  destroyed : ∀ h, .destroyed h ∈ t → a.Retired h
  empty : ∀ i generation, a.slots[i]? = some ⟨generation, none⟩ → i ∈ a.free
  live : ∃ hs : Finset Handle, (∀ h, h ∈ hs ↔ (a.get? h).isSome) ∧ a.live = hs.card

theorem follows_empty : (empty : Arena α).Follows [] := by
  refine ⟨fun h => ?_, fun i => rfl, nofun, nofun, nofun, ∅, fun h => ?_, rfl⟩
  · rw [get?_empty]
    constructor
    · exact nofun
    · rintro ⟨p, q, heq, -⟩
      simp at heq
  · simp [get?_empty]

theorem not_retired (hsome : (a.get? h).isSome) : ¬a.Retired h := by
  obtain ⟨x, hx⟩ := Option.isSome_iff_exists.mp hsome
  rw [get?_eq_some_iff] at hx
  rintro ⟨s, hs, hlt⟩
  rw [hx, Option.some.injEq] at hs
  subst hs
  exact UInt32.lt_irrefl _ hlt

theorem Follows.idle (hf : a.Follows t) (hcreated : ∀ h, d ≠ .created h)
    (hdestroyed : ∀ h, d ≠ .destroyed h) : a.Follows (t ++ [d]) := by
  have hmem {e : Deed} (he : e ∈ t ++ [d]) : e ∈ t ∨ e = d := by simpa using he
  refine ⟨fun h => ?_, fun i => ?_, fun h hh => ?_, fun h hh => ?_, hf.empty, hf.live⟩
  · rw [held_append, hf.alive]
    simp [hcreated, hdestroyed]
  · have hquiet : d.empties i = false := by
      cases d with
      | destroyed h => exact absurd rfl (hdestroyed h)
      | _ => rfl
    rw [hf.generation, countP_append, hquiet]
    rfl
  · exact hf.created h ((hmem hh).resolve_right (Ne.symm (hcreated h)))
  · exact hf.destroyed h ((hmem hh).resolve_right (Ne.symm (hdestroyed h)))

theorem Follows.fresh (hf : a.Follows t) (ha : a.Sound) (hroom : a.HasRoom) (x : α) :
    .created (a.insert x).1 ∉ t := by
  intro hmem
  -- A handle of the history is below the generation of its slot, or alive.
  rcases hf.created _ hmem with ⟨s, hs, hlt⟩ | hsome
  · rcases (insert_room ha hroom x).1 with hslot | ⟨hslot, -⟩
    · rw [hslot, Option.some.injEq] at hs
      subst hs
      exact UInt32.lt_irrefl _ hlt
    · rw [hslot] at hs
      cases hs
  · rw [get?_insert_fst ha hroom] at hsome
    cases hsome

theorem Follows.insert (hf : a.Follows t) (ha : a.Sound) (hroom : a.HasRoom) (x : α) :
    (a.insert x).2.Follows (t ++ [.created (a.insert x).1]) := by
  obtain ⟨hslot, hslots, hfree, hlive⟩ := insert_room ha hroom x
  have halive {h : Handle} := isSome_get?_insert (h := h) (x := x) ha hroom
  -- The slot that is filled keeps its generation.
  have hretired {h : Handle} (hr : a.Retired h) : (a.insert x).2.Retired h := by
    obtain ⟨s, hs, hlt⟩ := hr
    rw [Retired, hslots]
    split
    · rename_i hindex
      rw [hindex] at hs
      rcases hslot with hslot | ⟨hslot, -⟩
      · rw [hslot, Option.some.injEq] at hs
        subst hs
        exact ⟨_, rfl, hlt⟩
      · rw [hslot] at hs
        cases hs
    · exact ⟨s, hs, hlt⟩
  refine ⟨fun h => ?_, fun i => ?_, fun h hh => ?_, fun h hh => ?_, fun i generation hi => ?_, ?_⟩
  · rw [halive, held_append, ← hf.alive, Deed.created.injEq, eq_comm]
    simp
  · rw [countP_append, ← hf.generation, hslots]
    split
    · rename_i hi
      rw [hi]
      rcases hslot with hslot | ⟨hslot, hzero⟩
      · simp [hslot, empties]
      · simp [hslot, hzero, empties]
    · simp [empties]
  · rw [List.mem_append, List.mem_singleton] at hh
    rcases hh with hh | hh
    · exact (hf.created h hh).imp hretired fun hsome => halive.mpr (.inr hsome)
    · exact .inr (halive.mpr (.inl (Deed.created.inj hh)))
  · rw [List.mem_append, List.mem_singleton] at hh
    exact hretired (hf.destroyed h (hh.resolve_right nofun))
  · rw [hslots] at hi
    split at hi
    · cases hi
    · rename_i hne
      exact (hfree i).mpr ⟨hf.empty i generation hi, hne⟩
  · obtain ⟨hs, hmem, hcard⟩ := hf.live
    have hnew : (a.insert x).1 ∉ hs := by
      rw [hmem, get?_insert_fst ha hroom]
      exact nofun
    refine ⟨Insert.insert (a.insert x).1 hs, fun h => ?_, ?_⟩
    · rw [Finset.mem_insert, hmem, halive]
    · rw [Finset.card_insert_of_notMem hnew, hlive, hcard]

theorem Follows.remove (hf : a.Follows t) (hr : a.remove? h = some a')
    (hturns : (t ++ [Deed.destroyed h]).countP (·.empties h.index.toNat) < UInt32.size) :
    a'.Follows (t ++ [.destroyed h]) := by
  obtain ⟨⟨x, hslot⟩, hslots, hfree, hlive⟩ := remove_slots hr
  have halive {h' : Handle} : (a'.get? h').isSome ↔ h' ≠ h ∧ (a.get? h').isSome :=
    isSome_get?_remove hr
  have hsome : (a.get? h).isSome := by rw [get?_eq_some_iff.mpr hslot]; rfl
  -- The generation does not wrap around.
  have hgeneration : h.generation.toNat = t.countP (·.empties h.index.toNat) := by
    rw [← hf.generation, hslot]
    rfl
  have hnext : (h.generation + 1).toNat = h.generation.toNat + 1 := by
    rw [countP_append, ← hgeneration] at hturns
    simp only [empties, beq_self_eq_true, if_true] at hturns
    rw [UInt32.toNat_add]
    exact Nat.mod_eq_of_lt hturns
  have hnew : a'.Retired h := by
    refine ⟨⟨h.generation + 1, none⟩, ?_, ?_⟩
    · rw [hslots, if_pos rfl]
    · rw [UInt32.lt_iff_toNat_lt, hnext]
      omega
  have hretired {h' : Handle} (hr' : a.Retired h') : a'.Retired h' := by
    obtain ⟨s, hs, hlt⟩ := hr'
    rw [Retired, hslots]
    split
    · rename_i hindex
      rw [hindex, hslot, Option.some.injEq] at hs
      subst hs
      refine ⟨_, rfl, ?_⟩
      rw [UInt32.lt_iff_toNat_lt] at hlt ⊢
      simp only at hlt ⊢
      omega
    · exact ⟨s, hs, hlt⟩
  refine ⟨fun h' => ?_, fun i => ?_, fun h' hh => ?_, fun h' hh => ?_, fun i generation hi => ?_,
    ?_⟩
  · rw [halive, held_append, ← hf.alive, ne_eq, eq_comm]
    simp
  · rw [countP_append, hslots]
    split
    · rename_i hi
      simp [hi, empties, hnext, hgeneration]
    · rename_i hne
      simp [hf.generation, empties, Ne.symm hne]
  · rw [List.mem_append, List.mem_singleton] at hh
    rcases hf.created h' (hh.resolve_right nofun) with hr' | hsome'
    · exact .inl (hretired hr')
    · by_cases heq : h' = h
      · exact .inl (heq ▸ hnew)
      · exact .inr (halive.mpr ⟨heq, hsome'⟩)
  · rw [List.mem_append, List.mem_singleton] at hh
    rcases hh with hh | hh
    · exact hretired (hf.destroyed h' hh)
    · rwa [Deed.destroyed.inj hh]
  · rw [hslots] at hi
    rw [hfree]
    split at hi
    · rename_i heq
      exact heq ▸ List.mem_cons_self
    · exact List.mem_cons_of_mem _ (hf.empty i generation hi)
  · obtain ⟨hs, hmem, hcard⟩ := hf.live
    refine ⟨hs.erase h, fun h' => ?_, ?_⟩
    · rw [Finset.mem_erase, hmem, halive]
    · rw [Finset.card_erase_of_mem ((hmem h).mpr hsome), hlive, hcard]

end Arena

variable {ε : Type}

/-- A history of creations and destructions on a new library, with what became of each call. -/
inductive Turnover : List Deed → World ε → Prop
  | start (handler : Severity → String → ε → ε) (host : ε) : Turnover [] (World.create handler host)
  | created {t : List Deed} {w w' : World ε} {fuel : Nat} {bytes : Bytes}
    {callbacks : Handle → Event → Reaction ε} {h : Handle} (before : Turnover t w)
    (call : World.exec fuel (.create bytes callbacks) w = some (.created (.ok h), w')) :
    Turnover (t ++ [.created h]) w'
  | failed {t : List Deed} {w w' : World ε} {fuel : Nat} {bytes : Bytes}
    {callbacks : Handle → Event → Reaction ε} {e : LibraryError} (before : Turnover t w)
    (call : World.exec fuel (.create bytes callbacks) w = some (.created (.error e), w')) :
    Turnover (t ++ [.failed]) w'
  | destroyed {t : List Deed} {w w' : World ε} {fuel : Nat} {h : Handle} (before : Turnover t w)
    (call : World.exec fuel (.destroy h) w = some (.flag true, w')) :
    Turnover (t ++ [.destroyed h]) w'
  | refused {t : List Deed} {w w' : World ε} {fuel : Nat} {h : Handle} (before : Turnover t w)
    (call : World.exec fuel (.destroy h) w = some (.flag false, w')) :
    Turnover (t ++ [.refused h]) w'

namespace World

variable {w w' : World ε} {fuel : Nat} {bytes : Bytes} {callbacks : Handle → Event → Reaction ε}
  {h : Handle} {e : LibraryError} {t : List Deed}

theorem exec_create_ok
    (hr : exec fuel (.create bytes callbacks) w = some (.created (.ok h), w')) :
    (w.arena.insert w.instances.length).1 = h ∧
      w'.arena = (w.arena.insert w.instances.length).2 ∧
      w'.instances.length = w.instances.length + 1 := by
  cases fuel with
  | zero => cases hr
  | succ fuel =>
    rw [exec, open?] at hr
    cases hparse : Container.parse bytes with
    | error e =>
      rw [hparse] at hr
      cases hr
    | ok c =>
      rw [hparse] at hr
      cases hr
      exact ⟨rfl, rfl, by simp⟩

theorem exec_create_error
    (hr : exec fuel (.create bytes callbacks) w = some (.created (.error e), w')) :
    w' = w.report .error ("Failed to create VM: " ++ e.message) := by
  cases fuel with
  | zero => cases hr
  | succ fuel =>
    rw [exec, open?] at hr
    cases hparse : Container.parse bytes with
    | error e =>
      rw [hparse] at hr
      cases hr
      rfl
    | ok c =>
      rw [hparse] at hr
      cases hr

theorem exec_destroy_true (hr : exec fuel (.destroy h) w = some (.flag true, w')) :
    ∃ arena, w.arena.remove? h = some arena ∧ w' = { w with arena := arena } := by
  cases fuel with
  | zero => cases hr
  | succ fuel =>
    rw [exec, destroy] at hr
    cases harena : w.arena.remove? h with
    | none =>
      rw [harena] at hr
      cases hr
    | some arena =>
      rw [harena] at hr
      cases hr
      exact ⟨arena, rfl, rfl⟩

theorem exec_destroy_false (hr : exec fuel (.destroy h) w = some (.flag false, w')) :
    (w.arena.get? h).isSome = false ∧
      w' = w.report .debug ("Ignoring destroy of stale handle " ++ h.text) := by
  cases fuel with
  | zero => cases hr
  | succ fuel =>
    rw [exec, destroy] at hr
    cases harena : w.arena.remove? h with
    | some arena =>
      rw [harena] at hr
      cases hr
    | none =>
      rw [harena] at hr
      cases hr
      rw [Arena.remove?, Option.map_eq_none_iff] at harena
      rw [harena]
      exact ⟨rfl, rfl⟩

theorem exec_destroy (fuel : Nat) (h : Handle) (w : World ε) :
    ∃ w', exec (fuel + 1) (.destroy h) w = some (.flag (w.arena.get? h).isSome, w') := by
  rw [exec, destroy, Arena.remove?]
  cases w.arena.get? h <;> exact ⟨_, rfl⟩

theorem exec_create (fuel : Nat) (bytes : Bytes) (callbacks : Handle → Event → Reaction ε)
    (w : World ε) : ∃ r w', exec (fuel + 1) (.create bytes callbacks) w = some (.created r, w') :=
  ⟨_, _, rfl⟩

end World

structure Kept (t : List Deed) (w : World ε) : Prop where
  follows : w.arena.Follows t
  sound : w.arena.Sound
  housed : ∀ h i, w.arena.get? h = some i → i < w.instances.length
  fits : ∀ p d q, t = p ++ d :: q → d.Fits p

namespace Kept

open Deed

variable {w w' : World ε} {t : List Deed} {h : Handle}

theorem created (hw : Kept t w) (hroom : w.arena.HasRoom)
    (harena : w'.arena = (w.arena.insert w.instances.length).2)
    (hlength : w'.instances.length = w.instances.length + 1) :
    Kept (t ++ [.created (w.arena.insert w.instances.length).1]) w' := by
  have hnew (h : Handle) : w.arena.get? h ≠ some w.instances.length :=
    fun hh => Nat.lt_irrefl _ (hw.housed h _ hh)
  refine ⟨harena ▸ hw.follows.insert hw.sound hroom _, harena ▸ Arena.sound_insert hw.sound hnew,
    fun h i hi => ?_, fits_append hw.fits (hw.follows.fresh hw.sound hroom _)⟩
  rw [harena] at hi
  rcases Arena.get?_insert hi with ⟨-, rfl⟩ | hi
  · omega
  · have := hw.housed h i hi
    omega

theorem destroyed {arena : Arena Nat} (hw : Kept t w) (hr : w.arena.remove? h = some arena)
    (hturns : (t ++ [Deed.destroyed h]).countP (·.empties h.index.toNat) < UInt32.size) :
    Kept (t ++ [.destroyed h]) { w with arena := arena } := by
  have hsome : (w.arena.get? h).isSome := by
    rw [Arena.remove?, Option.map_eq_some_iff] at hr
    obtain ⟨i, hi, -⟩ := hr
    rw [hi]
    rfl
  refine ⟨hw.follows.remove hr hturns, Arena.sound_remove hw.sound hr,
    fun h i hi => hw.housed h i (Arena.get?_remove hr hi), fits_append hw.fits ?_⟩
  exact ⟨(hw.follows.alive h).mp hsome,
    fun hmem => Arena.not_retired hsome (hw.follows.destroyed h hmem)⟩

theorem idle {d : Deed} (hw : Kept t w) (hcreated : ∀ h, d ≠ .created h)
    (hdestroyed : ∀ h, d ≠ .destroyed h) (hd : d.Fits t) (s : Severity) (message : String) :
    Kept (t ++ [d]) (w.report s message) := by
  refine ⟨?_, ?_, ?_, fits_append hw.fits hd⟩
  · rw [World.report_arena]
    exact hw.follows.idle hcreated hdestroyed
  · rw [World.report_arena]
    exact hw.sound
  · rw [World.report_arena, World.report_instances]
    exact hw.housed

end Kept

namespace Turnover

open Deed

variable {w : World ε} {t : List Deed}

theorem kept (ht : Turnover t w) (hroom : w.arena.HasRoom)
    (hturns : ∀ i, t.countP (·.empties i) < UInt32.size) : Kept t w := by
  have hbefore {t : List Deed} {d : Deed} (h : ∀ i, (t ++ [d]).countP (·.empties i) < UInt32.size)
      (i : Nat) : t.countP (·.empties i) < UInt32.size := by
    have := h i
    rw [countP_append] at this
    omega
  induction ht with
  | start =>
    refine ⟨Arena.follows_empty, Arena.sound_empty, fun h i hi => ?_, fun p d q heq => ?_⟩
    · rw [World.create, Arena.get?_empty] at hi
      cases hi
    · simp at heq
  | @created t w w' _ _ _ _ _ call ih =>
    obtain ⟨rfl, harena, hlength⟩ := World.exec_create_ok call
    have hroom' : w.arena.HasRoom := by
      rw [harena] at hroom
      exact Nat.lt_of_le_of_lt (Arena.length_le_insert _ _) hroom
    exact (ih hroom' (hbefore hturns)).created hroom' harena hlength
  | failed _ call ih =>
    cases World.exec_create_error call
    rw [World.report_arena] at hroom
    exact Kept.idle (d := .failed) (ih hroom (hbefore hturns)) nofun nofun trivial _ _
  | @destroyed t w w' _ h _ call ih =>
    obtain ⟨arena, harena, rfl⟩ := World.exec_destroy_true call
    have hroom' : w.arena.HasRoom := by
      rwa [Arena.HasRoom, ← Arena.length_remove harena]
    exact (ih hroom' (hbefore hturns)).destroyed harena (hturns _)
  | @refused t w w' _ h _ call ih =>
    obtain ⟨hdead, rfl⟩ := World.exec_destroy_false call
    rw [World.report_arena] at hroom
    have hw := ih hroom (hbefore hturns)
    refine Kept.idle (d := .refused h) hw nofun nofun ?_ _ _
    rw [Fits, ← hw.follows.alive, hdead]
    exact nofun

end Turnover

/-- Handles after a history, and what the next call does. -/
structure Lifetimes (t : List Deed) (w : World ε) : Prop where
  alive : ∀ h, (w.arena.get? h).isSome ↔ Deed.Held t h
  fits : ∀ p d q, t = p ++ d :: q → d.Fits p
  live : ∃ hs : Finset Handle, (∀ h, h ∈ hs ↔ (w.arena.get? h).isSome) ∧ w.arena.live = hs.card
  free : w.arena.free.Nodup ∧
    ∀ i, i ∈ w.arena.free ↔ ∃ generation, w.arena.slots[i]? = some ⟨generation, none⟩
  destroy : ∀ fuel h, ∃ b w', World.exec (fuel + 1) (.destroy h) w = some (.flag b, w') ∧
    (b = true ↔ Deed.Held t h) ∧
    (b = false → w' = w.report .debug ("Ignoring destroy of stale handle " ++ h.text))
  create : ∀ fuel bytes callbacks, ∃ r w',
    World.exec (fuel + 1) (.create bytes callbacks) w = some (.created r, w') ∧
    ∀ e, r = .error e → w' = w.report .error ("Failed to create VM: " ++ e.message)

/-- Whatever handles are passed, a handle is alive from its creation to its one destruction, and
calls that fail change nothing. -/
theorem lifetimes_of_turnover {t : List Deed} {w : World ε} (ht : Turnover t w)
    (hroom : w.arena.slots.length < UInt32.size)
    (hturns : ∀ i, t.countP (·.empties i) < UInt32.size) : Lifetimes t w := by
  have hw := ht.kept hroom hturns
  refine ⟨hw.follows.alive, hw.fits, hw.follows.live, ⟨hw.sound.nodup, fun i => ⟨?_, ?_⟩⟩, ?_, ?_⟩
  · exact hw.sound.free i
  · rintro ⟨generation, hi⟩
    exact hw.follows.empty i generation hi
  · intro fuel h
    obtain ⟨w', hr⟩ := World.exec_destroy fuel h w
    refine ⟨_, w', hr, hw.follows.alive h, fun hdead => ?_⟩
    rw [hdead] at hr
    exact (World.exec_destroy_false hr).2
  · intro fuel bytes callbacks
    obtain ⟨r, w', hr⟩ := World.exec_create fuel bytes callbacks w
    refine ⟨r, w', hr, ?_⟩
    rintro e rfl
    exact World.exec_create_error hr

/-- The second machine takes the slot of the first, whose handle stays dead. -/
theorem lifetimes_reuse : ∃ w : World Unit,
    w.arena.slots.length = 1 ∧ (w.arena.get? ⟨0, 0⟩).isSome = false ∧
      (w.arena.get? ⟨0, 1⟩).isSome = true ∧
      Lifetimes
        [.created ⟨0, 0⟩, .destroyed ⟨0, 0⟩, .refused ⟨0, 0⟩, .created ⟨0, 1⟩, .failed] w := by
  have hbytes : ((Builder.run .offset Builder.greeting).build.bind fun bytes =>
      (Container.parse bytes).map fun _ => ()) = .ok () := by
    decide +kernel
  obtain ⟨bytes, -, hbytes⟩ := Except.bind_eq_ok_iff.mp hbytes
  obtain ⟨c, hparse, -⟩ := Except.map_eq_ok_iff.mp hbytes
  have hcreate (w : World Unit) : World.exec 1 (.create bytes fun _ _ => .done .nil) w =
      some (.created (.ok (w.arena.insert w.instances.length).1), { w with
        arena := (w.arena.insert w.instances.length).2
        instances := w.instances ++ [⟨.create c, fun _ _ => .done .nil, false, false⟩] }) := by
    rw [World.exec, World.open?, hparse]
  have h₁ := Turnover.created (.start (fun _ _ e => e) ()) (hcreate _)
  have h₂ := Turnover.destroyed h₁
    (show World.exec 1 (.destroy ⟨0, 0⟩) _ = some (.flag true, _) from rfl)
  have h₃ := Turnover.refused h₂
    (show World.exec 1 (.destroy ⟨0, 0⟩) _ = some (.flag false, _) from rfl)
  have h₄ := Turnover.created h₃ (hcreate _)
  have h₅ := Turnover.failed h₄
    (show World.exec 1 (.create #[] fun _ _ => .done .nil) _ =
      some (.created (.error _), _) from rfl)
  have hroom : 1 < UInt32.size := by decide
  refine ⟨_, rfl, rfl, rfl, lifetimes_of_turnover h₅ hroom fun i => ?_⟩
  exact Nat.lt_of_le_of_lt List.countP_le_length (by decide)

end Dialogue
