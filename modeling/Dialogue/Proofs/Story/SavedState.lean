import Dialogue.Proofs.Container.RoundTrip
import Dialogue.Proofs.Host.Rest
import Dialogue.Proofs.Reading
import Dialogue.Proofs.Value.Json
import Dialogue.Proofs.Value.Proper
import Dialogue.Story.Files

namespace Dialogue

namespace Snapshot

variable {s t : Snapshot}

def Canonical (s : Snapshot) : Prop := ∀ e ∈ s.entries, e.2.Canonical

theorem Canonical.toJson (hs : s.Canonical) : s.toJson.Canonical :=
  ⟨s.ordered, Json.canonicalMembers_iff.mpr hs⟩

theorem canonical_empty : Canonical .empty := nofun

theorem forall_insert {P : Json → Prop} {name : String} {j : Json} (hs : ∀ e ∈ s.entries, P e.2)
    (hj : P j) : ∀ e ∈ (Table.insert s name j).entries, P e.2 := by
  intro e he
  rcases Entries.mem_insert he with rfl | he
  · exact hj
  · exact hs e he

theorem Canonical.insert (hs : s.Canonical) {name : String} {j : Json} (hj : j.Canonical) :
    Canonical (Table.insert s name j) :=
  forall_insert hs hj

theorem Canonical.inserts {es : List (String × Json)} (hs : s.Canonical)
    (hes : ∀ e ∈ es, e.2.Canonical) :
    Canonical (es.foldl (fun t e => Table.insert t e.1 e.2) s) := by
  induction es generalizing s with
  | nil => exact hs
  | cons e es ih =>
    obtain ⟨he, hes⟩ := List.forall_mem_cons.mp hes
    exact ih (hs.insert he) hes

theorem Canonical.amend (hs : s.Canonical) (ht : t.Canonical) : (s.amend t).Canonical :=
  hs.inserts ht

theorem Canonical.save {name : String} {v : Value} (hs : s.Canonical) (h : s.save name v = .ok t) :
    t.Canonical := by
  obtain ⟨j, hj, rfl⟩ := Except.map_eq_ok_iff.mp h
  exact hs.insert (Value.canonical_toJson hj)

theorem canonical_of_ofText? {text : String} (h : ofText? text = some s) : s.Canonical := by
  unfold ofText? at h
  split at h
  · rename_i members hparse
    cases h
    exact canonical_empty.inserts (Json.canonicalMembers_iff.mp (Json.canonical_of_parse? hparse).2)
  · cases h

theorem ofList_entries (s : Snapshot) : Table.ofList s.entries = s := by
  have hfold {es : List (String × Json)} {t : Snapshot}
      (h : Entries.Ordered (t.entries ++ es)) :
      (es.foldl (fun t e => t.insert e.1 e.2) t).entries = t.entries ++ es := by
    induction es generalizing t with
    | nil => simp
    | cons e es ih =>
      have hlast : ∀ e' ∈ t.entries, e'.1 < e.1 := fun e' he' =>
        (List.pairwise_append.mp h).2.2 e' he' e List.mem_cons_self
      have hinsert : (t.insert e.1 e.2).entries = t.entries ++ [e] := Json.insert_last hlast
      rw [List.foldl_cons, ih (by rw [hinsert]; simpa using h), hinsert]
      simp
  obtain ⟨entries, ordered⟩ := s
  have hentries : (Table.ofList entries).entries = entries := hfold (t := Table.empty) ordered
  cases hlist : Table.ofList entries
  rw [hlist] at hentries
  cases hentries
  rfl

theorem Canonical.ofText?_text (hs : s.Canonical) : ofText? s.text =
    if s.toJson.nesting ≤ Json.Written.maxNesting then some s else none := by
  rw [ofText?, text, Json.parse?_text hs.toJson]
  by_cases hnesting : s.toJson.nesting ≤ Json.Written.maxNesting
  · simp only [hnesting, if_true]
    exact congrArg some s.ofList_entries
  · simp only [hnesting, if_false]

end Snapshot

namespace Machine

variable {φ : Type}

theorem forall_saveGlobals {P : Json → Prop} {gs : List (Global φ)} {saved : Snapshot}
    {problems : List MachineError} (hsaved : ∀ e ∈ saved.entries, P e.2)
    (hgs : ∀ g ∈ gs, ∀ v j, g.slot = .value v → v.toJson = .ok j → P j) :
    ∀ e ∈ (saveGlobals gs saved problems).1.entries, P e.2 := by
  induction gs generalizing saved problems with
  | nil => exact hsaved
  | cons g gs ih =>
    obtain ⟨hg, hgs⟩ := List.forall_mem_cons.mp hgs
    rw [saveGlobals]
    split
    · exact ih hsaved hgs
    · rename_i v hslot
      split
      · rename_i hsave
        obtain ⟨j, hj, rfl⟩ := Except.map_eq_ok_iff.mp hsave
        exact ih (Snapshot.forall_insert hsaved (hg v j hslot hj)) hgs
      · exact ih hsaved hgs

theorem canonical_save (m : Machine φ) : m.save.1.Canonical :=
  forall_saveGlobals Snapshot.canonical_empty fun _ _ _ _ _ hj => Value.canonical_toJson hj

end Machine

namespace World

variable {ε : Type}

theorem exec_save_eq_some {fuel : Nat} {h : Handle} {w w' : World ε} {s : Snapshot}
    (hsave : exec fuel (.save h) w = some (.snapshot (some s), w')) :
    ∃ i inst, w.find h = .ok (i, inst) ∧ s = inst.machine.save.1 := by
  cases fuel with
  | zero => cases hsave
  | succ fuel =>
    rw [exec] at hsave
    obtain ⟨⟨r, w₁⟩, hchange, hr⟩ := Option.map_eq_some_iff.mp hsave
    unfold change at hchange
    split at hchange
    · cases hchange
      cases hr
    · rename_i i inst hfind
      split at hchange
      · cases hchange
        cases hr
      · obtain ⟨w₂, -, hpair⟩ := Option.map_eq_some_iff.mp hchange
        cases hpair
        cases hr
        exact ⟨i, inst, hfind, rfl⟩

end World

namespace SavedState

/-- The states that come about: what a library saves, joined and changed value by value, and what
texts hold. -/
inductive Obtained : Snapshot → Prop
  | empty : Obtained .empty
  | save {ε : Type} {fuel : Nat} {h : Handle} {w w' : World ε} {s : Snapshot} :
    World.exec fuel (.save h) w = some (.snapshot (some s), w') → Obtained s
  | amend {s t : Snapshot} : Obtained s → Obtained t → Obtained (s.amend t)
  | set {s t : Snapshot} {name : String} {v : Value} :
    Obtained s → set s name v = .ok t → Obtained t
  | erase {s : Snapshot} (name : String) : Obtained s → Obtained (Table.erase s name)
  | ofText {text : String} {s : Snapshot} : ofText text = .ok s → Obtained s

variable {s : Snapshot}

theorem Obtained.canonical (hs : Obtained s) : s.Canonical := by
  induction hs with
  | empty => exact Snapshot.canonical_empty
  | save hsave =>
    obtain ⟨i, inst, -, rfl⟩ := World.exec_save_eq_some hsave
    exact inst.machine.canonical_save
  | amend _ _ hs ht => exact hs.amend ht
  | @set s t name v _ hset hs =>
    unfold SavedState.set at hset
    cases hsave : s.save name v with
    | error e =>
      rw [hsave] at hset
      cases hset
    | ok t =>
      rw [hsave] at hset
      cases hset
      exact hs.save hsave
  | erase name _ hs => exact fun e he => hs e (List.mem_filter.mp he).1
  | @ofText text s htext =>
    unfold SavedState.ofText at htext
    split at htext
    · rename_i hparse
      cases htext
      exact Snapshot.canonical_of_ofText? hparse
    · cases htext

/-- A state is read back from its text, and from a file that has been written with it, if and only
if its values nest less than 127 arrays and objects deep. Otherwise the file cannot be loaded. -/
theorem Obtained.load_bytes (hs : Obtained s) :
    (Snapshot.ofText? s.text =
      if s.toJson.nesting ≤ Json.Written.maxNesting then some s else none) ∧
    ∀ (read : String → Except FileError Bytes) (path : String), read path = .ok (bytes s) →
      load read path =
        if s.toJson.nesting ≤ Json.Written.maxNesting then .ok s else .error .snapshot := by
  have htext := hs.canonical.ofText?_text
  refine ⟨htext, fun read path hread => ?_⟩
  have hutf8 : ofUtf8? (bytes s) = some s.text := ofUtf8?_eq_some_iff.mpr rfl
  have hfile : fileText (read path) = .ok s.text := by
    rw [hread]
    simp only [fileText, bind, Except.bind, hutf8]
  rw [load, hfile]
  by_cases hnesting : s.toJson.nesting ≤ Json.Written.maxNesting <;>
    simp only [SavedState.ofText, htext, hnesting, if_true, if_false]

def chest : Nat → Value
  | 0 => .nil
  | depth + 1 => .map [(.nil, chest depth)]

def saved (v : Value) : Option Snapshot := do
  let bytes ← (Builder.run .offset [.externVariable "x", .bough "main", .stop]).build.toOption
  let (.created (.ok h), w) ←
    World.exec 1 (.create bytes fun _ _ => .done .nil) (.create (fun _ _ s => s) ()) | none
  let (_, w) ← World.exec 5 (.setExtern h "x" v) w
  let (.snapshot s, _) ← World.exec 5 (.save h) w | none
  s

theorem obtained_of_saved {v : Value} (h : saved v = some s) : Obtained s := by
  unfold saved at h
  simp only [Option.bind_eq_bind, Option.bind_eq_some_iff] at h
  obtain ⟨bytes, -, ⟨reply, w⟩, -, h⟩ := h
  split at h
  · simp only [Option.bind_eq_some_iff] at h
    obtain ⟨⟨_, w⟩, -, ⟨reply, w'⟩, hsave, h⟩ := h
    split at h
    · rename_i heq
      cases heq
      subst h
      exact .save hsave
    · cases h
  · cases h

/-- Maps that nest 42 deep are read back; one list around them, and they no longer are. -/
theorem load_bytes_chest : ∃ s t : Snapshot,
    saved (chest 42) = some s ∧ saved (.list [chest 42]) = some t ∧
      load (fun _ => .ok (bytes s)) "state.json" = .ok s ∧
        Snapshot.ofText? t.text = none ∧
          load (fun _ => .ok (bytes t)) "state.json" = .error .snapshot := by
  obtain ⟨s, hs, hsnesting⟩ := (Option.any_eq_true _ _).mp
    (by decide +kernel : (saved (chest 42)).any (·.toJson.nesting == 127) = true)
  obtain ⟨t, ht, htnesting⟩ := (Option.any_eq_true _ _).mp
    (by decide +kernel : (saved (.list [chest 42])).any (·.toJson.nesting == 128) = true)
  have hload := (Obtained.load_bytes (obtained_of_saved hs)).2 (fun _ => .ok (bytes s)) "state.json" rfl
  have hreject := Obtained.load_bytes (obtained_of_saved ht)
  rw [beq_iff_eq.mp hsnesting] at hload
  rw [beq_iff_eq.mp htnesting] at hreject
  exact ⟨s, t, hs, ht, hload, hreject.1, hreject.2 (fun _ => .ok (bytes t)) "state.json" rfl⟩

end SavedState

end Dialogue
