import Dialogue.Proofs.Machine.Frame
import Dialogue.Proofs.Machine.Replay
import Dialogue.Proofs.Table

namespace Dialogue.Machine

variable {φ : Type} {m m' m₁ : Machine φ} {g : Global φ} {name : String}

theorem saveGlobals_of_unsaved {gs : List (Global φ)} {saved : Snapshot} {problems : List MachineError}
    (hname : ∀ g ∈ gs, g.symbol.name = name → ∀ v j, g.slot = .value v → v.toJson ≠ .ok j) :
    (saveGlobals gs saved problems).1.get? name = saved.get? name := by
  induction gs generalizing saved problems with
  | nil => rfl
  | cons g gs ih =>
    have hrest := fun g hg => hname g (List.mem_cons_of_mem _ hg)
    rw [saveGlobals]
    split
    · exact ih hrest
    · rename_i v hslot
      split
      · rename_i saved' hsave
        rw [ih hrest]
        obtain ⟨j, hj, rfl⟩ := Except.map_eq_ok_iff.mp hsave
        refine Table.get?_insert_of_ne _ (fun heq => ?_) _
        exact hname g List.mem_cons_self heq.symm v j hslot hj
      · exact ih hrest

theorem saveGlobals_of_not_mem {gs : List (Global φ)} {saved : Snapshot} {problems : List MachineError}
    (hname : ∀ g ∈ gs, g.symbol.name ≠ name) :
    (saveGlobals gs saved problems).1.get? name = saved.get? name :=
  saveGlobals_of_unsaved fun g hg heq => absurd heq (hname g hg)

theorem saveGlobals_of_mem {gs : List (Global φ)} {saved : Snapshot} {problems : List MachineError}
    {v : Value} {j : Json} (hnodup : (gs.map (·.symbol.name)).Nodup) (hg : g ∈ gs)
    (hslot : g.slot = .value v) (hj : v.toJson = .ok j) :
    (saveGlobals gs saved problems).1.get? g.symbol.name = some j := by
  induction gs generalizing saved problems with
  | nil => cases hg
  | cons g₀ gs ih =>
    obtain ⟨hfresh, hnodup⟩ := List.nodup_cons.mp hnodup
    rw [saveGlobals]
    rcases List.mem_cons.mp hg with rfl | hg
    · have hsave : saved.save g.symbol.name v = .ok (saved.insert g.symbol.name j) := by
        rw [Snapshot.save, hj]
        rfl
      simp only [hslot, hsave]
      rw [saveGlobals_of_not_mem, Table.get?_insert_self]
      intro g' hg' heq
      exact hfresh (List.mem_map.mpr ⟨g', hg', heq⟩)
    · split
      · exact ih hnodup hg
      · split <;> exact ih hnodup hg

theorem IsParsed.save_of_mem {v : Value} {j : Json} (hm : m.IsParsed) (hg : g ∈ m.globals)
    (hslot : g.slot = .value v) (hj : v.toJson = .ok j) : m.save.1.get? g.symbol.name = some j :=
  saveGlobals_of_mem hm.nodup.1 hg hslot hj

theorem IsParsed.save_nil (hm : m.IsParsed) (hg : g ∈ m.globals) (hslot : g.slot = .value .nil) :
    m.save.1.get? g.symbol.name = some .null :=
  hm.save_of_mem hg hslot rfl

theorem IsParsed.loadEntries_nil {entries : List (String × Json)} (hm : m.IsParsed)
    (hg : m.global? name = some g) (hnil : g.slot.current.isNil = true)
    (hnull : g.slot.isFunction = true ∨ ∀ j, (name, j) ∈ entries → j = .null) :
    ∃ g', (m.loadEntries entries).1.global? name = some g' ∧ g'.slot.current.isNil = true := by
  induction entries generalizing m g with
  | nil => exact ⟨g, hg, hnil⟩
  | cons entry entries ih =>
    obtain ⟨n, j⟩ := entry
    have hparsed : (m.loadEntry n j).1.IsParsed :=
      hm.congr (adjusts_loadEntry m n j).container (adjusts_loadEntry m n j).symbols
    have hrest : g.slot.isFunction = true ∨ ∀ j, (name, j) ∈ entries → j = .null :=
      hnull.imp_right fun h j hj => h j (List.mem_cons_of_mem _ hj)
    change ∃ g', ((m.loadEntry n j).1.loadEntries entries).1.global? name = some g' ∧ _
    by_cases hn : n = name
    · subst hn
      cases hfunction : g.slot.isFunction with
      | true =>
        have hskip : (m.loadEntry n j).1 = m := by simp [loadEntry, hg, hfunction]
        rw [hskip]
        exact ih hm hg hnil hrest
      | false =>
        have hj : j = .null := by
          rcases hnull with h | h
          · rw [hfunction] at h
            cases h
          · exact h j List.mem_cons_self
        subst hj
        have hwrite : (m.loadEntry n .null).1 = m.write g.symbol.index (.value .nil) := by
          simp only [loadEntry, hg, hfunction, Bool.false_eq_true, if_false, Value.ofJson]
          rfl
        rw [hwrite] at hparsed ⊢
        refine ih (g := { g with slot := .value .nil }) hparsed ?_ rfl (.inr ?_)
        · rw [hm.global?_write hg, if_pos rfl]
        · rcases hrest with h | h
          · rw [hfunction] at h
            cases h
          · exact h
    · have hkeep : (m.loadEntry n j).1.global? name = some g := by
        rcases hm.global?_loadEntry n j with h | ⟨v, h⟩
        · rw [h, hg]
        · rw [h, if_neg (Ne.symm hn), hg]
      exact ih hparsed hkeep hnil hrest

theorem isNil_of_value {slot : Slot φ} (hnil : slot.current.isNil = true)
    (hfunction : slot.isFunction = false) : slot = .value .nil := by
  cases slot with
  | value v => exact congrArg Slot.value (isNil_eq hnil)
  | function arity body => cases hfunction

theorem unset_loadEntries {saved : Snapshot} (hm' : m'.IsParsed)
    (hsame : SameConstants m m') (hsaved : ∀ g ∈ m.globals, g.symbol.isMutable = false →
      g.slot = .value .nil → saved.get? g.symbol.name = some .null) :
    Unset m (m'.loadEntries saved.entries).1 := by
  intro g hg hconstant hnil g' hg' hsymbol
  have hg₁ : m'.global? g.symbol.name = some g :=
    hm'.global?_of_mem ((hsame g hconstant).mpr hg)
  have hnull : g.slot.isFunction = true ∨ ∀ j, (g.symbol.name, j) ∈ saved.entries → j = .null := by
    cases hfunction : g.slot.isFunction with
    | true => exact .inl rfl
    | false =>
      refine .inr fun j hj => ?_
      have hget := hsaved g hg hconstant (isNil_of_value hnil hfunction)
      rw [Table.get?_of_mem hj, Option.some.injEq] at hget
      exact hget
  obtain ⟨g₁, hglobal?, hnil₁⟩ := hm'.loadEntries_nil hg₁ hnil hnull
  have hadjusts := adjusts_loadEntries m' saved.entries
  have hparsed : (m'.loadEntries saved.entries).1.IsParsed :=
    hm'.congr hadjusts.container hadjusts.symbols
  have hfound := hparsed.global?_of_mem hg'
  rw [hsymbol, hglobal?, Option.some.injEq] at hfound
  rwa [← hfound]

def resumed (m : Machine φ) (saved : Snapshot) : Machine φ :=
  if saved.isEmpty then m else { (m.loadEntries saved.entries).1 with diagnostics := [] }

theorem standing_resumed (m : Machine φ) (saved : Snapshot) :
    (m.resumed saved).standing = m.standing := by
  unfold resumed
  split
  · rfl
  · exact standing_loadEntries m saved.entries

theorem IsParsed.resumed (hm : m.IsParsed) (saved : Snapshot) : (m.resumed saved).IsParsed := by
  refine hm.congr (congrArg Standing.container (standing_resumed m saved)) ?_
  unfold Machine.resumed
  split
  · rfl
  · exact (adjusts_loadEntries m saved.entries).symbols

theorem unset_resumed {saved : Snapshot} (hm' : m'.IsParsed) (hsame : SameConstants m m')
    (hsaved : saved.isEmpty = true ∨ ∀ g ∈ m.globals, g.symbol.isMutable = false →
      g.slot = .value .nil → saved.get? g.symbol.name = some .null) :
    Unset m (m'.resumed saved) := by
  unfold Machine.resumed
  split
  · intro g hg hconstant hnil g' hg' hsymbol
    have hmem : g ∈ m'.globals := (hsame g hconstant).mpr hg
    rw [hm'.eq_of_index hg' hmem (by rw [hsymbol])]
    exact hnil
  · rename_i hsome
    rcases hsaved with hempty | hsaved
    · exact absurd hempty hsome
    · exact (unset_loadEntries hm' hsame hsaved).congr (.of_globals rfl) (.of_globals rfl)

theorem parallel_resumed {saved : Snapshot} {bough : String} (hm : m.IsParsed) (hm' : m'.IsParsed)
    (hcontainer : m'.container = m.container) (hstate : m'.state = .ready ∨ m'.state = .finished)
    (hevents : m'.events = m.events) (hsame : SameConstants m m')
    (hsaved : saved.isEmpty = true ∨ ∀ g ∈ m.globals, g.symbol.isMutable = false →
      g.slot = .value .nil → saved.get? g.symbol.name = some .null) (h : m.start bough = .ok m₁) :
    ∃ m₁', (m'.resumed saved).start bough = .ok m₁' ∧ Parallel m₁ m₁' := by
  obtain ⟨b, hb, rfl⟩ := start_eq_ok h
  have hstanding := standing_resumed m' saved
  have hparsed := hm'.resumed saved
  have hunset := unset_resumed hm' hsame hsaved
  generalize m'.resumed saved = m₂ at *
  simp only [standing, Standing.mk.injEq] at hstanding
  obtain ⟨hcontainer₂, hstate₂, -, -, -, hevents₂⟩ := hstanding
  rw [← hcontainer₂] at hcontainer
  have hsymbols : m₂.globals.map (·.symbol) = m.globals.map (·.symbol) := by
    rw [hparsed.symbols, hcontainer, hm.symbols]
  refine ⟨{ m₂ with ip := b.entry.toNat, pending := [], state := .running }, ?_, ?_, ?_, hunset⟩
  · unfold start
    rcases hstate with hstate | hstate <;> rw [hstate₂, hstate, hcontainer, hb]
  · simp [control, hcontainer, hsymbols]
  · simp [cues, hevents₂, hevents]

end Dialogue.Machine
