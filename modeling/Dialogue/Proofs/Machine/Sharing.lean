import Dialogue.Proofs.Machine.Saving

/-!
The values of a machine under their names: what saved values and the host's assignments make of
them.
-/

namespace Dialogue

theorem EnumDomains.checkAssignment_of_isEmpty {ds : EnumDomains} (hempty : ds.isEmpty = true)
    (current next : Value) : ds.checkAssignment current next = .ok () := by
  cases next with
  | enum e => simp only [checkAssignment, Table.get?_of_isEmpty hempty]
  | _ => rfl

namespace Machine

variable {φ : Type} {m m' : Machine φ} {g : Global φ} {name n : String} {v : Value}

theorem value_of_slots (h : (m'.global? n).map (·.slot) = (m.global? n).map (·.slot)) :
    m'.value n = m.value n := by
  unfold value
  cases hg : m.global? n <;> cases hg' : m'.global? n <;> simp_all

theorem value_of_global? {current : Value} (hg : m.global? name = some g)
    (hslot : g.slot = .value current) : m.value name = .ok current := by
  simp only [value, hg, hslot]

theorem IsParsed.save_value {j : Json} (hm : m.IsParsed) (hv : m.value name = .ok v)
    (hj : v.toJson = .ok j) : m.save.1.get? name = some j := by
  obtain ⟨g, hg, hslot⟩ := value_eq_ok hv
  obtain ⟨hmem, rfl⟩ := global?_mem hg
  exact hm.save_of_mem hmem hslot hj

theorem IsParsed.value_of_save {j : Json} (hm : m.IsParsed) (h : m.save.1.get? name = some j) :
    ∃ v, m.value name = .ok v ∧ v.toJson = .ok j := by
  by_contra hno
  have hunsaved : m.save.1.get? name = none := by
    refine saveGlobals_of_unsaved fun g hg hname v j' hslot hj' => hno ⟨v, ?_, ?_⟩
    · subst hname
      exact value_of_global? (hm.global?_of_mem hg) hslot
    · subst hname
      rwa [← Option.some.inj ((hm.save_of_mem hg hslot hj').symm.trans h)]
  rw [hunsaved] at h
  cases h

/-- What a name that stands for `r` stands for once its saved value has been loaded. A value that
cannot be read or that the domains refuse is passed over. -/
def restore (ds : EnumDomains) :
    Except MachineError Value → Option (Except ValueError Value) → Except MachineError Value
  | .ok current, some (.ok v) =>
    if ds.checkAssignment current v = .ok () then .ok v else .ok current
  | r, _ => r

theorem restore_none (ds : EnumDomains) (r : Except MachineError Value) : restore ds r none = r := by
  cases r <;> rfl

theorem domains_loadEntry (m : Machine φ) (name : String) (j : Json) :
    (m.loadEntry name j).1.domains = m.domains := by
  rcases loadEntry_cases m name j with h | ⟨e, h⟩ | ⟨g, v, -, -, h⟩ <;> rw [h] <;> rfl

theorem domains_loadEntries (m : Machine φ) (entries : List (String × Json)) :
    (m.loadEntries entries).1.domains = m.domains := by
  induction entries generalizing m with
  | nil => rfl
  | cons entry entries ih =>
    exact (ih (m.loadEntry entry.1 entry.2).1).trans (domains_loadEntry m entry.1 entry.2)

theorem IsParsed.value_loadEntry_self (hm : m.IsParsed) (name : String) (j : Json) :
    (m.loadEntry name j).1.value name =
      restore m.domains (m.value name) (some (Value.ofJson j)) := by
  cases hg : m.global? name with
  | none => simp [loadEntry, value, hg, restore]
  | some g =>
    cases hslot : g.slot with
    | function arity body => simp [loadEntry, value, hg, hslot, Slot.isFunction, restore]
    | value current =>
      rw [value_of_global? hg hslot]
      cases hv : Value.ofJson j with
      | error e =>
        have hkeep : (m.loadEntry name j).1 = m.diagnose (.snapshotEntry name e) := by
          simp only [loadEntry, hg, hslot, hv]
          rfl
        rw [hkeep]
        exact value_of_global? hg hslot
      | ok v =>
        cases hcheck : m.domains.checkAssignment current v with
        | error e =>
          have hkeep : (m.loadEntry name j).1 = m.diagnose (.snapshotEntry name e) := by
            simp only [loadEntry, hg, hslot, hv, Slot.current, hcheck, bind, Except.bind]
            rfl
          rw [hkeep, restore, hcheck, if_neg fun h => by cases h]
          exact value_of_global? hg hslot
        | ok u =>
          have hwrite : (m.loadEntry name j).1 = m.write g.symbol.index (.value v) := by
            simp only [loadEntry, hg, hslot, hv, Slot.current, hcheck, bind, Except.bind]
            rfl
          rw [hwrite, restore, hcheck, if_pos rfl]
          refine value_of_global? (g := { g with slot := .value v }) ?_ rfl
          rw [hm.global?_write hg, if_pos rfl]

theorem IsParsed.value_loadEntry_of_ne (hm : m.IsParsed) (hne : n ≠ name) (j : Json) :
    (m.loadEntry name j).1.value n = m.value n := by
  refine value_of_slots ?_
  rcases hm.global?_loadEntry name j with h | ⟨v, h⟩
  · rw [h]
  · rw [h, if_neg hne]

theorem IsParsed.value_loadEntries {entries : List (String × Json)} (hm : m.IsParsed)
    (hnodup : (entries.map (·.1)).Nodup) (n : String) :
    (m.loadEntries entries).1.value n =
      restore m.domains (m.value n) ((Entries.find? n entries).map Value.ofJson) := by
  induction entries generalizing m with
  | nil => exact (restore_none m.domains (m.value n)).symm
  | cons entry entries ih =>
    obtain ⟨name, j⟩ := entry
    obtain ⟨hfresh, hnodup⟩ := List.nodup_cons.mp hnodup
    have hparsed : (m.loadEntry name j).1.IsParsed :=
      hm.congr (adjusts_loadEntry m name j).container (adjusts_loadEntry m name j).symbols
    change ((m.loadEntry name j).1.loadEntries entries).1.value n = _
    rw [ih hparsed hnodup, domains_loadEntry, Entries.find?]
    by_cases hn : n = name
    · subst hn
      rw [hm.value_loadEntry_self, Entries.find?_eq_none hfresh, if_pos rfl]
      exact restore_none ..
    · rw [hm.value_loadEntry_of_ne hn, if_neg hn]

theorem domains_resumed (m : Machine φ) (saved : Snapshot) :
    (m.resumed saved).domains = m.domains := by
  unfold resumed
  split
  · rfl
  · exact domains_loadEntries m saved.entries

theorem container_resumed (m : Machine φ) (saved : Snapshot) :
    (m.resumed saved).container = m.container :=
  congrArg Standing.container (standing_resumed m saved)

theorem IsParsed.value_resumed (hm : m.IsParsed) (saved : Snapshot) (n : String) :
    (m.resumed saved).value n = restore m.domains (m.value n) (saved.value? n) := by
  unfold Machine.resumed
  split
  · rename_i hempty
    have hnone : saved.value? n = none := by
      rw [Snapshot.value?, Table.get?_of_isEmpty hempty]
      rfl
    rw [hnone, restore_none]
  · exact hm.value_loadEntries saved.nodup_keys n

theorem value_setExtern (hm : m.IsParsed) (h : m.setExtern name v = .ok m') (n : String) :
    m'.value n = if n = name then .ok v else m.value n := by
  have hglobal? := hm.global?_setExtern h n
  split
  · rename_i heq
    rw [if_pos heq] at hglobal?
    cases hg : m.global? name with
    | none => simp [setExtern, hg] at h
    | some g =>
      rw [hg] at hglobal?
      exact value_of_global? hglobal? rfl
  · rename_i hne
    rw [if_neg hne] at hglobal?
    exact value_of_slots (congrArg _ hglobal?)

theorem value_subscribe (hm : m.IsParsed) (h : m.subscribe name = .ok m') (n : String) :
    m'.value n = m.value n :=
  value_of_slots ((primed_subscribe hm h : m.Primed (fun _ => False) _ m').slot n id)

theorem domains_setExtern (h : m.setExtern name v = .ok m') : m'.domains = m.domains := by
  obtain ⟨g, -, -, rfl⟩ := setExtern_eq_ok h
  rfl

theorem domains_subscribe (h : m.subscribe name = .ok m') : m'.domains = m.domains := by
  obtain ⟨g, -, -, rfl⟩ := subscribe_eq_ok h
  rfl

theorem subscribe_of_value (h : m.value name = .ok v) : ∃ m', m.subscribe name = .ok m' := by
  obtain ⟨g, hg, hslot⟩ := value_eq_ok h
  rw [subscribe, hg]
  simp only [hslot, Slot.isFunction, Bool.false_eq_true, if_false]
  exact ⟨_, rfl⟩

def IsExtern (m : Machine φ) (name : String) : Prop :=
  ∃ g, m.global? name = some g ∧ g.symbol.isExtern = true

theorem IsParsed.isExtern (hm : m.IsParsed) (h : name ∈ m.container.externs) : m.IsExtern name := by
  have hmem := Table.mem_of_mem_keys_ofList h
  rw [List.map_map, List.mem_map] at hmem
  obtain ⟨symbol, hsymbol, rfl⟩ := hmem
  obtain ⟨hsymbol, hprovided⟩ := List.mem_filter.mp hsymbol
  rw [← hm.symbols] at hsymbol
  obtain ⟨g, hg, rfl⟩ := List.mem_map.mp hsymbol
  exact ⟨g, hm.global?_of_mem hg, hprovided⟩

theorem setExtern_of_isExtern (hprovided : m.IsExtern name) (hempty : m.domains.isEmpty = true)
    (v : Value) : ∃ m', m.setExtern name v = .ok m' := by
  obtain ⟨g, hg, hprovided⟩ := hprovided
  rw [setExtern, hg]
  simp only [hprovided, if_true, EnumDomains.checkAssignment_of_isEmpty hempty]
  exact ⟨_, rfl⟩

end Machine

end Dialogue
