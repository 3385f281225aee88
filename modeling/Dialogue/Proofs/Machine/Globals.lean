import Dialogue.Proofs.Container.Tables
import Dialogue.Proofs.Machine.Progress
import Mathlib.Data.List.Nodup

namespace Dialogue.Machine

variable {φ : Type} {m m' : Machine φ} {g g' : Global φ} {name : String} {v : Value}

structure IsParsed (m : Machine φ) : Prop where
  parsed : ∃ bytes, Container.parse bytes = .ok m.container
  symbols : m.globals.map (·.symbol) = m.container.globals

theorem IsParsed.congr (hm : m.IsParsed) (hcontainer : m'.container = m.container)
    (hsymbols : m'.globals.map (·.symbol) = m.globals.map (·.symbol)) : m'.IsParsed :=
  ⟨hcontainer ▸ hm.parsed, hcontainer ▸ hsymbols.trans hm.symbols⟩

theorem IsParsed.nodup (hm : m.IsParsed) : (m.globals.map (·.symbol.name)).Nodup ∧
    (m.globals.map (·.symbol.index)).Nodup := by
  obtain ⟨⟨bytes, hparsed⟩, hsymbols⟩ := hm
  obtain ⟨-, hglobals, -⟩ := Container.parse_eq_ok_iff.mp hparsed
  obtain ⟨⟨hnames, -⟩, hindices, -⟩ := Container.checkGlobals_eq_ok_iff.mp hglobals
  rw [← hsymbols, List.map_map] at hnames hindices
  exact ⟨hnames, hindices⟩

theorem IsParsed.eq_of_index (hm : m.IsParsed) (hg : g ∈ m.globals) (hg' : g' ∈ m.globals)
    (h : g.symbol.index = g'.symbol.index) : g = g' :=
  List.inj_on_of_nodup_map hm.nodup.2 hg hg' h

theorem global?_mem (hg : m.global? name = some g) : g ∈ m.globals ∧ g.symbol.name = name :=
  ⟨List.mem_of_find?_eq_some hg, beq_iff_eq.mp (List.find?_some hg :)⟩

theorem slotAt?_mem {index : UInt32} (hg : m.slotAt? index = some g) :
    g ∈ m.globals ∧ g.symbol.index = index :=
  ⟨List.mem_of_find?_eq_some hg, beq_iff_eq.mp (List.find?_some hg :)⟩

theorem value_eq_ok (h : m.value name = .ok v) :
    ∃ g, m.global? name = some g ∧ g.slot = .value v := by
  unfold value at h
  split at h
  · cases h
  · rename_i g hg
    split at h
    · rename_i u hslot
      cases h
      exact ⟨g, hg, hslot⟩
    · cases h

theorem IsParsed.global?_of_mem (hm : m.IsParsed) (hg : g ∈ m.globals) :
    m.global? g.symbol.name = some g := by
  obtain ⟨g', hg'⟩ : ∃ g', m.global? g.symbol.name = some g' := by
    rw [← Option.isSome_iff_exists, global?, List.find?_isSome]
    exact ⟨g, hg, beq_self_eq_true _⟩
  obtain ⟨hmem, hname⟩ := global?_mem hg'
  rw [hg', List.inj_on_of_nodup_map hm.nodup.1 hmem hg hname]

theorem IsParsed.slotAt?_of_mem (hm : m.IsParsed) (hg : g ∈ m.globals) {index : UInt32}
    (hindex : g.symbol.index = index) : m.slotAt? index = some g := by
  obtain ⟨g', hg'⟩ : ∃ g', m.slotAt? index = some g' := by
    rw [← Option.isSome_iff_exists, slotAt?, List.find?_isSome]
    exact ⟨g, hg, beq_iff_eq.mpr hindex⟩
  obtain ⟨hmem, hindex'⟩ := slotAt?_mem hg'
  rw [hg', hm.eq_of_index hmem hg (hindex'.trans hindex.symm)]

theorem IsParsed.global?_update (hm : m.IsParsed) {f : Global φ → Global φ}
    (hf : ∀ g, (f g).symbol = g.symbol) (hg : m.global? name = some g) (n : String) :
    (m.update g.symbol.index f).global? n = if n = name then some (f g) else m.global? n := by
  obtain ⟨hmem, hname⟩ := global?_mem hg
  have hfind : (m.update g.symbol.index f).global? n = (m.global? n).map fun g' =>
      if g'.symbol.index == g.symbol.index then f g' else g' := by
    rw [global?, update, List.find?_map, global?]
    congr 2
    funext g'
    simp only [Function.comp]
    split
    · rw [hf]
    · rfl
  rw [hfind]
  split
  · rename_i heq
    rw [heq, hg]
    simp
  · rename_i hne
    cases hn : m.global? n with
    | none => rfl
    | some g' =>
      obtain ⟨hmem', hname'⟩ := global?_mem hn
      rw [Option.map_some, if_neg]
      rw [beq_iff_eq]
      intro hindex
      rw [hm.eq_of_index hmem' hmem hindex, hname] at hname'
      exact hne hname'.symm

theorem IsParsed.global?_write (hm : m.IsParsed) (hg : m.global? name = some g) (slot : Slot φ)
    (n : String) : (m.write g.symbol.index slot).global? n =
      if n = name then some { g with slot := slot } else m.global? n :=
  hm.global?_update (f := fun g => { g with slot := slot }) (fun _ => rfl) hg n

theorem IsParsed.global?_setExtern (hm : m.IsParsed) (h : m.setExtern name v = .ok m')
    (n : String) : m'.global? n = if n = name then
      (m.global? name).map fun g => { g with slot := .value v } else m.global? n := by
  obtain ⟨g, hg, -, rfl⟩ := setExtern_eq_ok h
  rw [hg]
  exact hm.global?_write hg _ n

theorem IsParsed.global?_subscribe (hm : m.IsParsed) (h : m.subscribe name = .ok m')
    (n : String) : m'.global? n = if n = name then
      (m.global? name).map fun g => { g with observed := true } else m.global? n := by
  obtain ⟨g, hg, -, rfl⟩ := subscribe_eq_ok h
  rw [hg]
  exact hm.global?_update (f := fun g => { g with observed := true }) (fun _ => rfl) hg n

theorem IsParsed.global?_loadEntry (hm : m.IsParsed) (name : String) (j : Json) :
    (∀ n, (m.loadEntry name j).1.global? n = m.global? n) ∨
      ∃ v, ∀ n, (m.loadEntry name j).1.global? n = if n = name then
        (m.global? name).map fun g => { g with slot := .value v } else m.global? n := by
  rcases loadEntry_cases m name j with heq | ⟨e, heq⟩ | ⟨g, v, hg, -, heq⟩ <;> rw [heq]
  · exact .inl fun n => rfl
  · exact .inl fun n => rfl
  · refine .inr ⟨v, fun n => ?_⟩
    rw [hg]
    exact hm.global?_write hg _ n

end Dialogue.Machine
