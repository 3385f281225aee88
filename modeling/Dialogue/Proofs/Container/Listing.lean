import Dialogue.Proofs.Container.Decoding
import Dialogue.Proofs.Container.Tables
import Mathlib.Data.List.Nodup

/-!
The listing of the code. All instructions are in it, with the names of boughs between them as
labels. Where several boughs share an entry, the first in the table is named and the others are
not, and neither are boughs at the end of the code.
-/

namespace Dialogue

def Bough.label (b : Bough) : String := b.name ++ ":"

namespace Instruction

theorem diagnostic_eq (i : Instruction) :
    i.diagnostic = "End" ∨ ∃ s, i.diagnostic = s ++ " \x7d" := by
  cases i with
  | stop => exact .inl rfl
  | line | choices | jump | jumpIfFalse | set | call => exact .inr ⟨_, rfl⟩

end Instruction

namespace Container

def stepLine (step : Nat × Instruction) : String :=
  "  " ++ Text.alignRight 6 (toString step.1) ++ "  " ++ step.2.diagnostic

def linesOf (c : Container) (steps : List (Nat × Instruction)) : List String :=
  steps.flatMap fun (ip, i) => c.instructionLines ip i

/-- The first bough of the table that has its entry. -/
def Leads (c : Container) (b : Bough) : Prop :=
  ∃ before after, c.boughs = before ++ b :: after ∧ ∀ a ∈ before, a.entry ≠ b.entry

variable {c : Container} {b : Bough} {steps : List (Nat × Instruction)}

theorem endsWith_label (b : Bough) : b.label.endsWith ':' = true :=
  String.endsWith_char_iff_exists_append.mpr ⟨b.name, rfl⟩

theorem endsWith_stepLine (step : Nat × Instruction) : (stepLine step).endsWith ':' = false := by
  rw [String.endsWith_char_eq_getLast?, stepLine, String.toList_append, List.getLast?_append]
  obtain h | ⟨s, h⟩ := step.2.diagnostic_eq
  · rw [h]
    rfl
  · rw [h, String.toList_append, List.getLast?_append]
    rfl

theorem label_ne_stepLine (b : Bough) (step : Nat × Instruction) : b.label ≠ stepLine step := by
  intro h
  have hcolon := endsWith_label b
  rw [h, endsWith_stepLine] at hcolon
  cases hcolon

theorem label_inj {a : Bough} : a.label = b.label ↔ a.name = b.name :=
  String.append_left_inj _

theorem find?_entry_iff {ip : Nat} :
    c.boughs.find? (fun a => a.entry.toNat == ip) = some b ↔ b.entry.toNat = ip ∧ c.Leads b := by
  rw [List.find?_eq_some_iff_append, beq_iff_eq]
  apply and_congr_right
  rintro rfl
  simp [Leads, UInt32.toNat_inj]

theorem instructionLines_of_some {ip : Nat} {i : Instruction}
    (h : c.boughs.find? (fun a => a.entry.toNat == ip) = some b) :
    c.instructionLines ip i = [b.label, stepLine (ip, i)] := by
  rw [instructionLines, h]
  rfl

theorem instructionLines_of_none {ip : Nat} {i : Instruction}
    (h : c.boughs.find? (fun a => a.entry.toNat == ip) = none) :
    c.instructionLines ip i = [stepLine (ip, i)] := by
  rw [instructionLines, h]
  rfl

theorem linesOf_cons (step : Nat × Instruction) (steps : List (Nat × Instruction)) :
    c.linesOf (step :: steps) = c.instructionLines step.1 step.2 ++ c.linesOf steps := rfl

theorem linesOf_append (s t : List (Nat × Instruction)) :
    c.linesOf (s ++ t) = c.linesOf s ++ c.linesOf t := List.flatMap_append

theorem mem_linesOf {line : String} (h : line ∈ c.linesOf steps) :
    (∃ step ∈ steps, line = stepLine step) ∨
      ∃ b, c.Leads b ∧ b.entry.toNat ∈ steps.map (·.1) ∧ line = b.label := by
  obtain ⟨⟨ip, i⟩, hstep, hline⟩ := List.mem_flatMap.mp h
  cases hfind : c.boughs.find? (fun a => a.entry.toNat == ip) with
  | none =>
    dsimp only at hline
    rw [instructionLines_of_none hfind, List.mem_singleton] at hline
    exact .inl ⟨_, hstep, hline⟩
  | some b =>
    dsimp only at hline
    rw [instructionLines_of_some hfind, List.mem_pair] at hline
    obtain ⟨rfl, hleads⟩ := find?_entry_iff.mp hfind
    rcases hline with hline | hline
    · exact .inr ⟨b, hleads, List.mem_map_of_mem hstep, hline⟩
    · exact .inl ⟨_, hstep, hline⟩

theorem filter_linesOf (c : Container) (steps : List (Nat × Instruction)) :
    (c.linesOf steps).filter (fun line => !line.endsWith ':') = steps.map stepLine := by
  induction steps with
  | nil => rfl
  | cons step steps ih =>
    have hline : (c.instructionLines step.1 step.2).filter (fun line => !line.endsWith ':') =
        [stepLine step] := by
      cases hfind : c.boughs.find? (fun a => a.entry.toNat == step.1) with
      | none => simp [instructionLines_of_none hfind, endsWith_stepLine]
      | some b => simp [instructionLines_of_some hfind, endsWith_stepLine, endsWith_label]
    rw [linesOf_cons, List.filter_append, hline, ih]
    rfl

theorem mem_boughs (h : c.Leads b) : b ∈ c.boughs := by
  obtain ⟨before, after, hboughs, -⟩ := h
  rw [hboughs]
  exact List.mem_append_cons_self

theorem label_mem_linesOf_iff (hnames : (c.boughs.map (·.name)).Nodup) (hb : b ∈ c.boughs) :
    b.label ∈ c.linesOf steps ↔ c.Leads b ∧ b.entry.toNat ∈ steps.map (·.1) := by
  constructor
  · intro h
    obtain ⟨step, -, hline⟩ | ⟨a, ha, hentry, hline⟩ := mem_linesOf h
    · exact absurd hline (label_ne_stepLine b step)
    · obtain rfl : b = a :=
        List.inj_on_of_nodup_map hnames hb (mem_boughs ha) (label_inj.mp hline)
      exact ⟨ha, hentry⟩
  · rintro ⟨hleads, hentry⟩
    obtain ⟨⟨ip, i⟩, hstep, hip⟩ := List.mem_map.mp hentry
    apply List.mem_flatMap.mpr
    refine ⟨_, hstep, ?_⟩
    dsimp only at hip ⊢
    rw [instructionLines_of_some (find?_entry_iff.mpr ⟨hip.symm, hleads⟩)]
    exact List.mem_cons_self ..

theorem linesOf_eq (hnames : (c.boughs.map (·.name)).Nodup) (hoffsets : (steps.map (·.1)).Nodup)
    (hleads : c.Leads b) {i : Instruction} (hstep : (b.entry.toNat, i) ∈ steps) :
    ∃ before after,
      c.linesOf steps = before ++ [b.label, stepLine (b.entry.toNat, i)] ++ after ∧
        b.label ∉ before ∧ b.label ∉ after := by
  obtain ⟨s, t, rfl⟩ := List.append_of_mem hstep
  rw [List.map_append, List.map_cons, List.nodup_append, List.nodup_cons] at hoffsets
  obtain ⟨-, ⟨ht, -⟩, hs⟩ := hoffsets
  refine ⟨c.linesOf s, c.linesOf t, ?_, ?_, ?_⟩
  · rw [linesOf_append, linesOf_cons, List.append_assoc,
      instructionLines_of_some (find?_entry_iff.mpr ⟨rfl, hleads⟩)]
  · rw [label_mem_linesOf_iff hnames (mem_boughs hleads)]
    rintro ⟨-, hentry⟩
    exact hs _ hentry _ (List.mem_cons_self ..) rfl
  · rw [label_mem_linesOf_iff hnames (mem_boughs hleads)]
    rintro ⟨-, hentry⟩
    exact ht hentry

theorem count_label_linesOf (hnames : (c.boughs.map (·.name)).Nodup)
    (hoffsets : (steps.map (·.1)).Nodup) (hb : b ∈ c.boughs) :
    (c.linesOf steps).count b.label ≤ 1 := by
  by_cases h : b.label ∈ c.linesOf steps
  · obtain ⟨hleads, hentry⟩ := (label_mem_linesOf_iff hnames hb).mp h
    obtain ⟨⟨ip, i⟩, hstep, hip⟩ := List.mem_map.mp hentry
    obtain rfl : ip = b.entry.toNat := hip
    obtain ⟨before, after, hlines, hbefore, hafter⟩ := linesOf_eq hnames hoffsets hleads hstep
    rw [hlines, List.count_append, List.count_append, List.count_eq_zero_of_not_mem hbefore,
      List.count_eq_zero_of_not_mem hafter, List.count_cons_self,
      List.count_cons_of_ne (label_ne_stepLine b _).symm, List.count_nil]
  · rw [List.count_eq_zero_of_not_mem h]
    exact Nat.zero_le _

theorem Listed.offsets {ip stop : Nat} (h : c.Listed ip steps stop) (hstop : stop = c.code.size) :
    (∀ offset ∈ steps.map (·.1), ip ≤ offset) ∧ (steps.map (·.1)).Nodup := by
  induction h with
  | nil ip => exact ⟨nofun, .nil⟩
  | @cons ip next stop i steps hi hsteps ih =>
    have hsize : stop < UInt32.size := (Listed.cons hi hsteps).stop_lt.resolve_left nofun
    have hnext : ip < next := Instruction.lt_next_of_decode (hstop ▸ hsize) hi
    obtain ⟨hle, hnodup⟩ := ih hstop
    rw [List.map_cons, List.nodup_cons, List.forall_mem_cons]
    refine ⟨⟨le_rfl, fun offset hoffset => ?_⟩, fun hip => ?_, hnodup⟩
    · exact Nat.le_trans (Nat.le_of_lt hnext) (hle offset hoffset)
    · exact absurd (hle ip hip) (Nat.not_le_of_lt hnext)

theorem leads_iff_nodup (hnames : (c.boughs.map (·.name)).Nodup) :
    (∀ b ∈ c.boughs, c.Leads b) ↔ (c.boughs.map (·.entry)).Nodup := by
  constructor
  · intro h
    apply hnames.of_map.map_on
    intro a ha b hb hentry
    have hfind := find?_entry_iff.mpr ⟨congrArg UInt32.toNat hentry, h a ha⟩
    rw [find?_entry_iff.mpr ⟨rfl, h b hb⟩] at hfind
    exact (Option.some.inj hfind).symm
  · intro h b hb
    obtain ⟨before, after, hboughs⟩ := List.append_of_mem hb
    refine ⟨before, after, hboughs, fun a ha hentry => ?_⟩
    rw [hboughs, List.map_append, List.nodup_append] at h
    exact h.2.2 _ (List.mem_map_of_mem ha) _ (List.mem_cons_self ..) hentry

end Container

end Dialogue
