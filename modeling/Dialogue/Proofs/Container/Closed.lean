import Dialogue.Proofs.Container.RoundTrip

namespace Dialogue

def Instruction.targets : Instruction → List UInt32
  | .choices options => options.map (·.target)
  | .jump target => [target]
  | .jumpIfFalse _ target => [target]
  | _ => []

namespace Container

structure Closed (c : Container) : Prop where
  zero : c.Boundary 0
  le_size {ip : Nat} : c.Boundary ip → ip ≤ c.code.size
  bough : ∀ b ∈ c.boughs, c.Boundary b.entry.toNat
  instruction {ip : Nat} : c.Boundary ip → ip < c.code.size →
    ∃ i next, c.instruction ip = .ok (i, next) ∧ c.Boundary next ∧
      ∀ t ∈ i.targets, c.Boundary t.toNat

variable {c : Container}

theorem Listed.start_mem {ip stop : Nat} {steps : List (Nat × Instruction)}
    (h : c.Listed ip steps stop) : ip ∈ steps.map (·.1) ∨ ip = stop := by
  cases h with
  | nil => exact .inr rfl
  | cons => exact .inl (by simp)

theorem Listed.of_mem {ip stop offset : Nat} {i : Instruction}
    {steps : List (Nat × Instruction)} (h : c.Listed ip steps stop) (hmem : (offset, i) ∈ steps) :
    ∃ next, c.instruction offset = .ok (i, next) ∧ (next ∈ steps.map (·.1) ∨ next = stop) := by
  induction h with
  | nil => cases hmem
  | @cons ip next stop j steps hj hsteps ih =>
    rcases List.mem_cons.1 hmem with hhead | hmem
    · cases hhead
      exact ⟨next, hj, hsteps.start_mem.imp_left fun hnext => List.mem_cons_of_mem _ hnext⟩
    · obtain ⟨after, hi, hafter⟩ := ih hmem
      exact ⟨after, hi, hafter.imp_left fun hafter => List.mem_cons_of_mem _ hafter⟩

variable {steps : List (Nat × Instruction)}

theorem boundary_iff_of_listed (h : c.Listed 0 steps c.code.size) {ip : Nat} :
    c.Boundary ip ↔ ip ∈ steps.map (·.1) ∨ ip = c.code.size := by
  rw [Boundary, sweep_of_listed h]

theorem closed_of_listed (h : c.Listed 0 steps c.code.size)
    (hbough : ∀ b ∈ c.boughs, c.Boundary b.entry.toNat)
    (htarget : ∀ s ∈ steps, ∀ t ∈ s.2.targets, c.Boundary t.toNat) : c.Closed := by
  have hmem {ip : Nat} (hip : ip ∈ steps.map (·.1)) : ∃ i next, (ip, i) ∈ steps ∧
      c.instruction ip = .ok (i, next) ∧ c.Boundary next := by
    obtain ⟨⟨_, i⟩, hs, rfl⟩ := List.mem_map.1 hip
    obtain ⟨next, hi, hnext⟩ := h.of_mem hs
    exact ⟨i, next, hs, hi, (boundary_iff_of_listed h).2 hnext⟩
  constructor
  · exact (boundary_iff_of_listed h).2 h.start_mem
  · intro ip hip
    rcases (boundary_iff_of_listed h).1 hip with hip | rfl
    · obtain ⟨i, next, -, hi, -⟩ := hmem hip
      have hsize : c.code.size < UInt32.size := h.stop_lt.resolve_left fun hsteps => by
        rw [hsteps] at hip
        cases hip
      exact Nat.le_of_lt (Nat.lt_of_lt_of_le (Instruction.lt_next_of_decode hsize hi)
        (Instruction.next_le_of_decode hi))
    · exact Nat.le_refl _
  · exact hbough
  · intro ip hip hlt
    rcases (boundary_iff_of_listed h).1 hip with hip | rfl
    · obtain ⟨i, next, hs, hi, hnext⟩ := hmem hip
      exact ⟨i, next, hi, hnext, htarget _ hs⟩
    · omega

end Container

namespace Builder

theorem Call.targets_instruction {place : Nat → UInt32} {call : Call} {i : Instruction}
    (h : call.instruction? place = some i) : i.targets = call.labels.map place := by
  cases call <;> cases h
  case choices options => simp [Instruction.targets, labels]
  all_goals rfl

theorem targets_normal (i : Instruction) : i.normal.targets = i.targets := by
  unfold Instruction.normal
  split <;> rfl

theorem closed_of_build {version : FormatVersion} {calls : List Call} {bytes : Bytes}
    {c : Container} (hwithin : ∀ call ∈ calls, call.Within)
    (hcode : (run version calls).code.length < UInt32.size) (hsize : bytes.size < UInt64.size)
    (hbuild : (run version calls).build = .ok bytes) (hparse : Container.parse bytes = .ok c) :
    c.Closed := by
  obtain ⟨⟨d, hread⟩, hlength, hwritten, hbound⟩ := read_of_build_run hbuild hsize
  obtain ⟨⟨d', hc⟩, -⟩ := Container.parse_eq_ok_iff.1 hparse
  rw [hread] at hc
  cases hc
  rw [hlength] at hcode
  have hwords : (assembled version calls bytes.size).code.size < UInt32.size := by
    rwa [size_assembled hwritten]
  have hlisted : (assembled version calls bytes.size).Listed 0
      (Container.stepsFrom 0 (decoded calls)) (assembled version calls bytes.size).code.size :=
    Container.listed_of_encodings hwords code_assembled
      fun i hi => encodable_decoded hwritten hwithin hi
  apply Container.closed_of_listed hlisted
  · exact fun b hb => boundary_of_mem_boughTable hwritten hwithin hcode hb
  · intro s hs t ht
    have hi : s.2 ∈ decoded calls := by
      rw [← Container.map_snd_stepsFrom 0 (decoded calls)]
      exact List.mem_map_of_mem hs
    obtain ⟨call, hcall, j, hj, hnormal⟩ := mem_decoded.1 hi
    rw [← hnormal, targets_normal, Call.targets_instruction hj] at ht
    obtain ⟨l, hl, rfl⟩ := List.mem_map.1 ht
    obtain ⟨p, hp⟩ := hbound call hcall l hl
    obtain ⟨hplace, hboundary⟩ := boundary_of_lastBound hwritten hwithin hcode hp
    rw [hplace]
    exact hboundary

end Builder

end Dialogue
