import Dialogue.Container.Listing
import Dialogue.Proofs.Instruction

namespace Dialogue

namespace Container

/-- Instructions that stand one behind the other between two offsets of the code. -/
inductive Listed (c : Container) : Nat → List (Nat × Instruction) → Nat → Prop
  | nil (ip : Nat) : Listed c ip [] ip
  | cons {ip next stop : Nat} {i : Instruction} {steps : List (Nat × Instruction)} :
    c.instruction ip = .ok (i, next) → Listed c next steps stop →
      Listed c ip ((ip, i) :: steps) stop

/-- An offset where an instruction begins, or the end of the code. -/
def Boundary (c : Container) (ip : Nat) : Prop :=
  ip ∈ c.sweep.instructions.map (·.1) ∨ ip = c.code.size

variable {c : Container}

theorem Listed.stop_lt {ip stop : Nat} {steps : List (Nat × Instruction)}
    (h : c.Listed ip steps stop) : steps = [] ∨ stop < UInt32.size := by
  induction h with
  | nil ip => exact .inl rfl
  | @cons ip next stop i steps hi hsteps ih =>
    refine .inr (ih.elim ?_ id)
    rintro rfl
    cases hsteps
    exact Instruction.next_lt_of_decode hi

theorem sweepFrom_of_listed {ip stop count : Nat} {steps : List (Nat × Instruction)}
    (h : c.Listed ip steps stop) (hstop : stop = c.code.size) (hcount : stop ≤ ip + count) :
    c.sweepFrom count ip = ⟨steps, none⟩ := by
  induction h generalizing count with
  | nil ip =>
    cases count with
    | zero => rfl
    | succ count => rw [sweepFrom, if_pos (by omega)]
  | @cons ip next stop i steps hi hsteps ih =>
    have hsize : stop < UInt32.size := (Listed.cons hi hsteps).stop_lt.resolve_left nofun
    have hnext : ip < next := Instruction.lt_next_of_decode (hstop ▸ hsize) hi
    have hle : next ≤ c.code.size := Instruction.next_le_of_decode hi
    cases count with
    | zero => omega
    | succ count =>
      have hrest : c.sweepFrom count next = ⟨steps, none⟩ := ih hstop (by omega)
      rw [sweepFrom, if_neg (by omega), hi]
      simp only [hrest]

theorem sweep_of_listed {steps : List (Nat × Instruction)} (h : c.Listed 0 steps c.code.size) :
    c.sweep = ⟨steps, none⟩ :=
  sweepFrom_of_listed h rfl (Nat.le_add_left _ _)

def stepsFrom (ip : Nat) : List Instruction → List (Nat × Instruction)
  | [] => []
  | i :: is => (ip, i) :: stepsFrom (ip + i.write.bytes.length) is

theorem map_snd_stepsFrom (ip : Nat) (is : List Instruction) :
    (stepsFrom ip is).map (·.2) = is := by
  induction is generalizing ip with
  | nil => rfl
  | cons i is ih => rw [stepsFrom, List.map_cons, ih]

theorem stepsFrom_append (ip : Nat) (is js : List Instruction) :
    stepsFrom ip (is ++ js) =
      stepsFrom ip is ++ stepsFrom (ip + (is.flatMap (·.write.bytes)).length) js := by
  induction is generalizing ip with
  | nil => rfl
  | cons i is ih =>
    rw [List.cons_append, stepsFrom, stepsFrom, ih, List.flatMap_cons, List.length_append,
      List.cons_append, Nat.add_assoc]

def Encodable (i : Instruction) : Prop := i.write = .ofBytes i.write.bytes ∧ i.Storable

theorem listed_stepsFrom {is : List Instruction} {pre : List UInt8}
    (hsize : c.code.size < UInt32.size)
    (hcode : c.code.toList = pre ++ is.flatMap (·.write.bytes)) (h : ∀ i ∈ is, Encodable i) :
    c.Listed pre.length (stepsFrom pre.length is) c.code.size := by
  induction is generalizing pre with
  | nil =>
    have hend : pre.length = c.code.size := by
      rw [← Array.length_toList, hcode, List.flatMap_nil, List.append_nil]
    rw [hend]
    exact .nil _
  | cons i is ih =>
    obtain ⟨⟨hwrite, hi⟩, his⟩ := List.forall_mem_cons.1 h
    rw [List.flatMap_cons] at hcode
    have hstop : pre.length + i.write.bytes.length ≤ c.code.size := by
      rw [← Array.length_toList, hcode, List.length_append, List.length_append]
      omega
    have hstep : c.instruction pre.length = .ok (i, pre.length + i.write.bytes.length) := by
      apply Instruction.decode_eq_ok_iff.2
      refine ⟨hi, _, Instruction.encode_eq_ok_iff.2 hwrite, ?_, ?_⟩
      · rw [hcode, List.drop_left]
        exact List.prefix_append _ _
      · rw [Nat.mod_eq_of_lt (Nat.lt_of_le_of_lt hstop hsize)]
    have hrest := ih (by rw [hcode, List.append_assoc]) his
    rw [List.length_append] at hrest
    exact .cons hstep hrest

variable {is js : List Instruction}

theorem listed_of_encodings (hsize : c.code.size < UInt32.size)
    (hcode : c.code.toList = is.flatMap (·.write.bytes)) (h : ∀ i ∈ is, Encodable i) :
    c.Listed 0 (stepsFrom 0 is) c.code.size :=
  listed_stepsFrom hsize (show c.code.toList = [] ++ _ from hcode) h

theorem sweep_of_encodings (hsize : c.code.size < UInt32.size)
    (hcode : c.code.toList = is.flatMap (·.write.bytes)) (h : ∀ i ∈ is, Encodable i) :
    c.sweep = ⟨stepsFrom 0 is, none⟩ :=
  sweep_of_listed (listed_of_encodings hsize hcode h)

theorem boundary_of_append (hsize : c.code.size < UInt32.size)
    (hcode : c.code.toList = (is ++ js).flatMap (·.write.bytes))
    (h : ∀ i ∈ is ++ js, Encodable i) : c.Boundary (is.flatMap (·.write.bytes)).length := by
  cases js with
  | nil =>
    right
    rw [← Array.length_toList, hcode, List.append_nil]
  | cons j js =>
    left
    rw [sweep_of_encodings hsize hcode h, stepsFrom_append, List.map_append, List.mem_append, stepsFrom,
      List.map_cons, Nat.zero_add]
    exact .inr (List.mem_cons_self ..)

end Container

end Dialogue
