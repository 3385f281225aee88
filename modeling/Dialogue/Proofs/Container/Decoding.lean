import Dialogue.Proofs.Container.Sweep

namespace Dialogue

namespace Instruction

theorem storable_iff_within {i : Instruction} :
    i.Storable ↔ i.Within ∧ ∀ function args, i ≠ .call function args (some discard) := by
  cases i with
  | call function args dest =>
    constructor
    · rintro ⟨hargs, hdest⟩
      refine ⟨hargs, fun function' args' h => hdest ?_⟩
      rw [Instruction.call.injEq] at h
      exact h.2.2
    · rintro ⟨hargs, hdest⟩
      exact ⟨hargs, fun h => hdest function args (by rw [h])⟩
  | _ => simp [Storable, Within]

theorem prefix_drop_iff_extract {code : Bytes} {ip : Nat} {e : List UInt8} :
    e <+: code.toList.drop ip ↔ (code.extract ip (ip + e.length)).toList = e := by
  rw [List.prefix_iff_eq_take, Array.toList_extract, List.extract_eq_take_drop,
    Nat.add_sub_cancel_left, eq_comm]

theorem decode_eq_ok_iff_extract {code : Bytes} (hcode : code.size < UInt32.size) {ip next : Nat}
    {i : Instruction} :
    decode code ip = .ok (i, next) ↔
      (∃ e, i.encode = .ok e ∧ next = ip + e.length ∧ (code.extract ip next).toList = e) ∧
        i.Within ∧ ∀ function args, i ≠ .call function args (some discard) := by
  rw [decode_eq_ok_iff, storable_iff_within, and_comm]
  apply and_congr_left'
  have hword {e : List UInt8} (he : i.encode = .ok e) (hpre : e <+: code.toList.drop ip) :
      (ip + e.length) % UInt32.size = ip + e.length := by
    have hpos := length_pos_of_encode he
    have hle := hpre.length_le
    have hsize : code.toList.length = code.size := Array.length_toList
    rw [List.length_drop] at hle
    exact Nat.mod_eq_of_lt (by omega)
  constructor
  · rintro ⟨e, he, hpre, rfl⟩
    rw [hword he hpre]
    exact ⟨e, he, rfl, prefix_drop_iff_extract.1 hpre⟩
  · rintro ⟨e, he, rfl, hextract⟩
    have hpre : e <+: code.toList.drop ip := prefix_drop_iff_extract.2 hextract
    exact ⟨e, he, hpre, (hword he hpre).symm⟩

theorem wellFounded_decode {code : Bytes} (hcode : code.size < UInt32.size) :
    WellFounded fun q p => ∃ i, decode code p = .ok (i, q) := by
  apply Subrelation.wf (r := InvImage (· < ·) fun p => code.size - p)
  · rintro q p ⟨i, h⟩
    have hlt := lt_next_of_decode hcode h
    have hle := next_le_of_decode h
    change code.size - q < code.size - p
    omega
  · exact InvImage.wf _ Nat.lt_wfRel.wf

end Instruction

namespace Container

variable {c : Container}

theorem Listed.bounds (hcode : c.code.size < UInt32.size) {ip stop : Nat}
    {steps : List (Nat × Instruction)} (h : c.Listed ip steps stop) :
    ip + steps.length ≤ stop ∧ (steps = [] ∨ stop ≤ c.code.size) := by
  induction h with
  | nil ip => exact ⟨le_rfl, .inl rfl⟩
  | @cons ip next stop i steps hi hsteps ih =>
    have hlt := Instruction.lt_next_of_decode hcode hi
    rw [List.length_cons]
    refine ⟨by omega, .inr ?_⟩
    rcases ih.2 with rfl | hstop
    · cases hsteps
      exact Instruction.next_le_of_decode hi
    · exact hstop

def EndsAt (c : Container) (stop : Nat) : Option (Nat × FormatError) → Prop
  | none => c.code.size ≤ stop
  | some (ip, e) => ip = stop ∧ stop < c.code.size ∧ c.instruction stop = .error e

theorem sweepFrom_ends (hcode : c.code.size < UInt32.size) {ip count : Nat}
    (h : c.code.size ≤ ip + count) :
    ∃ stop, c.Listed ip (c.sweepFrom count ip).instructions stop ∧
      c.EndsAt stop (c.sweepFrom count ip).failure := by
  induction count generalizing ip with
  | zero => exact ⟨ip, .nil ip, h⟩
  | succ count ih =>
    rw [sweepFrom]
    by_cases hend : c.code.size ≤ ip
    · rw [if_pos hend]
      exact ⟨ip, .nil ip, hend⟩
    · rw [if_neg hend]
      cases hi : c.instruction ip with
      | error e => exact ⟨ip, .nil ip, rfl, Nat.lt_of_not_le hend, hi⟩
      | ok step =>
        obtain ⟨i, next⟩ := step
        have hlt := Instruction.lt_next_of_decode hcode hi
        obtain ⟨stop, hlisted, hstop⟩ := ih (show c.code.size ≤ next + count by omega)
        exact ⟨stop, .cons hi hlisted, hstop⟩

/-- An instruction is decoded exactly where it is encoded, unless it embeds a value outside of the
format or names the destination that means none. It ends behind its offset, so that no chain of
instructions goes on forever, and a sweep lists all up to the end of the code or to the first offset
where none stands. Offsets are words, hence the bound on the code. -/
theorem decoded_exactly_where_encoded (code : Bytes) (hcode : code.size < UInt32.size) (ip : Nat) :
    (∀ i next, Instruction.decode code ip = .ok (i, next) ↔
      (∃ e, i.encode = .ok e ∧ next = ip + e.length ∧ (code.extract ip next).toList = e) ∧
        i.Within ∧ ∀ function args, i ≠ .call function args (some discard)) ∧
    (∀ i next, Instruction.decode code ip = .ok (i, next) → ip < next ∧ next ≤ code.size) ∧
    (WellFounded fun q p => ∃ i, Instruction.decode code p = .ok (i, q)) ∧
    ∀ c : Container, c.code = code →
      (∀ steps stop, c.Listed ip steps stop → steps.length ≤ code.size - ip) ∧
      ∀ count, code.size ≤ ip + count → ∃ stop,
        c.Listed ip (c.sweepFrom count ip).instructions stop ∧
          c.EndsAt stop (c.sweepFrom count ip).failure := by
  refine ⟨fun i next => Instruction.decode_eq_ok_iff_extract hcode,
    fun i next h => ⟨Instruction.lt_next_of_decode hcode h, Instruction.next_le_of_decode h⟩,
    Instruction.wellFounded_decode hcode, ?_⟩
  rintro c rfl
  refine ⟨fun steps stop h => ?_, fun count => sweepFrom_ends hcode⟩
  obtain ⟨hlength, rfl | hstop⟩ := h.bounds hcode
  · exact Nat.zero_le _
  · omega

theorem decoded_leap : let code : Bytes := #[3, 5, 0, 0, 0, 0]
    code.size < UInt32.size ∧ Instruction.decode code 0 = .ok (.jump 5, 5) ∧
      Instruction.decode code 5 = .ok (.stop, 6) := by
  intro code
  have hcode : code.size < UInt32.size := by decide
  obtain ⟨hjump, -⟩ := decoded_exactly_where_encoded code hcode 0
  obtain ⟨hstop, -⟩ := decoded_exactly_where_encoded code hcode 5
  refine ⟨hcode, (hjump _ _).mpr ⟨⟨_, rfl, rfl, rfl⟩, trivial, nofun⟩,
    (hstop _ _).mpr ⟨⟨_, rfl, rfl, rfl⟩, trivial, nofun⟩⟩

end Container

end Dialogue
