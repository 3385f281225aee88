import Dialogue.Instruction
import Dialogue.Proofs.Wire

/-!
The binary form of instructions. An instruction is decoded exactly where its encoding stands, unless
it embeds a value outside of the format or names the destination that means none.
-/

namespace Dialogue

namespace Writing

@[simp] theorem ofBytes_inj {e f : List UInt8} : ofBytes e = ofBytes f ↔ e = f := by
  simp [ofBytes]

@[simp] theorem ofBytes_append (e f : List UInt8) : ofBytes e ++ ofBytes f = ofBytes (e ++ f) := rfl

theorem eq_ofBytes_iff {w : Writing} {e : List UInt8} :
    w = ofBytes e ↔ w.error = none ∧ e = w.bytes := by
  obtain ⟨bytes, error⟩ := w
  simp only [ofBytes, mk.injEq]
  tauto

theorem result_eq_ok_iff {w : Writing} {e : List UInt8} :
    w.result = .ok e ↔ w = ofBytes e := by
  obtain ⟨bytes, _ | error⟩ := w <;> simp [result, ofBytes]

theorem append_eq_ofBytes_iff {w v : Writing} {e : List UInt8} :
    w ++ v = ofBytes e ↔ ∃ e₁ e₂, w = ofBytes e₁ ∧ v = ofBytes e₂ ∧ e = e₁ ++ e₂ := by
  obtain ⟨bytes, _ | error⟩ := w
  · obtain ⟨bytes', error'⟩ := v
    change (⟨bytes ++ bytes', error'⟩ : Writing) = _ ↔ _
    simp only [ofBytes, mk.injEq, and_true]
    constructor
    · rintro ⟨rfl, rfl⟩
      exact ⟨_, _, rfl, ⟨rfl, rfl⟩, rfl⟩
    · rintro ⟨_, _, rfl, ⟨rfl, rfl⟩, rfl⟩
      exact ⟨rfl, rfl⟩
  · change (⟨bytes, some error⟩ : Writing) = _ ↔ _
    simp [ofBytes]

theorem concat_map_eq_ofBytes_iff {α : Type} {write : α → Writing} {xs : List α}
    {e : List UInt8} : concat (xs.map write) = ofBytes e ↔
      e = xs.flatMap (fun x => (write x).bytes) ∧ ∀ x ∈ xs, (write x).error = none := by
  induction xs generalizing e with
  | nil => simp [concat, empty, ofBytes, eq_comm]
  | cons x xs ih =>
    change write x ++ concat (xs.map write) = _ ↔ _
    rw [append_eq_ofBytes_iff, List.flatMap_cons, List.forall_mem_cons]
    simp only [ih, eq_ofBytes_iff (w := write x)]
    constructor
    · rintro ⟨_, _, ⟨hx, rfl⟩, ⟨rfl, hxs⟩, rfl⟩
      exact ⟨rfl, hx, hxs⟩
    · rintro ⟨rfl, hx, hxs⟩
      exact ⟨_, _, ⟨hx, rfl⟩, ⟨rfl, hxs⟩, rfl⟩

theorem sized_eq_ofBytes_iff {width : Nat} {s : String} {e : List UInt8} :
    sized width s = ofBytes e ↔
      s.utf8ByteSize < 256 ^ width ∧ e = littleEndian width s.utf8ByteSize ++ utf8 s := by
  unfold sized
  by_cases h : s.utf8ByteSize < Nat.pow 256 width
  · rw [if_pos h, ofBytes_inj]
    exact ⟨fun he => ⟨h, he.symm⟩, fun he => he.2.symm⟩
  · rw [if_neg h]
    exact ⟨fun he => by simp [failed, ofBytes] at he, fun he => absurd he.1 h⟩

theorem count_eq_ofBytes_iff {n : Nat} {e : List UInt8} :
    count n = ofBytes e ↔ n < 256 ∧ e = [n.toUInt8] := by
  unfold count
  by_cases h : n < 256
  · rw [if_pos h, ofBytes_inj]
    exact ⟨fun he => ⟨h, he.symm⟩, fun he => he.2.symm⟩
  · rw [if_neg h]
    exact ⟨fun he => by simp [failed, ofBytes] at he, fun he => absurd he.1 h⟩

end Writing

theorem Opcode.toByte_of_ofByte? {byte : UInt8} {code : Opcode} (h : ofByte? byte = some code) :
    code.toByte = byte := by
  have := List.find?_some h
  simpa using this

theorem Section.seek_eq_ok_iff {part : Section} {q : Nat} {c d : Cursor} :
    part.read (Read.seek q) c = .ok () d ↔ q ≤ c.bytes.size ∧ d = ⟨c.bytes, q⟩ := by
  have hseek : Read.seek q c = if q ≤ c.bytes.size then .ok () ⟨c.bytes, q⟩
      else .error (.unexpectedEnd c.bytes.size (q - c.bytes.size)) c := by
    change (ite (q ≤ c.bytes.size) _ _ : Read Unit) c = _
    split <;> rfl
  rw [Section.read, hseek]
  by_cases h : q ≤ c.bytes.size <;> simp [h, eq_comm]

theorem Accepts.sized (width : Nat) :
    Accepts (do Read.string (← Read.word width)) fun s e => Writing.sized width s = .ofBytes e := by
  apply ((Accepts.word width).bind Accepts.string).congr
  intro s e
  rw [Writing.sized_eq_ofBytes_iff]
  constructor
  · rintro ⟨n, _, _, ⟨rfl, hn⟩, ⟨rfl, rfl⟩, rfl⟩
    exact ⟨hn, rfl⟩
  · rintro ⟨hs, rfl⟩
    exact ⟨_, _, _, ⟨rfl, hs⟩, ⟨rfl, rfl⟩, rfl⟩

theorem Accepts.readWord :
    Accepts Instruction.readWord fun w e => Writing.word w = .ofBytes e := by
  apply ((Accepts.word 4).map Nat.toUInt32).congr
  intro w e
  rw [Writing.word, Writing.ofBytes_inj]
  constructor
  · rintro ⟨n, ⟨rfl, hn⟩, rfl⟩
    rw [Nat.toUInt32, UInt32.toNat_ofNat_of_lt' hn]
  · rintro rfl
    exact ⟨w.toNat, ⟨rfl, w.toNat_lt⟩, (UInt32.ofNat_toNat).symm⟩

namespace Instruction

theorem accepts_counted {α : Type} {r : Read α} {write : α → Writing} {F : α → Prop}
    (hr : Accepts r fun x e => write x = .ofBytes e ∧ F x) :
    Accepts (do readMany r (← Read.u8).toNat) fun xs e =>
      .count xs.length ++ .concat (xs.map write) = Writing.ofBytes e ∧ ∀ x ∈ xs, F x := by
  have hcanonical : Accepts r fun x e => e = (write x).bytes ∧ (write x).error = none ∧ F x := by
    apply hr.congr
    intro x e
    rw [Writing.eq_ofBytes_iff]
    tauto
  have hmany (n : Nat) := hcanonical.many (f := readMany r) rfl (fun _ => rfl) n
  apply (Accepts.u8.bind fun byte => hmany byte.toNat).congr
  intro xs e
  simp only [Writing.append_eq_ofBytes_iff, Writing.count_eq_ofBytes_iff,
    Writing.concat_map_eq_ofBytes_iff]
  constructor
  · rintro ⟨byte, _, _, rfl, ⟨hlen, rfl, h⟩, rfl⟩
    refine ⟨⟨_, _, ⟨?_, rfl⟩, ⟨rfl, fun x hx => (h x hx).1⟩, ?_⟩, fun x hx => (h x hx).2⟩
    · rw [hlen]
      exact byte.toNat_lt
    · rw [hlen, Nat.toUInt8, UInt8.ofNat_toNat]
  · rintro ⟨⟨_, _, ⟨hlen, rfl⟩, ⟨rfl, herr⟩, rfl⟩, hF⟩
    refine ⟨_, _, _, rfl, ⟨?_, rfl, fun x hx => ⟨herr x hx, hF x hx⟩⟩, rfl⟩
    rw [Nat.toUInt8, UInt8.toNat_ofNat_of_lt' hlen]

theorem accepts_counted_bind {α β : Type} {r : Read α} {write : α → Writing} {F : α → Prop}
    {k : List α → Read β} {V : List α → β → List UInt8 → Prop}
    (hr : Accepts r fun x e => write x = .ofBytes e ∧ F x) (hk : ∀ xs, Accepts (k xs) (V xs)) :
    Accepts (do
      let count ← Read.u8
      let xs ← readMany r count.toNat
      k xs) fun y e => ∃ xs e₁ e₂,
        (.count xs.length ++ .concat (xs.map write) = Writing.ofBytes e₁ ∧ ∀ x ∈ xs, F x) ∧
          V xs y e₂ ∧ e = e₁ ++ e₂ := by
  have h := (accepts_counted hr).bind hk
  rwa [bind_assoc] at h

def Within : Instruction → Prop
  | .set _ v => v.Storable
  | .call _ args _ => ∀ v ∈ args, v.Storable
  | _ => True

def Storable : Instruction → Prop
  | .set _ v => v.Storable
  | .call _ args dest => (∀ v ∈ args, v.Storable) ∧ dest ≠ some discard
  | _ => True

theorem accepts_readTags : Accepts readTags fun tags e => writeTags tags = .ofBytes e := by
  have hstring : Accepts readString fun s e => Writing.sized 2 s = .ofBytes e ∧ True :=
    (Accepts.sized 2).congr fun s e => (and_iff_left trivial).symm
  exact (accepts_counted hstring).congr fun tags e => and_iff_left fun _ _ => trivial

theorem accepts_readOption : Accepts readOption fun o e => writeOption o = .ofBytes e := by
  apply ((Accepts.sized 2).bind fun content => accepts_readTags.bind fun tags =>
    Accepts.readWord.map fun target => ChoiceOption.mk content tags target).congr
  intro o e
  simp only [writeOption, Writing.append_eq_ofBytes_iff]
  constructor
  · rintro ⟨content, e₁, _, h₁, ⟨tags, e₂, e₃, h₂, ⟨target, h₃, rfl⟩, rfl⟩, rfl⟩
    exact ⟨e₁, _, h₁, ⟨e₂, e₃, h₂, h₃, rfl⟩, rfl⟩
  · rintro ⟨e₁, _, h₁, ⟨e₂, e₃, h₂, h₃, rfl⟩, rfl⟩
    exact ⟨_, e₁, _, h₁, ⟨_, e₂, e₃, h₂, ⟨_, h₃, rfl⟩, rfl⟩, rfl⟩

theorem concat_map_ofBytes (vs : List Value) :
    Writing.concat (vs.map fun v => .ofBytes (Wire.encode v)) = .ofBytes (Wire.encodeItems vs) := by
  rw [Writing.concat_map_eq_ofBytes_iff, Wire.encodeItems_eq_flatMap]
  exact ⟨rfl, fun _ _ => rfl⟩

theorem accepts_readOperands (code : Opcode) : Accepts (readOperands code) fun i e =>
    i.opcode = code ∧ i.writeOperands = .ofBytes e ∧ i.Storable := by
  cases code with
  | stop =>
    apply (Accepts.pure stop).congr
    intro i e
    constructor
    · rintro ⟨rfl, rfl⟩
      exact ⟨rfl, rfl, trivial⟩
    · rintro ⟨hcode, h, -⟩
      cases i <;> cases hcode
      exact ⟨rfl, (Writing.ofBytes_inj.1 h).symm⟩
  | line =>
    apply ((Accepts.sized 2).bind fun speaker => (Accepts.sized 2).bind fun content =>
      accepts_readTags.map fun tags => line speaker content tags).congr
    intro i e
    constructor
    · rintro ⟨speaker, e₁, _, h₁, ⟨content, e₂, e₃, h₂, ⟨tags, h₃, rfl⟩, rfl⟩, rfl⟩
      simp only [writeOperands, Writing.append_eq_ofBytes_iff]
      exact ⟨rfl, ⟨e₁, _, h₁, ⟨e₂, e₃, h₂, h₃, rfl⟩, rfl⟩, trivial⟩
    · rintro ⟨hcode, h, -⟩
      cases i <;> cases hcode
      simp only [writeOperands, Writing.append_eq_ofBytes_iff] at h
      obtain ⟨e₁, _, h₁, ⟨e₂, e₃, h₂, h₃, rfl⟩, rfl⟩ := h
      exact ⟨_, e₁, _, h₁, ⟨_, e₂, e₃, h₂, ⟨_, h₃, rfl⟩, rfl⟩, rfl⟩
  | choices =>
    have hoption : Accepts readOption fun o e => writeOption o = .ofBytes e ∧ True :=
      accepts_readOption.congr fun o e => (and_iff_left trivial).symm
    apply (accepts_counted_bind hoption fun options => Accepts.pure (choices options)).congr
    intro i e
    constructor
    · rintro ⟨options, e, _, ⟨h, -⟩, ⟨rfl, rfl⟩, rfl⟩
      rw [List.append_nil]
      exact ⟨rfl, h, trivial⟩
    · rintro ⟨hcode, h, -⟩
      cases i <;> cases hcode
      exact ⟨_, e, [], ⟨h, fun _ _ => trivial⟩, ⟨rfl, rfl⟩, (List.append_nil e).symm⟩
  | jump =>
    apply (Accepts.readWord.map jump).congr
    intro i e
    constructor
    · rintro ⟨target, h, rfl⟩
      exact ⟨rfl, h, trivial⟩
    · rintro ⟨hcode, h, -⟩
      cases i <;> cases hcode
      exact ⟨_, h, rfl⟩
  | jumpIfFalse =>
    apply (Accepts.readWord.bind fun global =>
      Accepts.readWord.map fun target => jumpIfFalse global target).congr
    intro i e
    constructor
    · rintro ⟨global, e₁, e₂, h₁, ⟨target, h₂, rfl⟩, rfl⟩
      exact ⟨rfl, Writing.append_eq_ofBytes_iff.2 ⟨e₁, e₂, h₁, h₂, rfl⟩, trivial⟩
    · rintro ⟨hcode, h, -⟩
      cases i <;> cases hcode
      obtain ⟨e₁, e₂, h₁, h₂, rfl⟩ := Writing.append_eq_ofBytes_iff.1 h
      exact ⟨_, e₁, e₂, h₁, ⟨_, h₂, rfl⟩, rfl⟩
  | set =>
    apply (Accepts.readWord.bind fun global => Wire.accepts_read.map fun v => set global v).congr
    intro i e
    constructor
    · rintro ⟨global, e₁, _, h₁, ⟨v, ⟨rfl, hv⟩, rfl⟩, rfl⟩
      exact ⟨rfl, Writing.append_eq_ofBytes_iff.2 ⟨e₁, _, h₁, rfl, rfl⟩, hv⟩
    · rintro ⟨hcode, h, hv⟩
      cases i <;> cases hcode
      obtain ⟨e₁, e₂, h₁, h₂, rfl⟩ := Writing.append_eq_ofBytes_iff.1 h
      exact ⟨_, e₁, e₂, h₁, ⟨_, ⟨(Writing.ofBytes_inj.1 h₂).symm, hv⟩, rfl⟩, rfl⟩
  | call =>
    have hvalue : Accepts Wire.read fun v e =>
        Writing.ofBytes (Wire.encode v) = .ofBytes e ∧ v.Storable :=
      Wire.accepts_read.congr fun v e => by rw [Writing.ofBytes_inj, eq_comm]
    apply (Accepts.readWord.bind fun function => accepts_counted_bind hvalue fun args =>
      Accepts.readWord.map fun dest =>
        call function args (if dest = discard then none else some dest)).congr
    intro i e
    simp only [concat_map_ofBytes]
    constructor
    · rintro ⟨function, e₁, _, h₁, ⟨args, e₂, e₃, ⟨h₂, hargs⟩, ⟨dest, h₃, rfl⟩, rfl⟩, rfl⟩
      have hdest : (if dest = discard then none else some dest).getD discard = dest := by
        split <;> simp_all
      have hsome : (if dest = discard then none else some dest) ≠ some discard := by
        split <;> simp_all
      refine ⟨rfl, ?_, hargs, hsome⟩
      obtain ⟨f₁, f₂, hcount, hitems, rfl⟩ := Writing.append_eq_ofBytes_iff.1 h₂
      simp only [writeOperands, Writing.append_eq_ofBytes_iff, hdest]
      exact ⟨e₁, _, h₁, ⟨f₁, _, hcount, ⟨f₂, e₃, hitems, h₃, rfl⟩, rfl⟩, by simp⟩
    · rintro ⟨hcode, h, hstorable⟩
      cases i <;> cases hcode
      rename_i function args dest
      obtain ⟨hargs, hdest⟩ := hstorable
      simp only [writeOperands, Writing.append_eq_ofBytes_iff] at h
      obtain ⟨e₁, _, h₁, ⟨f₁, _, hcount, ⟨f₂, e₃, hitems, h₃, rfl⟩, rfl⟩, rfl⟩ := h
      refine ⟨function, e₁, _, h₁, ⟨args, f₁ ++ f₂, e₃, ⟨?_, hargs⟩, ⟨_, h₃, ?_⟩, rfl⟩, by simp⟩
      · exact Writing.append_eq_ofBytes_iff.2 ⟨f₁, f₂, hcount, hitems, rfl⟩
      · cases dest with
        | none => rfl
        | some dest => simp_all

theorem accepts_readBehind (ip : Nat) : Accepts (do
    let byte ← Section.code.read Read.u8
    match Opcode.ofByte? byte with
    | some code => Section.code.read (readOperands code)
    | none => throw (.invalidOpcode byte ip) : FormatRead Instruction)
    fun i e => i.write = .ofBytes e ∧ i.Storable := by
  have hk (byte : UInt8) : Accepts (match Opcode.ofByte? byte with
      | some code => Section.code.read (readOperands code)
      | none => throw (FormatError.invalidOpcode byte ip) : FormatRead Instruction)
      fun i e => Opcode.ofByte? byte = some i.opcode ∧ i.writeOperands = .ofBytes e ∧
        i.Storable := by
    cases h : Opcode.ofByte? byte with
    | none => exact (Accepts.refuse (α := Instruction) _).congr fun i e => by simp
    | some code =>
      apply ((accepts_readOperands code).part .code).congr
      intro i e
      rw [Option.some.injEq, eq_comm (a := code)]
  apply ((Accepts.u8.part .code).bind hk).congr
  intro i e
  rw [write, Writing.append_eq_ofBytes_iff]
  constructor
  · rintro ⟨byte, _, e, rfl, ⟨hcode, h, hi⟩, rfl⟩
    refine ⟨⟨[byte], e, ?_, h, rfl⟩, hi⟩
    rw [Opcode.toByte_of_ofByte? hcode]
  · rintro ⟨⟨_, e, hcode, h, rfl⟩, hi⟩
    rw [Writing.ofBytes_inj] at hcode
    exact ⟨_, _, e, hcode.symm, ⟨Opcode.ofByte?_toByte _, h, hi⟩, rfl⟩

theorem encode_eq_ok_iff {i : Instruction} {e : List UInt8} :
    i.encode = .ok e ↔ i.write = .ofBytes e :=
  Writing.result_eq_ok_iff

theorem length_pos_of_encode {i : Instruction} {e : List UInt8} (h : i.encode = .ok e) :
    0 < e.length := by
  rw [encode_eq_ok_iff, write, Writing.append_eq_ofBytes_iff] at h
  obtain ⟨e₁, e₂, h₁, -, rfl⟩ := h
  rw [← Writing.ofBytes_inj.1 h₁]
  simp

theorem decode_eq_ok_iff_read {code : Bytes} {ip next : Nat} {i : Instruction} :
    decode code ip = .ok (i, next) ↔
      ∃ c, read ip (.start code) = .ok i c ∧ c.position % UInt32.size = next := by
  unfold decode
  cases h : read ip (.start code) <;> simp

theorem decode_eq_ok_iff {code : Bytes} {ip next : Nat} {i : Instruction} :
    decode code ip = .ok (i, next) ↔ i.Storable ∧ ∃ e, i.encode = .ok e ∧
      e <+: code.toList.drop ip ∧ next = (ip + e.length) % UInt32.size := by
  rw [decode_eq_ok_iff_read]
  constructor
  · rintro ⟨c, h, rfl⟩
    obtain ⟨_, d, hseek, h⟩ := bind_eq_ok_iff.1 h
    obtain ⟨hip, rfl⟩ := Section.seek_eq_ok_iff.1 hseek
    obtain ⟨e, ⟨hi, hs⟩, he, rfl⟩ := (accepts_readBehind ip code ip hip i c).1 h
    exact ⟨hs, e, encode_eq_ok_iff.2 hi, he, rfl⟩
  · rintro ⟨hs, e, hi, he, rfl⟩
    have hpos := length_pos_of_encode hi
    have hip : ip ≤ code.size := by
      have hcode : code.toList.length = code.size := Array.length_toList
      have hle := he.length_le
      rw [List.length_drop] at hle
      omega
    refine ⟨⟨code, ip + e.length⟩, ?_, rfl⟩
    apply bind_eq_ok_iff.2
    refine ⟨(), _, Section.seek_eq_ok_iff.2 ⟨hip, rfl⟩, ?_⟩
    exact (accepts_readBehind ip).read ⟨encode_eq_ok_iff.1 hi, hs⟩ hip he

theorem decode_ends {code : Bytes} {ip next : Nat} {i : Instruction}
    (h : decode code ip = .ok (i, next)) :
    ∃ stop, ip < stop ∧ stop ≤ code.size ∧ next = stop % UInt32.size := by
  obtain ⟨-, e, he, hpre, rfl⟩ := decode_eq_ok_iff.1 h
  have hpos := length_pos_of_encode he
  have hle := hpre.length_le
  have hcode : code.toList.length = code.size := Array.length_toList
  rw [List.length_drop] at hle
  exact ⟨ip + e.length, by omega, by omega, rfl⟩

theorem next_le_of_decode {code : Bytes} {ip next : Nat} {i : Instruction}
    (h : decode code ip = .ok (i, next)) : next ≤ code.size := by
  obtain ⟨stop, -, hstop, rfl⟩ := decode_ends h
  exact Nat.le_trans (Nat.mod_le _ _) hstop

theorem next_lt_of_decode {code : Bytes} {ip next : Nat} {i : Instruction}
    (h : decode code ip = .ok (i, next)) : next < UInt32.size := by
  obtain ⟨stop, -, -, rfl⟩ := decode_ends h
  exact Nat.mod_lt _ (by decide)

theorem lt_next_of_decode {code : Bytes} {ip next : Nat} {i : Instruction}
    (hcode : code.size < UInt32.size) (h : decode code ip = .ok (i, next)) : ip < next := by
  obtain ⟨stop, hip, hstop, rfl⟩ := decode_ends h
  rwa [Nat.mod_eq_of_lt (Nat.lt_of_le_of_lt hstop hcode)]

def normal : Instruction → Instruction
  | .call function args (some dest) =>
    .call function args (if dest = discard then none else some dest)
  | i => i

theorem write_normal (i : Instruction) : i.normal.write = i.write := by
  unfold normal
  split
  · split
    · rename_i h
      rw [h]
      rfl
    · rfl
  · rfl

theorem storable_normal {i : Instruction} (h : i.Within) : i.normal.Storable := by
  cases i
  case call function args dest =>
    cases dest with
    | none => exact ⟨h, by simp⟩
    | some dest =>
      rw [normal]
      split
      · exact ⟨h, by simp⟩
      · exact ⟨h, by simpa⟩
  case set global v => exact h
  all_goals trivial

theorem normal_eq_self {i : Instruction}
    (h : ∀ function args, i ≠ .call function args (some discard)) : i.normal = i := by
  unfold normal
  split
  · rename_i function args dest
    rw [if_neg fun hdest => h function args (by rw [hdest])]
  · rfl

end Instruction

end Dialogue
