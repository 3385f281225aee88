import Dialogue.Container.Builder
import Dialogue.Proofs.Container.Tables

namespace Dialogue

namespace Builder

theorem patch_length {code bytes : List UInt8} {place : Nat}
    (h : place + bytes.length ≤ code.length) : (patch code place bytes).length = code.length := by
  simp only [patch, List.length_append, List.length_take, List.length_drop]
  omega

theorem patch_append {code bytes : List UInt8} {place : Nat}
    (h : place + bytes.length ≤ code.length) (tail : List UInt8) :
    patch (code ++ tail) place bytes = patch code place bytes ++ tail := by
  unfold patch
  rw [List.take_append_of_le_length (by omega), List.drop_append_of_le_length h]
  simp only [List.append_assoc]

theorem patch_room (code : List UInt8) {bytes : List UInt8} (h : bytes.length = 4) :
    patch (code ++ [0, 0, 0, 0]) code.length bytes = code ++ bytes := by
  unfold patch
  rw [List.take_left, List.drop_of_length_le, List.append_nil]
  rw [List.length_append, h]
  exact Nat.le_refl _

variable {labels : List (Option Nat)}

theorem linked_append_code {code : List UInt8} {fixups : List (Nat × Nat)}
    (h : ∀ f ∈ fixups, f.1 + 4 ≤ code.length) (tail : List UInt8) :
    linked labels (code ++ tail) fixups = (linked labels code fixups).map (· ++ tail) := by
  induction fixups generalizing code with
  | nil => rfl
  | cons f fixups ih =>
    obtain ⟨place, label⟩ := f
    obtain ⟨hf, hfixups⟩ := List.forall_mem_cons.1 h
    rw [linked, linked]
    cases (labels[label]?).join with
    | none => rfl
    | some target =>
      have hroom : place + (littleEndian 4 target).length ≤ code.length := by
        rwa [littleEndian_length]
      simp only [patch_append hroom]
      apply ih
      rwa [patch_length hroom]

theorem length_of_linked {code code' : List UInt8} {fixups : List (Nat × Nat)}
    (h : ∀ f ∈ fixups, f.1 + 4 ≤ code.length) (hlinked : linked labels code fixups = .ok code') :
    code'.length = code.length := by
  induction fixups generalizing code with
  | nil =>
    cases hlinked
    rfl
  | cons f fixups ih =>
    obtain ⟨place, label⟩ := f
    obtain ⟨hf, hfixups⟩ := List.forall_mem_cons.1 h
    rw [linked] at hlinked
    split at hlinked
    · rename_i target _
      have hroom : place + (littleEndian 4 target).length ≤ code.length := by
        rwa [littleEndian_length]
      rw [ih (by rwa [patch_length hroom]) hlinked, patch_length hroom]
    · cases hlinked

theorem linked_append_fixups {code : List UInt8} {fixups rest : List (Nat × Nat)} :
    linked labels code (fixups ++ rest) =
      linked labels code fixups >>= fun code => linked labels code rest := by
  induction fixups generalizing code with
  | nil => rfl
  | cons f fixups ih =>
    rw [List.cons_append, linked, linked]
    cases (labels[f.2]?).join with
    | none => rfl
    | some target => exact ih

def resolved (b : Builder) (labels : List (Option Nat)) : Except FormatError (List UInt8) :=
  linked labels b.code b.fixups

def HasRoom (b : Builder) : Prop := ∀ f ∈ b.fixups, f.1 + 4 ≤ b.code.length

def operand (labels : List (Option Nat)) (label : Nat) : UInt32 :=
  ((labels[label]?).join.getD 0).toUInt32

structure Extends (b b' : Builder) (used : List Nat) (code : (Nat → UInt32) → List UInt8) :
    Prop where
  room : b.HasRoom → b'.HasRoom
  size (place : Nat → UInt32) : b'.code.length = b.code.length + (code place).length
  resolved {labels : List (Option Nat)} {e' : List UInt8} : b.HasRoom →
    b'.resolved labels = .ok e' → ∃ e, b.resolved labels = .ok e ∧
      e' = e ++ code (operand labels) ∧ ∀ label ∈ used, ∃ p, (labels[label]?).join = some p

namespace Extends

theorem refl {b b' : Builder} (hcode : b'.code = b.code) (hfixups : b'.fixups = b.fixups) :
    Extends b b' [] fun _ => [] := by
  have hroom : b'.HasRoom ↔ b.HasRoom := by rw [HasRoom, HasRoom, hcode, hfixups]
  refine ⟨hroom.2, fun _ => by rw [hcode]; rfl, ?_⟩
  intro labels e' _ he'
  rw [Builder.resolved, hcode, hfixups] at he'
  exact ⟨e', he', (List.append_nil _).symm, by simp⟩

theorem append (b : Builder) (bytes : List UInt8) :
    Extends b (b.append bytes) [] fun _ => bytes := by
  refine ⟨?_, ?_, ?_⟩
  · intro h f hf
    have := h f hf
    simp only [Builder.append, List.length_append]
    omega
  · intro place
    simp only [Builder.append, List.length_append]
  · intro labels e' h he'
    rw [Builder.resolved, Builder.append, linked_append_code h] at he'
    obtain ⟨e, he, rfl⟩ := Except.map_eq_ok_iff.1 he'
    exact ⟨e, he, rfl, by simp⟩

theorem placeholder (b : Builder) (label : Nat) :
    Extends b (b.placeholder label) [label] fun place => littleEndian 4 (place label).toNat := by
  refine ⟨?_, ?_, ?_⟩
  · intro h f hf
    simp only [Builder.placeholder, List.mem_append, List.mem_singleton] at hf
    simp only [Builder.placeholder, List.length_append, List.length_cons, List.length_nil]
    rcases hf with hf | rfl
    · have := h f hf
      omega
    · exact Nat.le_refl _
  · intro place
    simp only [Builder.placeholder, List.length_append, littleEndian_length]
    rfl
  · intro labels e' h he'
    rw [Builder.resolved, Builder.placeholder, linked_append_fixups] at he'
    obtain ⟨_, hcode, he'⟩ := Except.bind_eq_ok_iff.1 he'
    rw [linked_append_code h] at hcode
    obtain ⟨e, he, rfl⟩ := Except.map_eq_ok_iff.1 hcode
    rw [linked] at he'
    cases hp : (labels[label]?).join with
    | none =>
      rw [hp] at he'
      cases he'
    | some p =>
      rw [hp] at he'
      have hlen : b.code.length = e.length := (length_of_linked h he).symm
      have hword : (operand labels label).toNat = p % 256 ^ 4 := by
        rw [operand, hp]
        exact UInt32.toNat_ofNat'
      simp only [linked, hlen, patch_room e (littleEndian_length 4 p)] at he'
      refine ⟨e, he, ?_, fun l hl => ?_⟩
      · rw [hword, littleEndian_mod]
        exact (Except.ok.inj he').symm
      · exact ⟨p, List.mem_singleton.1 hl ▸ hp⟩

theorem trans {b b' b'' : Builder} {used used' : List Nat}
    {code code' : (Nat → UInt32) → List UInt8} (h : Extends b b' used code)
    (h' : Extends b' b'' used' code') :
    Extends b b'' (used ++ used') fun place => code place ++ code' place := by
  refine ⟨fun hroom => h'.room (h.room hroom), ?_, ?_⟩
  · intro place
    rw [h'.size place, h.size place, List.length_append, Nat.add_assoc]
  · intro labels e'' hroom he''
    obtain ⟨e', he', rfl, hused'⟩ := h'.resolved (h.room hroom) he''
    obtain ⟨e, he, rfl, hused⟩ := h.resolved hroom he'
    refine ⟨e, he, List.append_assoc _ _ _, fun label hlabel => ?_⟩
    rcases List.mem_append.1 hlabel with hlabel | hlabel
    · exact hused label hlabel
    · exact hused' label hlabel

end Extends

structure SameTables (b b' : Builder) : Prop where
  version : b'.version = b.version
  globals : b'.globals = b.globals
  boughs : b'.boughs = b.boughs
  labels : b'.labels = b.labels

theorem SameTables.trans {b b' b'' : Builder} (h : SameTables b b') (h' : SameTables b' b'') :
    SameTables b b'' :=
  ⟨h'.version.trans h.version, h'.globals.trans h.globals, h'.boughs.trans h.boughs,
    h'.labels.trans h.labels⟩

theorem sameTables_push (b : Builder) (i : Instruction) : SameTables b (b.push i) := by
  unfold push
  split <;> exact ⟨rfl, rfl, rfl, rfl⟩

theorem sameTables_appendOptions (b : Builder) (options : List (String × Nat)) :
    SameTables b (b.appendOptions options) := by
  induction options generalizing b with
  | nil => exact ⟨rfl, rfl, rfl, rfl⟩
  | cons option options ih =>
    rw [appendOptions]
    split
    · refine SameTables.trans ?_ (ih _)
      exact ⟨rfl, rfl, rfl, rfl⟩
    · exact ⟨rfl, rfl, rfl, rfl⟩

theorem error_fail_ne_none (b : Builder) (e : FormatError) : (b.fail e).error ≠ none := by
  unfold fail
  cases b.error <;> simp

theorem push_spec {b : Builder} {i : Instruction} (h : (b.push i).error = none) :
    b.error = none ∧ i.write = .ofBytes i.write.bytes ∧
      Extends b (b.push i) [] fun _ => i.write.bytes := by
  cases he : i.encode with
  | ok bytes =>
    have hpush : b.push i = b.append bytes := by rw [push, he]
    have hwrite := Instruction.encode_eq_ok_iff.1 he
    rw [hpush] at h ⊢
    rw [hwrite]
    exact ⟨h, rfl, .append b bytes⟩
  | error e =>
    rw [push, he] at h
    exact absurd h (error_fail_ne_none b e)

theorem appendOptions_spec {b : Builder} {options : List (String × Nat)}
    (h : (b.appendOptions options).error = none) : b.error = none ∧ ∃ code,
      (∀ place : Nat → UInt32, Writing.concat (options.map fun (content, label) =>
        Instruction.writeOption ⟨content, [], place label⟩) = .ofBytes (code place)) ∧
      Extends b (b.appendOptions options) (options.map (·.2)) code := by
  induction options generalizing b with
  | nil => exact ⟨h, fun _ => [], fun _ => rfl, .refl rfl rfl⟩
  | cons option options ih =>
    obtain ⟨content, label⟩ := option
    rw [appendOptions] at h ⊢
    cases hcontent : (Writing.sized 2 content).result with
    | error e =>
      rw [hcontent] at h
      exact absurd h (error_fail_ne_none b e)
    | ok bytes =>
      simp only [hcontent] at h ⊢
      rw [Writing.result_eq_ok_iff] at hcontent
      obtain ⟨herror, code, hcode, hrest⟩ := ih h
      refine ⟨herror, _, fun place => ?_,
        (Extends.append b (bytes ++ [0])).trans ((Extends.placeholder _ label).trans hrest)⟩
      change Writing.sized 2 content ++ (.ofBytes [0] ++ .word (place label)) ++
        Writing.concat (options.map _) = _
      rw [hcontent, hcode place]
      simp only [Writing.word, Writing.ofBytes_append, List.append_assoc]

theorem choices_spec {b : Builder} {options : List (String × Nat)}
    (h : (b.choices options).error = none) : b.error = none ∧ ∃ code,
      (∀ place : Nat → UInt32, (Instruction.choices (options.map fun (content, label) =>
        ⟨content, [], place label⟩)).write = .ofBytes (code place)) ∧
      Extends b (b.choices options) (options.map (·.2)) code := by
  unfold choices at h ⊢
  by_cases hlen : options.length < 256
  · rw [if_pos hlen] at h ⊢
    obtain ⟨herror, code, hcode, hextends⟩ := appendOptions_spec h
    refine ⟨herror, _, fun place => ?_, (Extends.append b _).trans hextends⟩
    simp only [Instruction.write, Instruction.writeOperands, List.map_map, List.length_map]
    rw [Writing.count, if_pos hlen]
    rw [← Writing.ofBytes_append, ← hcode place]
    rfl
  · rw [if_neg hlen] at h
    exact absurd h (error_fail_ne_none b _)

end Builder

end Dialogue
