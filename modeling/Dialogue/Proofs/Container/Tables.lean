import Dialogue.Container.Builder
import Dialogue.Proofs.Instruction

namespace Dialogue

theorem Accepts.read_between {ε α : Type} {r : EStateM ε Cursor α} {W : α → List UInt8 → Prop}
    (hr : Accepts r W) {b : Bytes} {pre e post : List UInt8} {x : α}
    (h : b.toList = pre ++ (e ++ post)) (hW : W x e) :
    r ⟨b, pre.length⟩ = .ok x ⟨b, pre.length + e.length⟩ := by
  apply hr.read hW
  · rw [← Array.length_toList, h, List.length_append]
    omega
  · rw [h, List.drop_left]
    exact List.prefix_append e post

theorem Accepts.short : Accepts (do Read.string (← Read.u8).toNat)
    fun s e => Writing.sized 1 s = .ofBytes e := by
  apply (Accepts.u8.bind fun n => Accepts.string n.toNat).congr
  intro s e
  rw [Writing.sized_eq_ofBytes_iff]
  constructor
  · rintro ⟨n, _, _, rfl, ⟨rfl, hn⟩, rfl⟩
    refine ⟨hn ▸ n.toNat_lt, ?_⟩
    rw [hn, littleEndian, littleEndian, Nat.toUInt8, UInt8.ofNat_toNat]
  · rintro ⟨hs, rfl⟩
    exact ⟨s.utf8ByteSize.toUInt8, _, _, rfl, ⟨rfl, (UInt8.toNat_ofNat_of_lt' hs).symm⟩, rfl⟩

namespace Container

open Builder

theorem accepts_readFlag (name flag : String) :
    Accepts (readFlag name flag) fun x e => e = [if x then 1 else 0] := by
  refine Accepts.congr ((Accepts.u8.part .globalTable).bind
    (V := fun byte x e => byte = (if x then 1 else 0) ∧ e = []) fun byte => ?_) fun x e => ?_
  · split
    · exact (Accepts.pure false).congr fun x e => by cases x <;> simp
    · exact (Accepts.pure true).congr fun x e => by cases x <;> simp
    · rename_i h₀ h₁
      exact (Accepts.refuse (α := Bool) _).congr fun x e => by cases x <;> simp_all
  constructor
  · rintro ⟨_, _, _, rfl, ⟨rfl, rfl⟩, rfl⟩
    rfl
  · rintro rfl
    exact ⟨_, _, _, rfl, ⟨rfl, rfl⟩, rfl⟩

theorem accepts_readGlobal : Accepts readGlobal fun g e => writeGlobal g = .ofBytes e := by
  apply ((Accepts.short.part .globalTable).bind fun name =>
    (Accepts.readWord.part .globalTable).bind fun index =>
      (accepts_readFlag name "extern").bind fun isExtern =>
        (accepts_readFlag name "mutable").map fun isMutable =>
          GlobalSymbol.mk name index isExtern isMutable).congr
  intro g e
  simp only [writeGlobal, Writing.append_eq_ofBytes_iff]
  constructor
  · rintro ⟨name, e₁, _, h₁, ⟨index, e₂, _, h₂, ⟨x, _, _, rfl, ⟨y, rfl, rfl⟩, rfl⟩, rfl⟩, rfl⟩
    exact ⟨e₁, _, h₁, ⟨e₂, _, h₂, rfl, rfl⟩, rfl⟩
  · rintro ⟨e₁, _, h₁, ⟨e₂, _, h₂, h₃, rfl⟩, rfl⟩
    rw [Writing.ofBytes_inj] at h₃
    rw [← h₃]
    exact ⟨_, e₁, _, h₁, ⟨_, e₂, _, h₂, ⟨g.isExtern, _, _, rfl, ⟨g.isMutable, rfl, rfl⟩, rfl⟩, rfl⟩,
      rfl⟩

theorem accepts_readBough (version : FormatVersion) :
    Accepts (readBough version) fun b e => writeBough version b = .ofBytes e := by
  have h := (Accepts.sized (boughNameWidth version)).bind fun name =>
    Accepts.readWord.map fun entry => Bough.mk name entry
  rw [bind_assoc] at h
  apply h.congr
  intro b e
  rw [writeBough, Writing.append_eq_ofBytes_iff]
  constructor
  · rintro ⟨name, e₁, e₂, h₁, ⟨entry, h₂, rfl⟩, rfl⟩
    exact ⟨e₁, e₂, h₁, h₂, rfl⟩
  · rintro ⟨e₁, e₂, h₁, h₂, rfl⟩
    exact ⟨_, e₁, e₂, h₁, ⟨_, h₂, rfl⟩, rfl⟩

theorem accepts_readTable {α : Type} {read : FormatRead α} {write : α → Writing}
    (hr : Accepts read fun x e => write x = .ofBytes e) (part : Section) :
    Accepts (do readTable read (← part.read Read.u64)) fun xs e =>
      xs.length < UInt64.size ∧ writeTable write xs = .ofBytes e := by
  have hcanonical : Accepts read fun x e => e = (write x).bytes ∧ (write x).error = none :=
    hr.congr fun x e => by rw [Writing.eq_ofBytes_iff, and_comm]
  have hmany (n : Nat) := hcanonical.many (f := readTable read) rfl (fun _ => rfl) n
  apply (((Accepts.word 8).part part).bind hmany).congr
  intro xs e
  simp only [writeTable, Writing.append_eq_ofBytes_iff, Writing.ofBytes_inj,
    Writing.concat_map_eq_ofBytes_iff]
  constructor
  · rintro ⟨n, _, _, ⟨rfl, hn⟩, ⟨rfl, rfl, h⟩, rfl⟩
    exact ⟨hn, _, _, rfl, ⟨rfl, h⟩, rfl⟩
  · rintro ⟨hn, _, _, rfl, ⟨rfl, h⟩, rfl⟩
    exact ⟨_, _, _, ⟨rfl, hn⟩, ⟨rfl, rfl, h⟩, rfl⟩

theorem accepts_readGlobals : Accepts readGlobals fun gs e =>
    gs.length < UInt64.size ∧ writeTable writeGlobal gs = .ofBytes e :=
  accepts_readTable accepts_readGlobal .globalTable

theorem accepts_readBoughs (version : FormatVersion) : Accepts (readBoughs version) fun bs e =>
    bs.length < UInt64.size ∧ writeTable (writeBough version) bs = .ofBytes e :=
  accepts_readTable ((accepts_readBough version).part .boughTable) .boughTable

theorem readVersion_header {version : FormatVersion} {b : Bytes} {rest : List UInt8}
    (h : b.toList = magic ++ (littleEndian 2 version.toNat ++ (littleEndian 2 0 ++ rest))) :
    readVersion (.start b) = .ok version ⟨b, headerSize⟩ := by
  have hmagic : Section.header.read (Read.take 4) ⟨b, 0⟩ = .ok magic.toArray ⟨b, 4⟩ :=
    ((Accepts.take 4).part .header).read_between
      (show b.toList = [] ++ (magic ++ _) from h) ⟨rfl, rfl⟩
  have hnumber : Section.header.read Read.u16 ⟨b, 4⟩ = .ok version.toNat ⟨b, 6⟩ :=
    ((Accepts.word 2).part .header).read_between h ⟨rfl, by cases version <;> decide⟩
  have hreserved : Section.header.read Read.u16 ⟨b, 6⟩ = .ok 0 ⟨b, headerSize⟩ := by
    rw [← List.append_assoc] at h
    exact ((Accepts.word 2).part .header).read_between h ⟨rfl, by decide⟩
  unfold readVersion
  refine bind_eq_ok_iff.2 ⟨_, _, hmagic, ?_⟩
  simp only [ne_eq, not_true_eq_false, if_false]
  refine bind_eq_ok_iff.2 ⟨_, _, hnumber, ?_⟩
  cases version
  · exact bind_eq_ok_iff.2 ⟨_, _, hreserved, rfl⟩
  · exact bind_eq_ok_iff.2 ⟨_, _, hreserved, rfl⟩

theorem readOffset_between {part : Section} {b : Bytes} {pre post : List UInt8} {offset : Nat}
    (h : b.toList = pre ++ (littleEndian 8 offset ++ post)) (hlow : headerSize ≤ offset)
    (hhigh : offset ≤ b.size) (hb : b.size < UInt64.size) :
    readOffset part ⟨b, pre.length⟩ = .ok offset ⟨b, pre.length + 8⟩ := by
  have hread : Section.header.read Read.u64 ⟨b, pre.length⟩ = .ok offset ⟨b, pre.length + 8⟩ :=
    ((Accepts.word 8).part .header).read_between h ⟨rfl, Nat.lt_of_le_of_lt hhigh hb⟩
  refine bind_eq_ok_iff.2 ⟨offset, _, hread, ?_⟩
  change (ite (headerSize ≤ offset ∧ offset ≤ b.size) _ _ : FormatRead Nat) _ = _
  rw [if_pos ⟨hlow, hhigh⟩]
  rfl

variable {version : FormatVersion} {gs : List GlobalSymbol} {bs : List Bough}
variable {globals boughs code : List UInt8} {b : Bytes}

theorem length_pos_of_append_word {w : Writing} {n : UInt32} {e : List UInt8}
    (h : w ++ .word n = .ofBytes e) : 0 < e.length := by
  obtain ⟨e₁, e₂, -, h₂, rfl⟩ := Writing.append_eq_ofBytes_iff.1 h
  rw [← Writing.ofBytes_inj.1 h₂, List.length_append, littleEndian_length]
  omega

theorem length_pos_of_writeGlobal (g : GlobalSymbol) (e : List UInt8)
    (h : writeGlobal g = .ofBytes e) : 0 < e.length := by
  simp only [writeGlobal, Writing.append_eq_ofBytes_iff, Writing.ofBytes_inj] at h
  obtain ⟨e₁, _, -, ⟨e₂, _, -, rfl, rfl⟩, rfl⟩ := h
  simp only [List.length_append, List.length_cons]
  omega

theorem length_le_of_writeTable {α : Type} {write : α → Writing} {xs : List α} {e : List UInt8}
    (hpos : ∀ x e, write x = .ofBytes e → 0 < e.length)
    (h : writeTable write xs = .ofBytes e) : xs.length ≤ e.length := by
  simp only [writeTable, Writing.append_eq_ofBytes_iff, Writing.concat_map_eq_ofBytes_iff] at h
  obtain ⟨e₁, _, -, ⟨rfl, herr⟩, rfl⟩ := h
  have hlen := length_le_length_flatMap (n := 1) fun x hx =>
    hpos x _ (Writing.eq_ofBytes_iff.2 ⟨herr x hx, rfl⟩)
  rw [List.length_append]
  omega

theorem readOffset_header {rest : List UInt8} {i j k : Nat}
    (h : b.toList = magic ++ (littleEndian 2 2 ++ (littleEndian 2 0 ++
      (littleEndian 8 i ++ (littleEndian 8 j ++ (littleEndian 8 k ++ rest))))))
    (hlow : headerSize ≤ i ∧ i ≤ j ∧ j ≤ k) (hhigh : k ≤ b.size) (hb : b.size < UInt64.size) :
    readOffset .globalTable ⟨b, headerSize⟩ = .ok i ⟨b, headerSize + 8⟩ ∧
      readOffset .boughTable ⟨b, headerSize + 8⟩ = .ok j ⟨b, headerSize + 16⟩ ∧
      readOffset .code ⟨b, headerSize + 16⟩ = .ok k ⟨b, headerSize + 24⟩ := by
  let opening := magic ++ (littleEndian 2 2 ++ littleEndian 2 0)
  have hi : b.toList = opening ++ (littleEndian 8 i ++
      (littleEndian 8 j ++ (littleEndian 8 k ++ rest))) := by
    simp only [opening, h, List.append_assoc]
  have hj : b.toList = (opening ++ littleEndian 8 i) ++ (littleEndian 8 j ++
      (littleEndian 8 k ++ rest)) :=
    hi.trans (List.append_assoc _ _ _).symm
  have hk : b.toList = ((opening ++ littleEndian 8 i) ++ littleEndian 8 j) ++
      (littleEndian 8 k ++ rest) :=
    hj.trans (List.append_assoc _ _ _).symm
  refine ⟨readOffset_between hi ?_ ?_ hb, readOffset_between hj ?_ ?_ hb,
    readOffset_between hk ?_ ?_ hb⟩
  all_goals omega

theorem readTables_header (hgs : writeTable writeGlobal gs = .ofBytes globals)
    (hbs : writeTable (writeBough version) bs = .ofBytes boughs)
    (h : b.toList = header version globals.length boughs.length ++ (globals ++ (boughs ++ code)))
    (hb : b.size < UInt64.size) :
    readTables version ⟨b, headerSize⟩ = .ok (gs, bs) ⟨b, b.size - code.length⟩ := by
  have hsize : b.size = (header version globals.length boughs.length).length +
      (globals.length + (boughs.length + code.length)) := by
    rw [← Array.length_toList, h]
    simp only [List.length_append]
  have hgs_count := length_le_of_writeTable length_pos_of_writeGlobal hgs
  have hbs_count := length_le_of_writeTable (fun _ _ => length_pos_of_append_word) hbs
  have hglobals := accepts_readGlobals.read_between h ⟨by omega, hgs⟩
  have hboughs := (accepts_readBoughs version).read_between
    ((List.append_assoc _ _ _).symm ▸ h) ⟨by omega, hbs⟩
  rw [List.length_append] at hboughs
  -- One layout reads on behind its header, the other seeks the offsets that the header holds.
  cases version with
  | sequential =>
    have hend : headerSize + globals.length + boughs.length = b.size - code.length := by
      change b.size = headerSize + _ at hsize
      omega
    refine bind_eq_ok_iff.2 ⟨gs, _, hglobals, bind_eq_ok_iff.2 ⟨bs, _, hboughs, ?_⟩⟩
    rw [← hend]
    rfl
  | offset =>
    change b.size = headerSize + 24 + _ at hsize
    have hcode : headerSize + 24 + globals.length + boughs.length = b.size - code.length := by
      omega
    simp only [header, List.append_assoc] at h
    obtain ⟨hglobalsAt, hboughsAt, hcodeAt⟩ := readOffset_header h (by omega) (by omega) hb
    refine bind_eq_ok_iff.2 ⟨_, _, hglobalsAt, bind_eq_ok_iff.2 ⟨_, _, hboughsAt,
      bind_eq_ok_iff.2 ⟨_, _, hcodeAt, ?_⟩⟩⟩
    refine bind_eq_ok_iff.2 ⟨(), _, Section.seek_eq_ok_iff.2 ⟨show _ ≤ b.size by omega, rfl⟩, ?_⟩
    refine bind_eq_ok_iff.2 ⟨gs, _, hglobals, ?_⟩
    refine bind_eq_ok_iff.2 ⟨(), _, Section.seek_eq_ok_iff.2 ⟨show _ ≤ b.size by omega, rfl⟩, ?_⟩
    refine bind_eq_ok_iff.2 ⟨bs, _, hboughs, ?_⟩
    refine bind_eq_ok_iff.2 ⟨(), _, Section.seek_eq_ok_iff.2 ⟨show _ ≤ b.size by omega, rfl⟩, ?_⟩
    rw [← hcode]
    rfl

theorem read_header (hgs : writeTable writeGlobal gs = .ofBytes globals)
    (hbs : writeTable (writeBough version) bs = .ofBytes boughs)
    (h : b.toList = header version globals.length boughs.length ++ (globals ++ (boughs ++ code)))
    (hb : b.size < UInt64.size) :
    read (.start b) =
      .ok ⟨version, gs, bs, code.toArray, b.size⟩ ⟨b, b.size - code.length⟩ := by
  have hcode : b.extract (b.size - code.length) = code.toArray := by
    have hlayout : b.toList =
        (header version globals.length boughs.length ++ (globals ++ boughs)) ++ code := by
      simp only [h, List.append_assoc]
    have hsize : b.size = (header version globals.length boughs.length ++
        (globals ++ boughs)).length + code.length := by
      rw [← Array.length_toList, hlayout, List.length_append]
    apply Array.toList_inj.1
    rw [Array.toList_extract, List.extract_eq_take_drop, hsize, Nat.add_sub_cancel,
      Nat.add_sub_cancel_left, hlayout, List.drop_left, List.take_length]
  have hversion : readVersion (.start b) = .ok version ⟨b, headerSize⟩ := by
    simp only [header, List.append_assoc] at h
    exact readVersion_header h
  refine bind_eq_ok_iff.2 ⟨_, _, hversion, ?_⟩
  refine bind_eq_ok_iff.2 ⟨_, _, readTables_header hgs hbs h hb, ?_⟩
  rw [← hcode]
  rfl

theorem checkGlobals_eq_ok_iff {before gs : List GlobalSymbol} :
    checkGlobals before gs = .ok () ↔
      ((gs.map (·.name)).Nodup ∧ ∀ g ∈ gs, ∀ h ∈ before, h.name ≠ g.name) ∧
        (gs.map (·.index)).Nodup ∧ ∀ g ∈ gs, ∀ h ∈ before, h.index ≠ g.index := by
  induction gs generalizing before with
  | nil => simp [checkGlobals]
  | cons g gs ih =>
    rw [checkGlobals]
    by_cases hname : before.any fun h => h.name == g.name
    · rw [if_pos hname]
      simp only [List.any_eq_true, beq_iff_eq] at hname
      grind
    · rw [if_neg hname]
      by_cases hindex : before.any fun h => h.index == g.index
      · rw [if_pos hindex]
        simp only [List.any_eq_true, beq_iff_eq] at hindex
        grind
      · rw [if_neg hindex, ih]
        simp only [List.any_eq_true, beq_iff_eq, not_exists, not_and] at hname hindex
        simp only [List.map_cons, List.nodup_cons, List.mem_map, List.mem_cons]
        grind

theorem checkGlobals_append {before gs hs : List GlobalSymbol}
    (h : checkGlobals before gs = .ok ()) :
    checkGlobals before (gs ++ hs) = checkGlobals (gs.reverse ++ before) hs := by
  induction gs generalizing before with
  | nil => rfl
  | cons g gs ih =>
    rw [checkGlobals] at h
    split at h
    · cases h
    · rename_i hname
      split at h
      · cases h
      · rename_i hindex
        rw [List.cons_append, checkGlobals, if_neg hname, if_neg hindex, ih h, List.reverse_cons,
          List.append_assoc]
        rfl

theorem checkBoughs_eq_ok_iff {codeSize : Nat} {before bs : List Bough} :
    checkBoughs codeSize before bs = .ok () ↔
      ((bs.map (·.name)).Nodup ∧ ∀ b ∈ bs, ∀ a ∈ before, a.name ≠ b.name) ∧
        ∀ b ∈ bs, b.entry.toNat ≤ codeSize := by
  induction bs generalizing before with
  | nil => simp [checkBoughs]
  | cons b bs ih =>
    rw [checkBoughs]
    by_cases hentry : codeSize < b.entry.toNat
    · rw [if_pos hentry]
      grind
    · rw [if_neg hentry]
      by_cases hname : before.any fun a => a.name == b.name
      · rw [if_pos hname]
        simp only [List.any_eq_true, beq_iff_eq] at hname
        grind
      · rw [if_neg hname, ih]
        simp only [List.any_eq_true, beq_iff_eq, not_exists, not_and] at hname
        simp only [List.map_cons, List.nodup_cons, List.mem_map, List.mem_cons]
        grind

theorem parse_eq_ok_iff {bytes : Bytes} {c : Container} :
    parse bytes = .ok c ↔ (∃ d, read (.start bytes) = .ok c d) ∧
      checkGlobals [] c.globals = .ok () ∧ checkBoughs c.code.size [] c.boughs = .ok () := by
  unfold parse
  cases h : read (.start bytes) with
  | error e d => simp
  | ok c' d =>
    simp only [Except.bind_eq_ok_iff, EStateM.Result.ok.injEq]
    constructor
    · rintro ⟨_, hglobals, _, hboughs, ⟨⟩⟩
      exact ⟨⟨d, rfl, rfl⟩, hglobals, hboughs⟩
    · rintro ⟨⟨_, rfl, -⟩, hglobals, hboughs⟩
      exact ⟨(), hglobals, (), hboughs, rfl⟩

end Container

namespace Builder

theorem read_of_build {b : Builder} {bytes : Bytes} (h : b.build = .ok bytes)
    (hsize : bytes.size < UInt64.size) : b.error = none ∧
      ∃ code, linked b.labels b.code b.fixups = .ok code ∧ ∃ d, Container.read (.start bytes) =
        .ok ⟨b.version, b.globals, b.boughs, code.toArray, bytes.size⟩ d := by
  unfold build at h
  cases herror : b.error with
  | some e =>
    rw [herror] at h
    cases h
  | none =>
    rw [herror] at h
    obtain ⟨code, hcode, h⟩ := Except.bind_eq_ok_iff.1 h
    obtain ⟨globals, hglobals, h⟩ := Except.bind_eq_ok_iff.1 h
    obtain ⟨boughs, hboughs, ⟨⟩⟩ := Except.bind_eq_ok_iff.1 h
    rw [Writing.result_eq_ok_iff] at hglobals hboughs
    exact ⟨rfl, code, hcode, _, Container.read_header hglobals hboughs rfl hsize⟩

end Builder

end Dialogue
