import Dialogue.Proofs.Container.Tables
import Dialogue.Proofs.Table
import Mathlib.Data.List.Nodup

/-!
The form of a container, without a reader: behind the opening, two tables and the code, either one
after the other or where the header says. Exactly what has this form is parsed, to what it says.
-/

namespace Dialogue

namespace Container

def entryBytes (width : Nat) (name : String) (rest : List UInt8) : List UInt8 :=
  littleEndian width name.utf8ByteSize ++ (utf8 name ++ rest)

def globalBytes (g : GlobalSymbol) : List UInt8 :=
  entryBytes 1 g.name (littleEndian 4 g.index.toNat ++
    [if g.isExtern then 1 else 0, if g.isMutable then 1 else 0])

def boughBytes (version : FormatVersion) (b : Bough) : List UInt8 :=
  entryBytes (boughNameWidth version) b.name (littleEndian 4 b.entry.toNat)

def tableBytes {α : Type} (entry : α → List UInt8) (xs : List α) : List UInt8 :=
  littleEndian 8 xs.length ++ xs.flatMap entry

structure Countable (width : Nat) (names : List String) : Prop where
  length : names.length < UInt64.size
  sizes : ∀ name ∈ names, name.utf8ByteSize < 256 ^ width

structure Layout where
  globalsAt : Nat
  boughsAt : Nat
  codeAt : Nat

namespace Layout

variable (l : Layout) (version : FormatVersion) (gs : List GlobalSymbol) (bs : List Bough)

def globalsEnd : Nat := l.globalsAt + (tableBytes globalBytes gs).length

def boughsEnd : Nat := l.boughsAt + (tableBytes (boughBytes version) bs).length

def offsets : List Nat := [l.globalsAt, l.boughsAt, l.codeAt]

def Placed (bytes : List UInt8) : Prop :=
  match version with
  | .sequential =>
    l.globalsAt = headerSize ∧ l.boughsAt = l.globalsEnd gs ∧ l.codeAt = l.boughsEnd version bs
  | .offset =>
    l.offsets.flatMap (littleEndian 8) <+: bytes.drop headerSize ∧
      ∀ offset ∈ l.offsets, headerSize ≤ offset ∧ offset ≤ bytes.length ∧ offset < UInt64.size

end Layout

def Opening (version : FormatVersion) (e : List UInt8) : Prop :=
  ∃ reserved, reserved.length = 2 ∧ e = magic ++ (littleEndian 2 version.toNat ++ reserved)

structure Tabled (version : FormatVersion) (gs : List GlobalSymbol) (bs : List Bough) (l : Layout)
    (bytes : List UInt8) : Prop where
  globalNames : Countable 1 (gs.map (·.name))
  globals : tableBytes globalBytes gs <+: bytes.drop l.globalsAt
  boughNames : Countable (boughNameWidth version) (bs.map (·.name))
  boughs : tableBytes (boughBytes version) bs <+: bytes.drop l.boughsAt
  placed : l.Placed version gs bs bytes

structure Laid (version : FormatVersion) (gs : List GlobalSymbol) (bs : List Bough) (l : Layout)
    (bytes : List UInt8) : Prop extends Tabled version gs bs l bytes where
  opening : ∃ e, Opening version e ∧ e <+: bytes

structure Distinct (c : Container) : Prop where
  globalNames : (c.globals.map (·.name)).Nodup
  globalIndices : (c.globals.map (·.index)).Nodup
  boughNames : (c.boughs.map (·.name)).Nodup

/-- Names stand for one entry each, and those of the externs are in order. -/
structure Indexed (c : Container) : Prop where
  global : ∀ name g, c.global? name = some g ↔ g ∈ c.globals ∧ g.name = name
  bough : ∀ name b, c.bough? name = some b ↔ b ∈ c.boughs ∧ b.name = name
  externs : c.externs.Pairwise (· < ·)
  externs_perm : c.externs.Perm ((c.globals.filter (·.isExtern)).map (·.name))

structure Formed (bytes : Bytes) (c : Container) : Prop where
  laid : ∃ l, Laid c.version c.globals c.boughs l bytes.toList ∧
    c.code.toList = bytes.toList.drop l.codeAt
  distinct : c.Distinct
  entries : ∀ b ∈ c.boughs, b.entry.toNat ≤ c.code.size
  size : c.size = bytes.size

theorem writeGlobal_eq_ofBytes_iff {g : GlobalSymbol} {e : List UInt8} :
    Builder.writeGlobal g = .ofBytes e ↔ g.name.utf8ByteSize < 256 ^ 1 ∧ e = globalBytes g := by
  simp only [Builder.writeGlobal, Writing.append_eq_ofBytes_iff, Writing.sized_eq_ofBytes_iff,
    Writing.word, Writing.ofBytes_inj, globalBytes, entryBytes]
  constructor
  · rintro ⟨_, _, ⟨hname, rfl⟩, ⟨_, _, rfl, rfl, rfl⟩, rfl⟩
    exact ⟨hname, List.append_assoc _ _ _⟩
  · rintro ⟨hname, rfl⟩
    exact ⟨_, _, ⟨hname, rfl⟩, ⟨_, _, rfl, rfl, rfl⟩, (List.append_assoc _ _ _).symm⟩

theorem writeBough_eq_ofBytes_iff {version : FormatVersion} {b : Bough} {e : List UInt8} :
    Builder.writeBough version b = .ofBytes e ↔
      b.name.utf8ByteSize < 256 ^ boughNameWidth version ∧ e = boughBytes version b := by
  simp only [Builder.writeBough, Writing.append_eq_ofBytes_iff, Writing.sized_eq_ofBytes_iff,
    Writing.word, Writing.ofBytes_inj, boughBytes, entryBytes]
  constructor
  · rintro ⟨_, _, ⟨hname, rfl⟩, rfl, rfl⟩
    exact ⟨hname, List.append_assoc _ _ _⟩
  · rintro ⟨hname, rfl⟩
    exact ⟨_, _, ⟨hname, rfl⟩, rfl, (List.append_assoc _ _ _).symm⟩

theorem accepts_table {α : Type} {read : FormatRead α} {width : Nat} {name : α → String}
    {entry : α → List UInt8}
    (hr : Accepts read fun x e => e = entry x ∧ (name x).utf8ByteSize < 256 ^ width)
    (part : Section) : Accepts (do readTable read (← part.read Read.u64)) fun xs e =>
      e = tableBytes entry xs ∧ Countable width (xs.map name) := by
  apply (((Accepts.word 8).part part).bind
    fun n => hr.many (f := readTable read) rfl (fun _ => rfl) n).congr
  intro xs e
  constructor
  · rintro ⟨_, _, _, ⟨rfl, hn⟩, ⟨rfl, rfl, h⟩, rfl⟩
    refine ⟨rfl, by simpa using hn, ?_⟩
    simpa using h
  · rintro ⟨rfl, hn, h⟩
    refine ⟨_, _, _, ⟨rfl, ?_⟩, ⟨rfl, rfl, ?_⟩, rfl⟩
    · simpa using hn
    · simpa using h

theorem accepts_global : Accepts readGlobal
    fun g e => e = globalBytes g ∧ g.name.utf8ByteSize < 256 ^ 1 :=
  accepts_readGlobal.congr fun g e => by rw [writeGlobal_eq_ofBytes_iff, and_comm]

theorem accepts_bough (version : FormatVersion) :
    Accepts (Section.boughTable.read (readBough version))
      fun b e => e = boughBytes version b ∧ b.name.utf8ByteSize < 256 ^ boughNameWidth version :=
  ((accepts_readBough version).part .boughTable).congr fun b e => by
    rw [writeBough_eq_ofBytes_iff, and_comm]

theorem accepts_globalTable : Accepts readGlobals fun gs e =>
    e = tableBytes globalBytes gs ∧ Countable 1 (gs.map (·.name)) :=
  accepts_table accepts_global .globalTable

theorem accepts_boughTable (version : FormatVersion) : Accepts (readBoughs version) fun bs e =>
    e = tableBytes (boughBytes version) bs ∧
      Countable (boughNameWidth version) (bs.map (·.name)) :=
  accepts_table (accepts_bough version) .boughTable

theorem FormatVersion.ofNat?_eq_some_iff {number : Nat} {version : FormatVersion} :
    FormatVersion.ofNat? number = some version ↔ number = version.toNat := by
  constructor
  · intro h
    unfold FormatVersion.ofNat? at h
    split at h <;> cases h <;> rfl
  · rintro rfl
    cases version <;> rfl

theorem accepts_readVersion : Accepts readVersion Opening := by
  refine Accepts.congr (((Accepts.take 4).part .header).bind fun opening => Accepts.guard
    (((Accepts.word 2).part .header).bind (V := fun number version e =>
      FormatVersion.ofNat? number = some version ∧ e.length = 2) fun number => ?_)) ?_
  · cases FormatVersion.ofNat? number with
    | none => exact (Accepts.refuse _).congr fun version e => by simp
    | some v =>
      apply (((Accepts.word 2).part .header).bind fun _ => Accepts.pure v).congr
      intro version e
      constructor
      · rintro ⟨n, _, _, ⟨rfl, -⟩, ⟨rfl, rfl⟩, rfl⟩
        exact ⟨rfl, rfl⟩
      · rintro ⟨⟨⟩, he⟩
        refine ⟨ofLittleEndian e, e, [], ⟨?_, ?_⟩, ⟨rfl, rfl⟩, (List.append_nil e).symm⟩
        · rw [← he, littleEndian_ofLittleEndian]
        · exact he ▸ ofLittleEndian_lt e
  · intro version e
    simp only [not_not, FormatVersion.ofNat?_eq_some_iff]
    constructor
    · rintro ⟨opening, e₁, _, ⟨rfl, -⟩, ⟨hmagic, _, _, reserved, ⟨rfl, -⟩, ⟨rfl, hlength⟩, rfl⟩, rfl⟩
      exact ⟨reserved, hlength, by rw [hmagic]⟩
    · rintro ⟨reserved, hlength, rfl⟩
      refine ⟨magic.toArray, magic, _, ⟨rfl, rfl⟩, ⟨rfl, _, _, reserved, ⟨rfl, ?_⟩,
        ⟨rfl, hlength⟩, rfl⟩, rfl⟩
      cases version <;> decide

theorem readOffset_of_bytes (part : Section) {b : Bytes} {p offset : Nat} (hp : p ≤ b.size)
    (hoffset : offset < UInt64.size) (h : littleEndian 8 offset <+: b.toList.drop p) :
    readOffset part ⟨b, p⟩ = if headerSize ≤ offset ∧ offset ≤ b.size then .ok offset ⟨b, p + 8⟩
      else .error (.offsetOutOfRange part offset b.size) ⟨b, p + 8⟩ := by
  have hread := ((Accepts.word 8).part .header).read ⟨rfl, hoffset⟩ hp h
  rw [littleEndian_length] at hread
  have hcheck : readOffset part ⟨b, p⟩ = (ite (headerSize ≤ offset ∧ offset ≤ b.size)
      (pure offset) (throw (.offsetOutOfRange part offset b.size)) : FormatRead Nat)
        ⟨b, p + 8⟩ := by
    change EStateM.bind (Section.header.read Read.u64) _ ⟨b, p⟩ = _
    rw [EStateM.bind, show Section.header.read Read.u64 ⟨b, p⟩ = _ from hread]
    rfl
  rw [hcheck]
  split <;> rfl

theorem readOffset_eq_ok_iff {part : Section} {b : Bytes} {p offset : Nat} {c : Cursor}
    (hp : p ≤ b.size) : readOffset part ⟨b, p⟩ = .ok offset c ↔
      littleEndian 8 offset <+: b.toList.drop p ∧
        (headerSize ≤ offset ∧ offset ≤ b.size ∧ offset < UInt64.size) ∧ c = ⟨b, p + 8⟩ := by
  constructor
  · intro h
    obtain ⟨n, d, hn, h⟩ := bind_eq_ok_iff.1 h
    obtain ⟨e, ⟨rfl, hlt⟩, he, rfl⟩ := ((Accepts.word 8).part .header b p hp n d).1 hn
    change (ite (headerSize ≤ n ∧ n ≤ b.size) _ _ : FormatRead Nat) _ = _ at h
    split at h
    · rename_i hbounds
      cases h
      exact ⟨he, ⟨hbounds.1, hbounds.2, hlt⟩, rfl⟩
    · cases h
  · rintro ⟨h, ⟨hlow, hhigh, hlt⟩, rfl⟩
    rw [readOffset_of_bytes part hp hlt h, if_pos ⟨hlow, hhigh⟩]

theorem seek_bind_eq_ok_iff {α : Type} {part : Section} {q : Nat} {k : Unit → FormatRead α}
    {c c' : Cursor} {y : α} : (part.read (Read.seek q) >>= k) c = .ok y c' ↔
      q ≤ c.bytes.size ∧ k () ⟨c.bytes, q⟩ = .ok y c' := by
  rw [bind_eq_ok_iff]
  constructor
  · rintro ⟨_, _, h, hk⟩
    obtain ⟨hq, rfl⟩ := Section.seek_eq_ok_iff.1 h
    exact ⟨hq, hk⟩
  · rintro ⟨hq, hk⟩
    exact ⟨(), _, Section.seek_eq_ok_iff.2 ⟨hq, rfl⟩, hk⟩

variable {version : FormatVersion} {gs : List GlobalSymbol} {bs : List Bough} {b : Bytes}

theorem Layout.offsets_isPrefix_iff {l : Layout} {xs : List UInt8} {p : Nat} :
    l.offsets.flatMap (littleEndian 8) <+: xs.drop p ↔
      littleEndian 8 l.globalsAt <+: xs.drop p ∧ littleEndian 8 l.boughsAt <+: xs.drop (p + 8) ∧
        littleEndian 8 l.codeAt <+: xs.drop (p + 8 + 8) := by
  simp only [offsets, List.flatMap_cons, List.flatMap_nil, List.append_nil,
    append_isPrefix_drop_iff, littleEndian_length]

theorem readTables_sequential {d : Cursor} (hb : headerSize ≤ b.size) :
    readTables .sequential ⟨b, headerSize⟩ = .ok (gs, bs) d ↔
      ∃ l : Layout, Tabled .sequential gs bs l b.toList ∧ d = ⟨b, l.codeAt⟩ := by
  constructor
  · intro h
    obtain ⟨gs', _, hgs, h⟩ := bind_eq_ok_iff.1 h
    obtain ⟨_, ⟨rfl, hgnames⟩, hglobals, rfl⟩ := (accepts_globalTable b _ hb _ _).1 hgs
    obtain ⟨bs', _, hbs, h⟩ := bind_eq_ok_iff.1 h
    have hend := le_size_of_isPrefix hb hglobals
    obtain ⟨_, ⟨rfl, hbnames⟩, hboughs, rfl⟩ := (accepts_boughTable _ b _ hend _ _).1 hbs
    cases h
    exact ⟨⟨headerSize, _, _⟩, ⟨hgnames, hglobals, hbnames, hboughs, rfl, rfl, rfl⟩, rfl⟩
  · rintro ⟨l, ⟨hgnames, hglobals, hbnames, hboughs, hglobalsAt, hboughsAt, hcodeAt⟩, rfl⟩
    rw [hglobalsAt] at hglobals
    rw [hboughsAt, Layout.globalsEnd, hglobalsAt] at hboughs
    rw [hcodeAt, Layout.boughsEnd, hboughsAt, Layout.globalsEnd, hglobalsAt]
    have hend := le_size_of_isPrefix hb hglobals
    refine bind_eq_ok_iff.2 ⟨gs, _, accepts_globalTable.read ⟨rfl, hgnames⟩ hb hglobals, ?_⟩
    refine bind_eq_ok_iff.2 ⟨bs, _, (accepts_boughTable _).read ⟨rfl, hbnames⟩ hend hboughs, ?_⟩
    rfl

theorem readTables_offset {d : Cursor} (hb : headerSize ≤ b.size) :
    readTables .offset ⟨b, headerSize⟩ = .ok (gs, bs) d ↔
      ∃ l : Layout, Tabled .offset gs bs l b.toList ∧ d = ⟨b, l.codeAt⟩ := by
  have hnext {p offset : Nat} (hp : p ≤ b.size) (h : littleEndian 8 offset <+: b.toList.drop p) :
      p + 8 ≤ b.size := by
    simpa only [littleEndian_length] using le_size_of_isPrefix hp h
  constructor
  · intro h
    obtain ⟨globalsAt, _, hg, h⟩ := bind_eq_ok_iff.1 h
    obtain ⟨hgAt, hgRange, rfl⟩ := (readOffset_eq_ok_iff hb).1 hg
    obtain ⟨boughsAt, _, hb', h⟩ := bind_eq_ok_iff.1 h
    obtain ⟨hbAt, hbRange, rfl⟩ := (readOffset_eq_ok_iff (hnext hb hgAt)).1 hb'
    obtain ⟨codeAt, _, hc, h⟩ := bind_eq_ok_iff.1 h
    obtain ⟨hcAt, hcRange, rfl⟩ := (readOffset_eq_ok_iff (hnext (hnext hb hgAt) hbAt)).1 hc
    obtain ⟨-, h⟩ := seek_bind_eq_ok_iff.1 h
    obtain ⟨gs', _, hgs, h⟩ := bind_eq_ok_iff.1 h
    obtain ⟨_, ⟨rfl, hgnames⟩, hglobals, rfl⟩ :=
      (accepts_globalTable b globalsAt hgRange.2.1 _ _).1 hgs
    obtain ⟨-, h⟩ := seek_bind_eq_ok_iff.1 h
    obtain ⟨bs', _, hbs, h⟩ := bind_eq_ok_iff.1 h
    obtain ⟨_, ⟨rfl, hbnames⟩, hboughs, rfl⟩ :=
      (accepts_boughTable _ b boughsAt hbRange.2.1 _ _).1 hbs
    obtain ⟨-, h⟩ := seek_bind_eq_ok_iff.1 h
    cases h
    refine ⟨⟨globalsAt, boughsAt, codeAt⟩, ⟨hgnames, hglobals, hbnames, hboughs,
      Layout.offsets_isPrefix_iff.2 ⟨hgAt, hbAt, hcAt⟩, ?_⟩, rfl⟩
    simpa [Layout.offsets] using ⟨hgRange, hbRange, hcRange⟩
  · rintro ⟨l, ⟨hgnames, hglobals, hbnames, hboughs, hoffsets, hranges⟩, rfl⟩
    obtain ⟨hgAt, hbAt, hcAt⟩ := Layout.offsets_isPrefix_iff.1 hoffsets
    simp only [Layout.offsets, List.forall_mem_cons, Array.length_toList] at hranges
    obtain ⟨hgRange, hbRange, hcRange, -⟩ := hranges
    refine bind_eq_ok_iff.2 ⟨_, _, (readOffset_eq_ok_iff hb).2 ⟨hgAt, hgRange, rfl⟩, ?_⟩
    refine bind_eq_ok_iff.2 ⟨_, _,
      (readOffset_eq_ok_iff (hnext hb hgAt)).2 ⟨hbAt, hbRange, rfl⟩, ?_⟩
    refine bind_eq_ok_iff.2 ⟨_, _,
      (readOffset_eq_ok_iff (hnext (hnext hb hgAt) hbAt)).2 ⟨hcAt, hcRange, rfl⟩, ?_⟩
    refine seek_bind_eq_ok_iff.2 ⟨hgRange.2.1, ?_⟩
    refine bind_eq_ok_iff.2
      ⟨gs, _, accepts_globalTable.read ⟨rfl, hgnames⟩ hgRange.2.1 hglobals, ?_⟩
    refine seek_bind_eq_ok_iff.2 ⟨hbRange.2.1, ?_⟩
    refine bind_eq_ok_iff.2
      ⟨bs, _, (accepts_boughTable _).read ⟨rfl, hbnames⟩ hbRange.2.1 hboughs, ?_⟩
    exact seek_bind_eq_ok_iff.2 ⟨hcRange.2.1, rfl⟩

theorem readTables_eq_ok_iff {d : Cursor} (hb : headerSize ≤ b.size) :
    readTables version ⟨b, headerSize⟩ = .ok (gs, bs) d ↔
      ∃ l : Layout, Tabled version gs bs l b.toList ∧ d = ⟨b, l.codeAt⟩ := by
  cases version with
  | sequential => exact readTables_sequential hb
  | offset => exact readTables_offset hb

theorem Opening.length {e : List UInt8} (h : Opening version e) : e.length = headerSize := by
  obtain ⟨reserved, hlength, rfl⟩ := h
  simp [magic, littleEndian_length, hlength, headerSize]

theorem read_iff_laid {c : Container} : (∃ d, read (.start b) = .ok c d) ↔
    ∃ l, Laid c.version c.globals c.boughs l b.toList ∧
      c.code = b.extract l.codeAt ∧ c.size = b.size := by
  constructor
  · rintro ⟨d, h⟩
    obtain ⟨version, _, hversion, h⟩ := bind_eq_ok_iff.1 h
    obtain ⟨e, he, hprefix, rfl⟩ := (accepts_readVersion b 0 (Nat.zero_le _) _ _).1 hversion
    have hb := le_size_of_isPrefix (Nat.zero_le _) hprefix
    rw [he.length, Nat.zero_add] at hb h
    obtain ⟨⟨gs, bs⟩, _, htables, h⟩ := bind_eq_ok_iff.1 h
    obtain ⟨l, hl, rfl⟩ := (readTables_eq_ok_iff hb).1 htables
    cases h
    exact ⟨l, ⟨hl, e, he, hprefix⟩, rfl, rfl⟩
  · obtain ⟨version, gs, bs, code, size⟩ := c
    rintro ⟨l, ⟨hl, e, he, hprefix⟩, hcode, hsize⟩
    simp only at hl he hcode hsize
    subst hcode hsize
    have hb := le_size_of_isPrefix (Nat.zero_le _) hprefix
    have hversion := accepts_readVersion.read he (Nat.zero_le _) hprefix
    rw [he.length, Nat.zero_add] at hb hversion
    refine ⟨⟨b, l.codeAt⟩, bind_eq_ok_iff.2 ⟨_, _, hversion, ?_⟩⟩
    exact bind_eq_ok_iff.2 ⟨_, _, (readTables_eq_ok_iff hb).2 ⟨l, hl, rfl⟩, rfl⟩

theorem toList_extract_from (p : Nat) : (b.extract p).toList = b.toList.drop p := by
  rw [Array.toList_extract, List.extract_eq_take_drop, List.take_of_length_le]
  simp

theorem parse_iff_formed {c : Container} : parse b = .ok c ↔ Formed b c := by
  have hcode (l : Layout) : c.code = b.extract l.codeAt ↔
      c.code.toList = b.toList.drop l.codeAt := by
    rw [← Array.toList_inj, toList_extract_from]
  rw [parse_eq_ok_iff, read_iff_laid, checkGlobals_eq_ok_iff, checkBoughs_eq_ok_iff]
  constructor
  · rintro ⟨⟨l, hl, hcodeAt, hsize⟩, ⟨⟨hnames, -⟩, hindices, -⟩, ⟨hboughs, -⟩, hentries⟩
    exact ⟨⟨l, hl, (hcode l).1 hcodeAt⟩, ⟨hnames, hindices, hboughs⟩, hentries, hsize⟩
  · rintro ⟨⟨l, hl, hcodeAt⟩, ⟨hnames, hindices, hboughs⟩, hentries, hsize⟩
    exact ⟨⟨l, hl, (hcode l).2 hcodeAt, hsize⟩, by simpa using ⟨hnames, hindices⟩,
      by simpa using ⟨hboughs, hentries⟩⟩

theorem find?_eq_some_iff_of_nodup {α : Type} {key : α → String} {xs : List α}
    (h : (xs.map key).Nodup) {k : String} {x : α} :
    xs.find? (fun y => key y == k) = some x ↔ x ∈ xs ∧ key x = k := by
  constructor
  · intro hx
    exact ⟨List.mem_of_find?_eq_some hx, by simpa using List.find?_some hx⟩
  · rintro ⟨hx, hk⟩
    obtain ⟨y, hy⟩ := Option.isSome_iff_exists.1
      (List.find?_isSome (p := fun y => key y == k).2 ⟨x, hx, by simpa using hk⟩)
    have hyk : key y = k := by simpa using List.find?_some hy
    rw [hy, List.inj_on_of_nodup_map h (List.mem_of_find?_eq_some hy) hx (hyk.trans hk.symm)]

theorem Distinct.indexed {c : Container} (h : c.Distinct) : c.Indexed := by
  let named := (c.globals.filter (·.isExtern)).map fun g => (g.name, ())
  have hnamed : named.map (·.1) = (c.globals.filter (·.isExtern)).map (·.name) := by
    simp [named, List.map_map, Function.comp_def]
  have hnodup : (named.map (·.1)).Nodup :=
    hnamed ▸ (List.filter_sublist.map _).nodup h.globalNames
  refine ⟨fun name g => find?_eq_some_iff_of_nodup h.globalNames,
    fun name b => find?_eq_some_iff_of_nodup h.boughNames, ?_, ?_⟩
  · exact (Table.ofList named).ordered.map _ fun _ _ => id
  · rw [← hnamed]
    refine (List.perm_ext_iff_of_nodup (Table.nodup_keys _) hnodup).2 fun name => ?_
    refine ⟨Table.mem_of_mem_keys_ofList, fun hname => ?_⟩
    obtain ⟨⟨_, ⟨⟩⟩, he, rfl⟩ := List.mem_map.1 hname
    have hget := Table.get?_foldl_insert (t := .empty) (fun _ _ => rfl) (.inl he)
    exact List.mem_map_of_mem (Table.mem_of_get? hget)

/-- What is parsed has the form of a container, everything of this form is parsed, and whatever is
parsed can be looked up by name. -/
theorem parse_formed (b : Bytes) (c : Container) :
    (parse b = .ok c ↔ Formed b c) ∧ (parse b = .ok c → c.Indexed) :=
  ⟨parse_iff_formed, fun h => (parse_iff_formed.1 h).distinct.indexed⟩

def inverted : Bytes :=
  (magic ++ ([2, 0, 0, 0] ++ ([32, 48, 8].flatMap (littleEndian 8) ++
    (tableBytes globalBytes [⟨"x", 7, true, false⟩] ++
      tableBytes (boughBytes .offset) [⟨"m", 55⟩])))).toArray

theorem parse_inverted : ∃ c, parse inverted = .ok c ∧ Formed inverted c ∧
    c.global? "x" = some ⟨"x", 7, true, false⟩ ∧ c.bough? "y" = none ∧ c.externs = ["x"] := by
  have h : (parse inverted).toOption.map (fun c => (c.globals, c.boughs)) =
    some ([⟨"x", 7, true, false⟩], [⟨"m", 55⟩]) := by decide +kernel
  obtain ⟨c, hc, htables⟩ := Option.map_eq_some_iff.1 h
  rw [Except.toOption_eq_some_iff] at hc
  obtain ⟨hglobals, hboughs⟩ := Prod.mk.inj htables
  obtain ⟨hform, hindexed⟩ := parse_formed inverted c
  refine ⟨c, hc, hform.1 hc, ((hindexed hc).global _ _).2 ?_, ?_, ?_⟩
  · rw [hglobals]
    exact ⟨List.mem_singleton_self _, rfl⟩
  · rw [bough?, hboughs]
    rfl
  · have hperm := (hindexed hc).externs_perm
    rw [hglobals] at hperm
    exact List.perm_singleton.1 hperm

end Container

end Dialogue
