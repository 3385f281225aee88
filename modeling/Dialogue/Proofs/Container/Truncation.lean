import Dialogue.Proofs.Container.Grammar

/-!
Beginnings of containers. A beginning that ends within a part that the tables need is refused as
truncated, and every other one is read with the same tables and what is left of the code.
-/

namespace Dialogue

variable {ε α β : Type}

def Starves (short : ε → Prop) (r : EStateM ε Cursor α) (W : α → List UInt8 → Prop) : Prop :=
  ∀ (b : Bytes) (p : Nat), p ≤ b.size → ∀ x e, W x e → b.toList.drop p <+: e →
    b.size < p + e.length → ∃ err c, r ⟨b, p⟩ = .error err c ∧ short err

theorem bind_of_ok {r : EStateM ε Cursor α} {k : α → EStateM ε Cursor β} {c d : Cursor} {x : α}
    (h : r c = .ok x d) : (r >>= k) c = k x d := by
  change EStateM.bind r k c = _
  rw [EStateM.bind, h]

theorem bind_of_error {r : EStateM ε Cursor α} {k : α → EStateM ε Cursor β} {c d : Cursor} {e : ε}
    (h : r c = .error e d) : (r >>= k) c = .error e d := by
  change EStateM.bind r k c = _
  rw [EStateM.bind, h]

namespace Starves

variable {short : ε → Prop} {W : α → List UInt8 → Prop}

theorem mono {r : EStateM ε Cursor α} {V : α → List UInt8 → Prop} (h : Starves short r W)
    (hWV : ∀ x e, V x e → W x e) : Starves short r V :=
  fun b p hp x e hV => h b p hp x e (hWV x e hV)

theorem of_empty {r : EStateM ε Cursor α} (h : ∀ x e, W x e → e = []) : Starves short r W := by
  intro b p hp x e hW _ hlt
  rw [h x e hW, List.length_nil] at hlt
  omega

theorem bind {r : EStateM ε Cursor α} {k : α → EStateM ε Cursor β} {V : α → β → List UInt8 → Prop}
    (ha : Accepts r W) (hr : Starves short r W) (hk : ∀ x, Starves short (k x) (V x)) :
    Starves short (r >>= k) fun y e => ∃ x e₁ e₂, W x e₁ ∧ V x y e₂ ∧ e = e₁ ++ e₂ := by
  rintro b p hp y _ ⟨x, e₁, e₂, hW, hV, rfl⟩ hprefix hlt
  have hlength : (b.toList.drop p).length = b.size - p := by simp
  by_cases hcut : b.size < p + e₁.length
  · have h₁ : b.toList.drop p <+: e₁ :=
      List.prefix_of_prefix_length_le hprefix (List.prefix_append e₁ e₂) (by omega)
    obtain ⟨err, c, herr, hshort⟩ := hr b p hp x e₁ hW h₁ hcut
    exact ⟨err, c, bind_of_error herr, hshort⟩
  · have h₁ : e₁ <+: b.toList.drop p :=
      List.prefix_of_prefix_length_le (List.prefix_append e₁ e₂) hprefix (by omega)
    have h₂ : b.toList.drop (p + e₁.length) <+: e₂ := by
      obtain ⟨t, ht⟩ := h₁
      rw [← ht, List.prefix_append_right_inj] at hprefix
      rwa [← List.drop_drop, ← ht, List.drop_left]
    rw [List.length_append] at hlt
    obtain ⟨err, c, herr, hshort⟩ :=
      hk x b _ (le_size_of_isPrefix hp h₁) y e₂ hV h₂ (by omega)
    exact ⟨err, c, (bind_of_ok (ha.read hW hp h₁)).trans herr, hshort⟩

theorem map {r : EStateM ε Cursor α} (hr : Starves short r W) (f : α → β) :
    Starves short (do return f (← r)) fun y e => ∃ x, W x e ∧ y = f x := by
  rintro b p hp y e ⟨x, hW, -⟩ hprefix hlt
  obtain ⟨err, c, herr, hshort⟩ := hr b p hp x e hW hprefix hlt
  exact ⟨err, c, bind_of_error herr, hshort⟩

theorem guard {c : Prop} [Decidable c] {e : ε} {k : Unit → EStateM ε Cursor α}
    (hk : Starves short (k ()) W) :
    Starves short (if c then throw e >>= k else k ()) fun x b => ¬ c ∧ W x b := by
  rintro b p hp x f ⟨hc, hW⟩ hprefix hlt
  rw [if_neg hc]
  exact hk b p hp x f hW hprefix hlt

theorem many {r : EStateM ε Cursor α} {f : Nat → EStateM ε Cursor (List α)}
    {encode : α → List UInt8} {F : α → Prop} (ha : Accepts r fun x e => e = encode x ∧ F x)
    (hr : Starves short r fun x e => e = encode x ∧ F x)
    (hsucc : ∀ n, f (n + 1) = do return (← r) :: (← f n)) (count : Nat) :
    Starves short (f count)
      fun xs e => xs.length = count ∧ e = xs.flatMap encode ∧ ∀ x ∈ xs, F x := by
  induction count with
  | zero =>
    apply of_empty
    rintro xs e ⟨hlength, rfl, -⟩
    rw [List.eq_nil_of_length_eq_zero hlength, List.flatMap_nil]
  | succ count ih =>
    rw [hsucc]
    apply (bind ha hr fun x => ih.map fun xs => x :: xs).mono
    rintro xs _ ⟨hlength, rfl, h⟩
    obtain ⟨x, xs, rfl⟩ := List.exists_cons_of_length_eq_add_one hlength
    obtain ⟨hx, hxs⟩ := List.forall_mem_cons.1 h
    exact ⟨x, _, _, ⟨rfl, hx⟩, ⟨xs, ⟨Nat.succ.inj hlength, rfl, hxs⟩, rfl⟩, rfl⟩

end Starves

def DecodeError.IsShort (e : DecodeError) : Prop :=
  ∃ offset needed, e = .unexpectedEnd offset needed

def FormatError.IsShort (e : FormatError) : Prop := e.isTruncated = true

namespace Starves

theorem take (count : Nat) : Starves DecodeError.IsShort (Read.take count)
    fun x e => x.toList = e ∧ e.length = count := by
  rintro b p hp x e ⟨-, rfl⟩ - hlt
  refine ⟨_, ⟨b, p⟩, ?_, p, e.length - (b.size - p), rfl⟩
  change (ite (e.length ≤ b.size - p) _ _ : Read Bytes) ⟨b, p⟩ = _
  rw [if_neg (by omega)]
  rfl

theorem word (count : Nat) : Starves DecodeError.IsShort (Read.word count)
    fun n e => e = littleEndian count n ∧ n < 256 ^ count := by
  apply ((take count).map fun x => ofLittleEndian x.toList).mono
  rintro n _ ⟨rfl, hn⟩
  refine ⟨(littleEndian count n).toArray, ⟨rfl, littleEndian_length _ _⟩, ?_⟩
  exact (ofLittleEndian_littleEndian hn).symm

theorem u8 : Starves DecodeError.IsShort Read.u8 fun x e => e = [x] := by
  apply ((word 1).map Nat.toUInt8).mono
  rintro x _ rfl
  refine ⟨x.toNat, ⟨?_, x.toNat_lt⟩, ?_⟩ <;> simp [littleEndian, Nat.toUInt8]

theorem string (size : Nat) : Starves DecodeError.IsShort (Read.string size)
    fun s e => e = utf8 s ∧ s.utf8ByteSize = size := by
  rintro b p hp s _ ⟨rfl, rfl⟩ hprefix hlt
  obtain ⟨err, c, herr, hshort⟩ :=
    take s.utf8ByteSize b p hp (utf8 s).toArray (utf8 s) ⟨rfl, utf8_length s⟩ hprefix hlt
  refine ⟨err, c, ?_, hshort⟩
  exact (bind_of_ok (r := Read.position) rfl).trans (bind_of_error herr)

theorem part {r : Read α} {W : α → List UInt8 → Prop} (hr : Starves DecodeError.IsShort r W)
    (part : Section) : Starves FormatError.IsShort (part.read r) W := by
  intro b p hp x e hW hprefix hlt
  obtain ⟨_, c, herr, offset, needed, rfl⟩ := hr b p hp x e hW hprefix hlt
  exact ⟨.malformed part (.unexpectedEnd offset needed), c, by rw [Section.read, herr], rfl⟩

theorem readWord : Starves DecodeError.IsShort Instruction.readWord
    fun w e => Writing.word w = .ofBytes e := by
  apply ((word 4).map Nat.toUInt32).mono
  intro w e h
  rw [Writing.word, Writing.ofBytes_inj] at h
  exact ⟨w.toNat, ⟨h.symm, w.toNat_lt⟩, (UInt32.ofNat_toNat).symm⟩

end Starves

namespace Container

theorem starves_readFlag (name flag : String) : Starves FormatError.IsShort (readFlag name flag)
    fun x e => e = [if x then 1 else 0] := by
  refine Starves.mono (Starves.bind (V := fun _ _ e => e = []) (Accepts.u8.part .globalTable)
    (Starves.u8.part .globalTable) fun byte => Starves.of_empty fun _ _ he => he) ?_
  rintro x _ rfl
  exact ⟨_, _, [], rfl, rfl, rfl⟩

theorem starves_readGlobal : Starves FormatError.IsShort readGlobal
    fun g e => Builder.writeGlobal g = .ofBytes e := by
  have hname : Starves DecodeError.IsShort (do Read.string (← Read.u8).toNat)
      fun s e => Writing.sized 1 s = .ofBytes e := by
    apply (Starves.bind Accepts.u8 .u8 fun n => .string n.toNat).mono
    intro s e h
    obtain ⟨hs, rfl⟩ := Writing.sized_eq_ofBytes_iff.1 h
    exact ⟨s.utf8ByteSize.toUInt8, _, _, rfl, ⟨rfl, (UInt8.toNat_ofNat_of_lt' hs).symm⟩, rfl⟩
  apply (Starves.bind (Accepts.short.part .globalTable) (hname.part .globalTable) fun name =>
    Starves.bind (Accepts.readWord.part .globalTable) (Starves.readWord.part .globalTable)
      fun index => Starves.bind (accepts_readFlag name "extern") (starves_readFlag name "extern")
        fun isExtern => (starves_readFlag name "mutable").map fun isMutable =>
          GlobalSymbol.mk name index isExtern isMutable).mono
  intro g e h
  simp only [Builder.writeGlobal, Writing.append_eq_ofBytes_iff] at h
  obtain ⟨e₁, _, h₁, ⟨e₂, _, h₂, h₃, rfl⟩, rfl⟩ := h
  rw [Writing.ofBytes_inj] at h₃
  rw [← h₃]
  exact ⟨_, e₁, _, h₁, ⟨_, e₂, _, h₂, ⟨g.isExtern, _, _, rfl, ⟨g.isMutable, rfl, rfl⟩, rfl⟩, rfl⟩,
    rfl⟩

theorem starves_readBough (version : FormatVersion) : Starves DecodeError.IsShort
    (readBough version) fun b e => Builder.writeBough version b = .ofBytes e := by
  have hname : Starves DecodeError.IsShort
      (do Read.string (← Read.word (boughNameWidth version)))
      fun s e => Writing.sized (boughNameWidth version) s = .ofBytes e := by
    apply (Starves.bind (Accepts.word _) (.word _) .string).mono
    intro s e h
    obtain ⟨hs, rfl⟩ := Writing.sized_eq_ofBytes_iff.1 h
    exact ⟨_, _, _, ⟨rfl, hs⟩, ⟨rfl, rfl⟩, rfl⟩
  have h := Starves.bind (Accepts.sized (boughNameWidth version)) hname fun name =>
    Starves.readWord.map fun entry => Bough.mk name entry
  rw [bind_assoc] at h
  apply h.mono
  intro b e hb
  obtain ⟨e₁, e₂, h₁, h₂, rfl⟩ := Writing.append_eq_ofBytes_iff.1 hb
  exact ⟨_, e₁, e₂, h₁, ⟨_, h₂, rfl⟩, rfl⟩

theorem starves_table {α : Type} {read : FormatRead α} {width : Nat} {name : α → String}
    {entry : α → List UInt8}
    (ha : Accepts read fun x e => e = entry x ∧ (name x).utf8ByteSize < 256 ^ width)
    (hr : Starves FormatError.IsShort read
      fun x e => e = entry x ∧ (name x).utf8ByteSize < 256 ^ width) (part : Section) :
    Starves FormatError.IsShort (do readTable read (← part.read Read.u64))
      fun xs e => e = tableBytes entry xs ∧ Countable width (xs.map name) := by
  apply (Starves.bind ((Accepts.word 8).part part) ((Starves.word 8).part part)
    fun n => .many (f := readTable read) ha hr (fun _ => rfl) n).mono
  rintro xs _ ⟨rfl, hn, h⟩
  refine ⟨_, _, _, ⟨rfl, ?_⟩, ⟨rfl, rfl, ?_⟩, rfl⟩
  · simpa using hn
  · simpa using h

theorem starves_globalTable : Starves FormatError.IsShort readGlobals
    fun gs e => e = tableBytes globalBytes gs ∧ Countable 1 (gs.map (·.name)) :=
  starves_table accepts_global (starves_readGlobal.mono fun _ _ h =>
    writeGlobal_eq_ofBytes_iff.2 h.symm) .globalTable

theorem starves_boughTable (version : FormatVersion) : Starves FormatError.IsShort
    (readBoughs version) fun bs e => e = tableBytes (boughBytes version) bs ∧
      Countable (boughNameWidth version) (bs.map (·.name)) :=
  starves_table (accepts_bough version) (((starves_readBough version).part .boughTable).mono
    fun _ _ h => writeBough_eq_ofBytes_iff.2 h.symm) .boughTable

theorem starves_readVersion : Starves FormatError.IsShort readVersion Opening := by
  refine Starves.mono (Starves.bind ((Accepts.take 4).part .header)
    ((Starves.take 4).part .header) fun opening => Starves.guard
      (Starves.bind (V := fun number version e =>
        FormatVersion.ofNat? number = some version ∧ e.length = 2)
        ((Accepts.word 2).part .header) ((Starves.word 2).part .header) fun number => ?_)) ?_
  · cases FormatVersion.ofNat? number with
    | none =>
      rintro b p hp version e ⟨hnone, -⟩
      cases hnone
    | some v =>
      apply (((Starves.word 2).part .header).map fun _ => v).mono
      rintro version e ⟨⟨⟩, he⟩
      exact ⟨ofLittleEndian e, ⟨by rw [← he, littleEndian_ofLittleEndian],
        he ▸ ofLittleEndian_lt e⟩, rfl⟩
  · rintro version _ ⟨reserved, hlength, rfl⟩
    refine ⟨magic.toArray, magic, _, ⟨rfl, rfl⟩, ⟨not_not.2 rfl, _, _, reserved, ⟨rfl, ?_⟩,
      ⟨FormatVersion.ofNat?_eq_some_iff.2 rfl, hlength⟩, rfl⟩, rfl⟩
    cases version <;> decide

def Refuses {α : Type} (r : FormatRead α) (c : Cursor) : Prop :=
  ∃ e d, r c = .error e d ∧ e.IsShort

theorem Refuses.bind {α β : Type} {r : FormatRead α} {c : Cursor} (h : Refuses r c)
    (k : α → FormatRead β) : Refuses (r >>= k) c := by
  obtain ⟨e, d, he, hshort⟩ := h
  exact ⟨e, d, bind_of_error he, hshort⟩

theorem Refuses.after {α β : Type} {r : FormatRead α} {k : α → FormatRead β} {c d : Cursor} {x : α}
    (hr : r c = .ok x d) (h : Refuses (k x) d) : Refuses (r >>= k) c := by
  obtain ⟨e, d', he, hshort⟩ := h
  exact ⟨e, d', (bind_of_ok hr).trans he, hshort⟩

section Cut

variable {b : Bytes} {k : Nat}

theorem toList_cut : (b.extract 0 k).toList = b.toList.take k := by
  rw [Array.toList_extract, List.extract_eq_take_drop, List.drop_zero, Nat.sub_zero]

theorem size_cut (hk : k ≤ b.size) : (b.extract 0 k).size = k := by
  rw [Array.size_extract, Nat.min_eq_left hk, Nat.sub_zero]

theorem isPrefix_cut {xs e : List UInt8} {p : Nat} (he : e <+: xs.drop p)
    (hle : p + e.length ≤ k) : e <+: (xs.take k).drop p := by
  rw [List.drop_take]
  exact List.prefix_take_iff.2 ⟨he, by omega⟩

theorem read_cut {α : Type} {r : FormatRead α} {W : α → List UInt8 → Prop} (ha : Accepts r W)
    (hs : Starves FormatError.IsShort r W) {p : Nat} {x : α} {e : List UInt8} (hk : k ≤ b.size)
    (hp : p ≤ k) (hW : W x e) (he : e <+: b.toList.drop p) :
    (p + e.length ≤ k ∧ r ⟨b.extract 0 k, p⟩ = .ok x ⟨b.extract 0 k, p + e.length⟩) ∨
      Refuses r ⟨b.extract 0 k, p⟩ := by
  have hsize := size_cut hk
  have hp' : p ≤ (b.extract 0 k).size := hsize.symm ▸ hp
  by_cases hle : p + e.length ≤ k
  · refine .inl ⟨hle, ha.read hW hp' ?_⟩
    rw [toList_cut]
    exact isPrefix_cut he hle
  · refine .inr (hs _ p hp' x e hW ?_ (by omega))
    rw [toList_cut, List.drop_take]
    refine List.prefix_of_prefix_length_le (List.take_prefix _ _) he ?_
    rw [List.length_take]
    omega

theorem readOffset_cut {part : Section} {p offset : Nat} (hk : k ≤ b.size) (hp : p ≤ k)
    (hlow : headerSize ≤ offset) (hoffset : offset < UInt64.size)
    (he : littleEndian 8 offset <+: b.toList.drop p) :
    (p + 8 ≤ k ∧ offset ≤ k ∧
      readOffset part ⟨b.extract 0 k, p⟩ = .ok offset ⟨b.extract 0 k, p + 8⟩) ∨
        Refuses (readOffset part) ⟨b.extract 0 k, p⟩ := by
  have hp' : p ≤ (b.extract 0 k).size := (size_cut hk).symm ▸ hp
  rcases read_cut ((Accepts.word 8).part .header) ((Starves.word 8).part .header) hk hp
    ⟨rfl, hoffset⟩ he with ⟨hle, -⟩ | hshort
  · rw [littleEndian_length] at hle
    have hread := readOffset_of_bytes part hp' hoffset
      (toList_cut ▸ isPrefix_cut he (by rwa [littleEndian_length]))
    rw [size_cut hk] at hread
    by_cases hhigh : offset ≤ k
    · rw [if_pos ⟨hlow, hhigh⟩] at hread
      exact .inl ⟨hle, hhigh, hread⟩
    · rw [if_neg (fun h => hhigh h.2)] at hread
      exact .inr ⟨_, _, hread, rfl⟩
  · exact .inr (hshort.bind _)

end Cut

def Layout.needed (l : Layout) (version : FormatVersion) (gs : List GlobalSymbol)
    (bs : List Bough) : Nat :=
  match version with
  | .sequential => l.codeAt
  | .offset => max (headerSize + 24) (max (l.globalsEnd gs) (max (l.boughsEnd version bs) l.codeAt))

variable {version : FormatVersion} {gs : List GlobalSymbol} {bs : List Bough} {l : Layout}
variable {b : Bytes} {k : Nat}

theorem Tabled.refuses_sequential (hl : Tabled .sequential gs bs l b.toList) (hk : k ≤ b.size)
    (hheader : headerSize ≤ k) (hlt : k < l.codeAt) :
    Refuses (readTables .sequential) ⟨b.extract 0 k, headerSize⟩ := by
  obtain ⟨hgnames, hglobals, hbnames, hboughs, hglobalsAt, hboughsAt, hcodeAt⟩ := hl
  rw [hglobalsAt] at hglobals
  rw [hboughsAt, Layout.globalsEnd, hglobalsAt] at hboughs
  rw [hcodeAt, Layout.boughsEnd, hboughsAt, Layout.globalsEnd, hglobalsAt] at hlt
  rcases read_cut accepts_globalTable starves_globalTable hk hheader ⟨rfl, hgnames⟩ hglobals
    with ⟨hgle, hgs⟩ | hshort
  · refine .after hgs ?_
    rcases read_cut (accepts_boughTable _) (starves_boughTable _) hk hgle ⟨rfl, hbnames⟩ hboughs
      with ⟨hble, hbs⟩ | hshort
    · omega
    · exact hshort.bind _
  · exact hshort.bind _

theorem Tabled.refuses_offset (hl : Tabled .offset gs bs l b.toList) (hk : k ≤ b.size)
    (hheader : headerSize ≤ k) (hlt : k < l.needed .offset gs bs) :
    Refuses (readTables .offset) ⟨b.extract 0 k, headerSize⟩ := by
  obtain ⟨hgnames, hglobals, hbnames, hboughs, hoffsets, hranges⟩ := hl
  obtain ⟨hgAt, hbAt, hcAt⟩ := Layout.offsets_isPrefix_iff.1 hoffsets
  simp only [Layout.offsets, List.forall_mem_cons] at hranges
  obtain ⟨⟨hglow, -, hgu64⟩, ⟨hblow, -, hbu64⟩, ⟨hclow, -, hcu64⟩, -⟩ := hranges
  have hseek {part : Section} {offset p : Nat} (h : offset ≤ k) :
      part.read (Read.seek offset) ⟨b.extract 0 k, p⟩ = .ok () ⟨b.extract 0 k, offset⟩ :=
    Section.seek_eq_ok_iff.2 ⟨(size_cut hk).symm ▸ h, rfl⟩
  rcases readOffset_cut hk hheader hglow hgu64 hgAt with ⟨hk₁, hgk, hg⟩ | hshort
  swap; exact hshort.bind _
  refine .after hg ?_
  rcases readOffset_cut hk hk₁ hblow hbu64 hbAt with ⟨hk₂, hbk, hb⟩ | hshort
  swap; exact hshort.bind _
  refine .after hb ?_
  rcases readOffset_cut hk hk₂ hclow hcu64 hcAt with ⟨hk₃, hck, hc⟩ | hshort
  swap; exact hshort.bind _
  refine .after hc (.after (hseek hgk) ?_)
  rcases read_cut accepts_globalTable starves_globalTable hk hgk ⟨rfl, hgnames⟩ hglobals
    with ⟨hgle, hgs⟩ | hshort
  swap; exact hshort.bind _
  refine .after hgs (.after (hseek hbk) ?_)
  rcases read_cut (accepts_boughTable _) (starves_boughTable _) hk hbk ⟨rfl, hbnames⟩ hboughs
    with ⟨hble, -⟩ | hshort
  swap; exact hshort.bind _
  simp only [Layout.needed, Layout.globalsEnd, Layout.boughsEnd] at hlt
  omega

theorem Laid.refuses (hl : Laid version gs bs l b.toList) (hk : k ≤ b.size)
    (hlt : k < l.needed version gs bs) : Refuses read ⟨b.extract 0 k, 0⟩ := by
  obtain ⟨htabled, e, he, hprefix⟩ := hl
  rcases read_cut accepts_readVersion starves_readVersion hk (Nat.zero_le k) he hprefix
    with ⟨hle, hversion⟩ | hshort
  swap; exact hshort.bind _
  rw [he.length, Nat.zero_add] at hle hversion
  refine .after hversion (.bind ?_ _)
  cases version with
  | sequential => exact htabled.refuses_sequential hk hle hlt
  | offset => exact htabled.refuses_offset hk hle hlt

theorem Opening.cut {e xs : List UInt8} (he : Opening version e) (h : e <+: xs)
    (hk : headerSize ≤ k) : e <+: xs.take k :=
  List.prefix_take_iff.2 ⟨h, he.length ▸ hk⟩

theorem Laid.cut {xs : List UInt8} (hl : Laid version gs bs l xs) (hk : k ≤ xs.length)
    (hle : l.needed version gs bs ≤ k) : Laid version gs bs l (xs.take k) := by
  obtain ⟨⟨hgnames, hglobals, hbnames, hboughs, hplaced⟩, e, he, hprefix⟩ := hl
  cases version with
  | sequential =>
    have hcodeAt : l.codeAt ≤ k := hle
    obtain ⟨h₁, h₂, h₃⟩ := hplaced
    refine ⟨⟨hgnames, isPrefix_cut hglobals ?_, hbnames, isPrefix_cut hboughs ?_, h₁, h₂, h₃⟩,
      e, he, he.cut hprefix ?_⟩
    all_goals
      simp only [Layout.globalsEnd, Layout.boughsEnd] at h₂ h₃
      omega
  | offset =>
    obtain ⟨hoffsets, hranges⟩ := hplaced
    simp only [Layout.needed, Layout.globalsEnd, Layout.boughsEnd] at hle
    refine ⟨⟨hgnames, isPrefix_cut hglobals ?_, hbnames, isPrefix_cut hboughs ?_,
      isPrefix_cut hoffsets ?_, ?_⟩, e, he, he.cut hprefix ?_⟩
    · omega
    · omega
    · simp only [Layout.offsets, List.length_flatMap, littleEndian_length]
      simpa using (by omega : headerSize + 24 ≤ k)
    · simp only [Layout.offsets, List.forall_mem_cons, List.length_take,
        Nat.min_eq_left hk] at hranges ⊢
      grind
    · omega

theorem littleEndian_inj {count m n : Nat} (hm : m < 256 ^ count) (hn : n < 256 ^ count)
    (h : littleEndian count m = littleEndian count n) : m = n := by
  rw [← ofLittleEndian_littleEndian hm, h, ofLittleEndian_littleEndian hn]

theorem Laid.unique {xs : List UInt8} {l' : Layout} (hl : Laid version gs bs l xs)
    (hl' : Laid version gs bs l' xs) : l' = l := by
  obtain ⟨globalsAt, boughsAt, codeAt⟩ := l
  obtain ⟨globalsAt', boughsAt', codeAt'⟩ := l'
  have hplaced := hl.placed
  have hplaced' := hl'.placed
  cases version with
  | sequential =>
    simp only [Layout.Placed, Layout.globalsEnd, Layout.boughsEnd] at hplaced hplaced'
    obtain ⟨rfl, rfl, rfl⟩ := hplaced
    obtain ⟨rfl, rfl, rfl⟩ := hplaced'
    rfl
  | offset =>
    obtain ⟨hoffsets, hranges⟩ := hplaced
    obtain ⟨hoffsets', hranges'⟩ := hplaced'
    have heq {m n p : Nat} (hm : m < UInt64.size) (hn : n < UInt64.size)
        (h : littleEndian 8 m <+: xs.drop p) (h' : littleEndian 8 n <+: xs.drop p) : m = n := by
      have hlength : (littleEndian 8 m).length = (littleEndian 8 n).length := by
        rw [littleEndian_length, littleEndian_length]
      have hle := List.prefix_of_prefix_length_le h h' (Nat.le_of_eq hlength)
      exact littleEndian_inj hm hn (List.IsPrefix.eq_of_length hle hlength)
    obtain ⟨hg, hb, hc⟩ := Layout.offsets_isPrefix_iff.1 hoffsets
    obtain ⟨hg', hb', hc'⟩ := Layout.offsets_isPrefix_iff.1 hoffsets'
    simp only [Layout.offsets, List.forall_mem_cons] at hranges hranges'
    rw [heq hranges'.1.2.2 hranges.1.2.2 hg' hg, heq hranges'.2.1.2.2 hranges.2.1.2.2 hb' hb,
      heq hranges'.2.2.1.2.2 hranges.2.2.1.2.2 hc' hc]

theorem checkBoughs_of_lt {codeSize : Nat} {before : List Bough}
    (hnames : (bs.map (·.name)).Nodup ∧ ∀ b ∈ bs, ∀ a ∈ before, a.name ≠ b.name)
    (h : ∃ b ∈ bs, codeSize < b.entry.toNat) : ∃ b ∈ bs,
      checkBoughs codeSize before bs = .error (.entryOutOfRange b.name b.entry codeSize) := by
  induction bs generalizing before with
  | nil => simp at h
  | cons b bs ih =>
    rw [checkBoughs]
    by_cases hentry : codeSize < b.entry.toNat
    · exact ⟨b, List.mem_cons_self, if_pos hentry⟩
    · have hfresh : ¬ (before.any fun a => a.name == b.name) = true := by
        simp only [List.any_eq_true, beq_iff_eq]
        grind
      have hrest : (bs.map (·.name)).Nodup ∧ ∀ b' ∈ bs, ∀ a ∈ b :: before, a.name ≠ b'.name := by
        simp only [List.map_cons, List.nodup_cons, List.mem_map, List.mem_cons] at hnames ⊢
        grind
      obtain ⟨b', hb', hcheck⟩ := ih hrest (by grind)
      rw [if_neg hentry, if_neg hfresh]
      exact ⟨b', List.mem_cons_of_mem _ hb', hcheck⟩

theorem parse_of_refuses (h : Refuses read (.start b)) :
    ∃ e, parse b = .error e ∧ e.isTruncated = true := by
  obtain ⟨e, d, he, hshort⟩ := h
  exact ⟨e, by rw [parse, he], hshort⟩

theorem parse_of_checkBoughs {c : Container} {d : Cursor} {e : FormatError}
    (hread : read (.start b) = .ok c d) (hglobals : checkGlobals [] c.globals = .ok ())
    (hboughs : checkBoughs c.code.size [] c.boughs = .error e) : parse b = .error e := by
  rw [parse, hread]
  simp only [hglobals, hboughs]
  rfl

def shorten (c : Container) (l : Layout) (k : Nat) : Container :=
  { c with code := c.code.extract 0 (k - l.codeAt), size := k }

theorem read_shorten {c : Container} (hl : Laid c.version c.globals c.boughs l b.toList)
    (hcode : c.code.toList = b.toList.drop l.codeAt) (hk : k ≤ b.size)
    (hle : l.needed c.version c.globals c.boughs ≤ k) :
    ∃ d, read (.start (b.extract 0 k)) = .ok (c.shorten l k) d := by
  have hcut := hl.cut (by simpa using hk) hle
  rw [← toList_cut] at hcut
  refine read_iff_laid.2 ⟨l, hcut, ?_, (size_cut hk).symm⟩
  apply Array.toList_inj.1
  rw [toList_extract_from, toList_cut, List.drop_take]
  simp only [shorten, Array.toList_extract, List.extract_eq_take_drop, hcode, List.drop_zero,
    Nat.sub_zero]

/-- No beginning of a container is read as one with fewer or other symbols. -/
theorem parse_beginning {c : Container} (h : parse b = .ok c) : ∃ l : Layout,
    (Laid c.version c.globals c.boughs l b.toList ∧
      ∀ l', Laid c.version c.globals c.boughs l' b.toList → l' = l) ∧
    l.needed c.version c.globals c.boughs ≤ b.size ∧
    (∀ k < l.needed c.version c.globals c.boughs,
      ∃ e, parse (b.extract 0 k) = .error e ∧ e.isTruncated = true) ∧
    (∀ k ≤ b.size, l.needed c.version c.globals c.boughs ≤ k →
      if ∀ a ∈ c.boughs, a.entry.toNat ≤ k - l.codeAt then
        parse (b.extract 0 k) = .ok (c.shorten l k)
      else ∃ a ∈ c.boughs,
        parse (b.extract 0 k) = .error (.entryOutOfRange a.name a.entry (k - l.codeAt))) ∧
    ∀ k ≤ b.size, ∀ c', parse (b.extract 0 k) = .ok c' →
      c'.version = c.version ∧ c'.globals = c.globals ∧ c'.boughs = c.boughs := by
  obtain ⟨⟨l, hl, hcode⟩, hdistinct, hentries, -⟩ := parse_iff_formed.1 h
  obtain ⟨-, hglobals, -⟩ := parse_eq_ok_iff.1 h
  have hrefused {k : Nat} (hk : k ≤ b.size) (hlt : k < l.needed c.version c.globals c.boughs) :
      ∃ e, parse (b.extract 0 k) = .error e ∧ e.isTruncated = true :=
    parse_of_refuses (hl.refuses hk hlt)
  have hneeded : l.needed c.version c.globals c.boughs ≤ b.size := by
    by_contra hlt
    obtain ⟨e, he, -⟩ := hrefused (Nat.le_refl _) (Nat.lt_of_not_le hlt)
    rw [Array.extract_size, h] at he
    cases he
  refine ⟨l, ⟨hl, fun l' hl' => hl.unique hl'⟩, hneeded,
    fun k hlt => hrefused (Nat.le_of_lt (Nat.lt_of_lt_of_le hlt hneeded)) hlt, ?_, ?_⟩
  · intro k hk hle
    obtain ⟨d, hread⟩ := read_shorten hl hcode hk hle
    have hsize : (c.shorten l k).code.size = k - l.codeAt := by
      have hlength : c.code.size = b.size - l.codeAt := by
        rw [← Array.length_toList, hcode, List.length_drop, Array.length_toList]
      rw [shorten, Array.size_extract, hlength]
      omega
    split
    · rename_i hin
      refine parse_eq_ok_iff.2 ⟨⟨d, hread⟩, hglobals, ?_⟩
      rw [hsize]
      exact checkBoughs_eq_ok_iff.2 ⟨⟨hdistinct.boughNames, by simp⟩, hin⟩
    · rename_i hout
      have hnames : (c.boughs.map (·.name)).Nodup ∧
          ∀ b ∈ c.boughs, ∀ a ∈ ([] : List Bough), a.name ≠ b.name :=
        ⟨hdistinct.boughNames, by simp⟩
      obtain ⟨a, ha, hcheck⟩ := checkBoughs_of_lt hnames (by simpa using hout)
      exact ⟨a, ha, parse_of_checkBoughs hread hglobals (hsize ▸ hcheck)⟩
  · intro k hk c' hc'
    by_cases hlt : k < l.needed c.version c.globals c.boughs
    · obtain ⟨e, he, -⟩ := hrefused hk hlt
      rw [hc'] at he
      cases he
    · obtain ⟨d, hread⟩ := read_shorten hl hcode hk (Nat.le_of_not_lt hlt)
      obtain ⟨⟨d', hread'⟩, -⟩ := parse_eq_ok_iff.1 hc'
      rw [hread] at hread'
      cases hread'
      exact ⟨rfl, rfl, rfl⟩

theorem truncated_inverted : ∃ c l, parse inverted = .ok c ∧
    Laid c.version c.globals c.boughs l inverted.toList ∧
      31 < l.needed c.version c.globals c.boughs ∧
        ∃ e, parse (inverted.extract 0 31) = .error e ∧ e.isTruncated = true := by
  have h : (parse inverted).toOption.map (·.version) = some .offset := by decide +kernel
  obtain ⟨c, hc, hversion⟩ := Option.map_eq_some_iff.1 h
  rw [Except.toOption_eq_some_iff] at hc
  obtain ⟨l, ⟨hl, -⟩, -, hshort, -⟩ := parse_beginning hc
  have hlt : 31 < l.needed c.version c.globals c.boughs := by
    rw [hversion]
    exact Nat.lt_of_lt_of_le (by decide) (Nat.le_max_left _ _)
  exact ⟨c, l, hc, hl, hlt, hshort 31 hlt⟩

end Container

end Dialogue
