import Dialogue.Proofs.Container.Assembly
import Dialogue.Proofs.Container.Sweep
import Mathlib.Data.List.Nodup

namespace Dialogue

namespace Builder

theorem codeSize_append (before after : List Call) :
    codeSize (before ++ after) = codeSize before + codeSize after := by
  simp only [codeSize, List.map_append, List.sum_append]

theorem exists_prefix_of_lastBoundFrom {l offset p : Nat} {calls : List Call}
    (h : lastBoundFrom l offset calls = some p) :
    ∃ before after, calls = before ++ after ∧ p = offset + codeSize before := by
  induction calls generalizing offset with
  | nil => cases h
  | cons c calls ih =>
    rw [lastBoundFrom] at h
    cases hrest : lastBoundFrom l (offset + c.size) calls with
    | some q =>
      rw [hrest] at h
      cases h
      obtain ⟨before, after, rfl, rfl⟩ := ih hrest
      exact ⟨c :: before, after, rfl, by simp [codeSize, Nat.add_assoc]⟩
    | none =>
      rw [hrest] at h
      split at h
      · cases h
        exact ⟨[], c :: calls, rfl, rfl⟩
      · cases h

theorem exists_prefix_of_mem_boughTableFrom {offset : Nat} {calls : List Call} {b : Bough}
    (h : b ∈ boughTableFrom offset calls) :
    ∃ before after, calls = before ++ after ∧ b.entry = (offset + codeSize before).toUInt32 := by
  induction calls generalizing offset with
  | nil => cases h
  | cons c calls ih =>
    rcases List.mem_append.1 h with h | h
    · obtain ⟨name, -, rfl⟩ := List.mem_map.1 h
      exact ⟨[], c :: calls, rfl, rfl⟩
    · obtain ⟨before, after, rfl, hentry⟩ := ih h
      refine ⟨c :: before, after, rfl, ?_⟩
      rw [hentry, codeSize, codeSize, List.map_cons, List.sum_cons, Nat.add_assoc]

def Call.Within : Call → Prop
  | .set _ v => v.Storable
  | .call _ args _ => ∀ v ∈ args, v.Storable
  | _ => True

theorem Call.within_instruction {place : Nat → UInt32} {c : Call} {i : Instruction}
    (hc : c.Within) (h : c.instruction? place = some i) : i.Within := by
  cases c <;> cases h
  case set global v => exact hc
  case call function args dest => exact hc
  all_goals trivial

section Assembled

variable {version : FormatVersion} {calls : List Call} {size : Nat}

def decoded (calls : List Call) : List Instruction :=
  (instructions (placeOf calls) calls).map (·.normal)

theorem mem_decoded {i : Instruction} : i ∈ decoded calls ↔
    ∃ c ∈ calls, ∃ j, c.instruction? (placeOf calls) = some j ∧ j.normal = i := by
  simp only [decoded, instructions, List.mem_map, List.mem_filterMap]
  tauto

theorem decoded_eq (h : ∀ function args, .call function args (some discard) ∉ calls) :
    decoded calls = instructions (placeOf calls) calls := by
  unfold decoded
  rw [List.map_congr_left, List.map_id']
  intro i hi
  obtain ⟨c, hc, hi⟩ := List.mem_filterMap.1 hi
  apply Instruction.normal_eq_self
  rintro function args rfl
  cases c <;> cases hi
  exact h function args hc

theorem encodable_decoded (hwritten : ∀ c ∈ calls, c.Written) (hwithin : ∀ c ∈ calls, c.Within)
    {i : Instruction} (h : i ∈ decoded calls) : Container.Encodable i := by
  obtain ⟨c, hc, j, hj, rfl⟩ := mem_decoded.1 h
  refine ⟨?_, Instruction.storable_normal (Call.within_instruction (hwithin c hc) hj)⟩
  rw [Instruction.write_normal]
  exact (hwritten c hc _).2 j hj

theorem code_assembled : (assembled version calls size).code.toList =
    (decoded calls).flatMap (·.write.bytes) := by
  rw [decoded, List.flatMap_map]
  simp only [Instruction.write_normal]
  rfl

theorem size_assembled (hwritten : ∀ c ∈ calls, c.Written) :
    (assembled version calls size).code.size = codeSize calls := by
  rw [codeSize_eq_length hwritten (placeOf calls), flatMap_code]
  rfl

theorem boundary_prefix (hwritten : ∀ c ∈ calls, c.Written) (hwithin : ∀ c ∈ calls, c.Within)
    (hsize : codeSize calls < UInt32.size) {before after : List Call} (h : calls = before ++ after) :
    (assembled version calls size).Boundary (codeSize before) := by
  let place := placeOf calls
  have hsplit : decoded calls = (instructions place before).map (·.normal) ++
      (instructions place after).map (·.normal) := by
    rw [decoded, ← List.map_append, instructions, instructions, instructions,
      ← List.filterMap_append, ← h]
  have hbefore : codeSize before =
      (((instructions place before).map (·.normal)).flatMap (·.write.bytes)).length := by
    rw [codeSize_eq_length (fun c hc => hwritten c (h ▸ List.mem_append_left _ hc)) place,
      flatMap_code, List.flatMap_map]
    simp only [Instruction.write_normal]
  rw [hbefore]
  apply Container.boundary_of_append
  · rwa [size_assembled hwritten]
  · rw [code_assembled, hsplit]
  · rw [← hsplit]
    exact fun i hi => encodable_decoded hwritten hwithin hi

theorem entry_toNat (hsize : codeSize calls < UInt32.size) {b : Bough}
    (h : b ∈ boughTable calls) :
    ∃ before after, calls = before ++ after ∧ b.entry.toNat = codeSize before := by
  obtain ⟨before, after, rfl, hentry⟩ := exists_prefix_of_mem_boughTableFrom h
  refine ⟨before, after, rfl, ?_⟩
  rw [codeSize_append] at hsize
  rw [hentry, Nat.zero_add]
  exact UInt32.toNat_ofNat_of_lt' (Nat.lt_of_le_of_lt (Nat.le_add_right _ _) hsize)

theorem boundary_of_mem_boughTable (hwritten : ∀ c ∈ calls, c.Written)
    (hwithin : ∀ c ∈ calls, c.Within) (hsize : codeSize calls < UInt32.size) {b : Bough}
    (h : b ∈ boughTable calls) : (assembled version calls size).Boundary b.entry.toNat := by
  obtain ⟨before, after, hcalls, hentry⟩ := entry_toNat hsize h
  rw [hentry]
  exact boundary_prefix hwritten hwithin hsize hcalls

theorem boundary_of_lastBound (hwritten : ∀ c ∈ calls, c.Written)
    (hwithin : ∀ c ∈ calls, c.Within) (hsize : codeSize calls < UInt32.size) {l p : Nat}
    (h : lastBound calls l = some p) :
    (placeOf calls l).toNat = p ∧ (assembled version calls size).Boundary p := by
  obtain ⟨before, after, hcalls, hp⟩ := exists_prefix_of_lastBoundFrom h
  rw [Nat.zero_add] at hp
  refine ⟨?_, hp ▸ boundary_prefix hwritten hwithin hsize hcalls⟩
  rw [hcalls, codeSize_append] at hsize
  rw [placeOf, h, Option.getD_some]
  exact UInt32.toNat_ofNat_of_lt' (by omega)

theorem names_indexed (ds : List (String × Bool × Bool)) :
    (indexed ds).map (·.name) = ds.map (·.1) := by
  apply List.ext_getElem
  · simp [indexed]
  · intro n h h'
    simp [indexed]

theorem indices_indexed (ds : List (String × Bool × Bool)) :
    (indexed ds).map (·.index) = (List.range ds.length).map Nat.toUInt32 := by
  apply List.ext_getElem
  · simp [indexed]
  · intro n h h'
    simp [indexed]

theorem nodup_indices_iff {n : Nat} :
    ((List.range n).map Nat.toUInt32).Nodup ↔ n ≤ UInt32.size := by
  rw [List.nodup_map_iff_inj_on List.nodup_range]
  simp only [List.mem_range]
  constructor
  · intro h
    by_contra hn
    have hwrap : (0 : Nat).toUInt32 = UInt32.size.toUInt32 := rfl
    have hzero := h 0 (by omega) UInt32.size (by omega) hwrap
    cases hzero
  · intro hn x hx y hy h
    have hx' : x.toUInt32.toNat = x := UInt32.toNat_ofNat_of_lt' (by omega)
    have hy' : y.toUInt32.toNat = y := UInt32.toNat_ofNat_of_lt' (by omega)
    rw [← hx', h, hy']

theorem checkGlobals_indexed_iff {ds : List (String × Bool × Bool)} :
    Container.checkGlobals [] (indexed ds) = .ok () ↔
      (ds.map (·.1)).Nodup ∧ ds.length ≤ UInt32.size := by
  rw [Container.checkGlobals_eq_ok_iff, names_indexed, indices_indexed, nodup_indices_iff]
  simp

theorem names_boughTable (calls : List Call) :
    (boughTable calls).map (·.name) = calls.filterMap Call.bough? := by
  have hfrom (offset : Nat) :
      (boughTableFrom offset calls).map (·.name) = calls.filterMap Call.bough? := by
    induction calls generalizing offset with
    | nil => rfl
    | cons c calls ih =>
      rw [boughTableFrom, List.map_append, ih]
      cases h : c.bough? with
      | none => rw [List.filterMap_cons_none h]; rfl
      | some name => rw [List.filterMap_cons_some h]; rfl
  exact hfrom 0

theorem checkBoughs_boughTable (hsize : codeSize calls < UInt32.size)
    (hnames : (calls.filterMap Call.bough?).Nodup) :
    Container.checkBoughs (codeSize calls) [] (boughTable calls) = .ok () := by
  apply Container.checkBoughs_eq_ok_iff.2
  rw [names_boughTable]
  refine ⟨⟨hnames, by simp⟩, fun b hb => ?_⟩
  obtain ⟨before, after, rfl, hentry⟩ := entry_toNat hsize hb
  rw [hentry, codeSize_append]
  exact Nat.le_add_right _ _

end Assembled

theorem parse_run {version : FormatVersion} {calls : List Call} {bytes : Bytes}
    (hglobals : ((declarations calls).map (·.1)).Nodup)
    (hboughs : (calls.filterMap Call.bough?).Nodup)
    (hcode : (run version calls).code.length < UInt32.size)
    (hcount : (declarations calls).length ≤ UInt32.size) (hsize : bytes.size < UInt64.size)
    (hbuild : (run version calls).build = .ok bytes) :
    Container.parse bytes = .ok (assembled version calls bytes.size) := by
  obtain ⟨hread, hlength, hwritten, -⟩ := read_of_build_run hbuild hsize
  rw [hlength] at hcode
  apply Container.parse_eq_ok_iff.2
  refine ⟨hread, checkGlobals_indexed_iff.2 ⟨hglobals, hcount⟩, ?_⟩
  rw [size_assembled hwritten]
  exact checkBoughs_boughTable hcode hboughs

/-- Whatever was built is parsed again, in both layouts: the globals and the boughs as they were
declared, and code that sweeps to the instructions that were written, each label replaced by the
place where it was bound last. Indices of globals are words of 32 bits and offsets in a header are
words of 64 bits, hence the bounds on their numbers. -/
theorem parse_of_build {version : FormatVersion} {calls : List Call} {bytes : Bytes}
    (hglobals : ((declarations calls).map (·.1)).Nodup)
    (hboughs : (calls.filterMap Call.bough?).Nodup) (hwithin : ∀ c ∈ calls, c.Within)
    (hdest : ∀ function args, .call function args (some discard) ∉ calls)
    (hcode : (run version calls).code.length < UInt32.size)
    (hcount : (declarations calls).length ≤ UInt32.size) (hsize : bytes.size < UInt64.size)
    (hbuild : (run version calls).build = .ok bytes) :
    ∃ c steps, Container.parse bytes = .ok c ∧ c.version = version ∧
      c.globals = globalTable calls ∧ c.boughs = boughTable calls ∧
      c.sweep = ⟨steps, none⟩ ∧ c.Listed 0 steps c.code.size ∧
      steps.map (·.2) = instructions (placeOf calls) calls ∧
      (∀ call ∈ calls, ∀ l ∈ call.labels, ∃ p, lastBound calls l = some p ∧
        (placeOf calls l).toNat = p ∧ c.Boundary p) ∧
      (∀ b ∈ c.boughs, c.Boundary b.entry.toNat) ∧
      ∀ version' bytes' c', (run version' calls).build = .ok bytes' →
        bytes'.size < UInt64.size → Container.parse bytes' = .ok c' →
          c'.globals = c.globals ∧ c'.boughs = c.boughs ∧ c'.code = c.code := by
  have hparse := parse_run hglobals hboughs hcode hcount hsize hbuild
  obtain ⟨-, hlength, hwritten, hbound⟩ := read_of_build_run hbuild hsize
  rw [hlength] at hcode
  let c := assembled version calls bytes.size
  have hencodable (i : Instruction) (hi : i ∈ decoded calls) : Container.Encodable i :=
    encodable_decoded hwritten hwithin hi
  have hwords : c.code.size < UInt32.size := by rwa [size_assembled hwritten]
  have hlisted : c.Listed 0 (Container.stepsFrom 0 (decoded calls)) c.code.size :=
    Container.listed_of_encodings hwords code_assembled hencodable
  refine ⟨c, _, hparse, rfl, rfl, rfl, Container.sweep_of_listed hlisted, hlisted, ?_, ?_, ?_, ?_⟩
  · rw [Container.map_snd_stepsFrom, decoded_eq hdest]
  · intro call hcall l hl
    obtain ⟨p, hp⟩ := hbound call hcall l hl
    exact ⟨p, hp, boundary_of_lastBound hwritten hwithin hcode hp⟩
  · exact fun b hb => boundary_of_mem_boughTable hwritten hwithin hcode hb
  · intro version' bytes' c' hbuild' hsize' hparse'
    obtain ⟨⟨d', hread'⟩, -⟩ := read_of_build_run hbuild' hsize'
    obtain ⟨⟨d, hc⟩, -⟩ := Container.parse_eq_ok_iff.1 hparse'
    rw [hread'] at hc
    cases hc
    exact ⟨rfl, rfl, rfl⟩

def greeting : List Call :=
  [.externVariable "mood", .scriptVariable "met", .bough "start", .label, .label, .bind 1,
    .choices [("Hi", 0), ("Bye", 1)], .bind 0, .set 1 (.bool true), .jumpIfFalse 1 1, .bind 1,
    .stop]

theorem within_greeting : ∀ c ∈ greeting, c.Within := by
  have hbool : (Value.bool true).Storable := by
    rw [Value.Storable, Value.storableBy_iff_fitsBy]
    exact (Value.fits_leaf (by decide)).2 (by decide)
  simp [greeting, Call.Within, hbool]

theorem build_greeting : ∃ bytes, (run .offset greeting).build = .ok bytes ∧ bytes.size = 118 := by
  have h : ((run .offset greeting).build.map Array.size) = .ok 118 := by decide +kernel
  obtain ⟨bytes, hbuild, hsize⟩ := Except.map_eq_ok_iff.1 h
  exact ⟨bytes, hbuild, hsize.symm⟩

theorem parse_build_greeting :
    ∃ bytes, Container.parse bytes = .ok (assembled .offset greeting 118) := by
  obtain ⟨bytes, hbuild, hsize⟩ := build_greeting
  have hparse := parse_run (by decide) (by decide) (by decide +kernel) (by decide)
    (by rw [hsize]; decide) hbuild
  exact ⟨bytes, hsize ▸ hparse⟩

theorem parse_greeting : ∃ bytes c steps, (run .offset greeting).build = .ok bytes ∧
    Container.parse bytes = .ok c ∧ c.globals.map (·.name) = ["mood", "met"] ∧
      c.sweep = ⟨steps, none⟩ ∧ steps.map (·.2) =
        [.choices [⟨"Hi", [], 21⟩, ⟨"Bye", [], 37⟩], .set 1 (.bool true), .jumpIfFalse 1 37,
          .stop] := by
  obtain ⟨bytes, hbuild, hsize⟩ := build_greeting
  obtain ⟨c, steps, hparse, -, hglobals, -, hsweep, -, hsteps, -⟩ :=
    parse_of_build (by decide) (by decide) within_greeting (by simp [greeting])
      (by decide +kernel) (by decide) (by rw [hsize]; decide) hbuild
  refine ⟨bytes, c, steps, hbuild, hparse, ?_, hsweep, ?_⟩
  · rw [hglobals]
    rfl
  · rw [hsteps]
    rfl

section Excess

variable {version : FormatVersion} {calls : List Call} {bytes : Bytes}

theorem indexed_append_cons (ds : List (String × Bool × Bool)) (d : String × Bool × Bool)
    (rest : List (String × Bool × Bool)) : ∃ after,
      indexed (ds ++ d :: rest) = indexed ds ++ ⟨d.1, ds.length.toUInt32, d.2.1, d.2.2⟩ :: after := by
  unfold indexed
  rw [List.mapIdx_append, List.mapIdx_cons, Nat.zero_add]
  exact ⟨_, rfl⟩

theorem parse_of_excess (hglobals : ((declarations calls).map (·.1)).Nodup)
    (hcount : UInt32.size < (declarations calls).length) (hsize : bytes.size < UInt64.size)
    (hbuild : (run version calls).build = .ok bytes) :
    Container.parse bytes = .error (.duplicateGlobalIndex 0) := by
  obtain ⟨⟨d, hread⟩, -⟩ := read_of_build_run hbuild hsize
  obtain ⟨front, excess, rest, hsplit, hlength⟩ : ∃ front excess rest,
      declarations calls = front ++ excess :: rest ∧ front.length = UInt32.size := by
    refine ⟨(declarations calls).take UInt32.size, (declarations calls)[UInt32.size],
      (declarations calls).drop (UInt32.size + 1), ?_, List.length_take_of_le (Nat.le_of_lt hcount)⟩
    rw [List.getElem_cons_drop, List.take_append_drop]
  obtain ⟨after, htable⟩ := indexed_append_cons front excess rest
  rw [hsplit, List.map_append, List.map_cons, List.nodup_append] at hglobals
  obtain ⟨hnames, -, hexcess⟩ := hglobals
  have hfront : Container.checkGlobals [] (indexed front) = .ok () :=
    checkGlobals_indexed_iff.mpr ⟨hnames, Nat.le_of_eq hlength⟩
  have hname : ¬(indexed front).reverse.any (fun h => h.name == excess.1) = true := by
    rw [List.any_reverse, List.any_eq_true]
    rintro ⟨g, hg, heq⟩
    have hmem : g.name ∈ front.map (·.1) := names_indexed front ▸ List.mem_map_of_mem hg
    exact hexcess _ hmem _ (List.mem_cons_self ..) (eq_of_beq heq)
  have hindex : (indexed front).reverse.any (fun h => h.index == front.length.toUInt32) = true := by
    have hzero : (0 : Nat).toUInt32 ∈ (indexed front).map (·.index) := by
      rw [indices_indexed, hlength]
      exact List.mem_map_of_mem (List.mem_range.mpr (by decide))
    obtain ⟨g, hg, hzero⟩ := List.mem_map.mp hzero
    rw [List.any_reverse, List.any_eq_true, hlength]
    exact ⟨g, hg, beq_iff_eq.mpr hzero⟩
  have hcheck : Container.checkGlobals [] (globalTable calls) = .error (.duplicateGlobalIndex 0) := by
    rw [globalTable, hsplit, htable, Container.checkGlobals_append hfront, List.append_nil,
      Container.checkGlobals, if_neg hname, if_pos hindex, hlength]
    rfl
  rw [Container.parse, hread]
  change (Container.checkGlobals [] (globalTable calls) >>= _) = _
  rw [hcheck]
  rfl

end Excess

def crowd (count : Nat) : List Call :=
  (List.range count).map fun n => .scriptVariable (toString n)

theorem declarations_crowd (count : Nat) :
    declarations (crowd count) = (List.range count).map fun n => (toString n, false, true) := by
  rw [declarations, crowd, List.filterMap_map]
  exact congrFun (List.filterMap_eq_map (f := fun n : Nat => (toString n, false, true))) _

theorem toString_injective : Function.Injective (toString : Nat → String) := by
  intro m n h
  have hdigits : Nat.toDigits 10 m = Nat.toDigits 10 n := by
    rw [← Nat.toList_repr, ← Nat.toList_repr, ← Nat.toString_eq_repr, h, Nat.toString_eq_repr]
  rw [← Nat.ofDigitChars_ten_toDigits (n := m), hdigits, Nat.ofDigitChars_ten_toDigits]

theorem nodup_crowd (count : Nat) : ((declarations (crowd count)).map (·.1)).Nodup := by
  rw [declarations_crowd, List.map_map]
  exact List.nodup_range.map toString_injective

theorem utf8ByteSize_toString_le {n k : Nat} (hk : 0 < k) (hn : n < 10 ^ k) :
    (toString n).utf8ByteSize ≤ k := by
  have hascii : ∀ c ∈ Nat.toDigits 10 n, c.utf8Size = 1 := by
    intro c hc
    have hdigit : c.isDigit = true := Nat.isDigit_of_mem_toDigits (by decide) (by decide) hc
    rw [Char.utf8Size_eq_one_iff]
    simp only [Char.isDigit, Bool.and_eq_true, decide_eq_true_eq] at hdigit
    exact UInt32.le_trans hdigit.2 (by decide)
  rw [Nat.toString_eq_ofList_toDigits, utf8ByteSize_ofList hascii]
  exact (Nat.length_toDigits_le_iff (by decide) hk).mpr hn

theorem run_crowd (version : FormatVersion) (count : Nat) :
    run version (crowd count) = { version, globals := globalTable (crowd count) } := by
  have hfoldl (b : Builder) (names : List String) :
      ∃ gs, (names.map Call.scriptVariable).foldl Call.apply b = { b with globals := gs } := by
    induction names generalizing b with
    | nil => exact ⟨_, rfl⟩
    | cons name names ih => exact ih (b.scriptVariable name)
  obtain ⟨gs, hrun⟩ := hfoldl { version } ((List.range count).map toString)
  rw [List.map_map] at hrun
  have hempty : ({ version } : Builder).globals = indexed [] := rfl
  have hglobals := globals_foldl (crowd count) hempty
  change run version (crowd count) = _ at hrun
  change (run version (crowd count)).globals = _ at hglobals
  rw [hrun] at hglobals ⊢
  rw [globalTable, ← List.nil_append (declarations _), ← hglobals]

theorem length_writeGlobal {g : GlobalSymbol} (hname : g.name.utf8ByteSize < 256) :
    (writeGlobal g).error = none ∧ (writeGlobal g).bytes.length = g.name.utf8ByteSize + 7 := by
  have hsized : Writing.sized 1 g.name =
      .ofBytes (littleEndian 1 g.name.utf8ByteSize ++ utf8 g.name) :=
    Writing.sized_eq_ofBytes_iff.mpr ⟨hname, rfl⟩
  rw [writeGlobal, hsized]
  refine ⟨rfl, ?_⟩
  change ((_ ++ _) ++ (littleEndian 4 _ ++ [_, _])).length = _
  simp only [List.length_append, littleEndian_length, utf8_length, List.length_cons, List.length_nil]
  omega

theorem length_writeTable {gs : List GlobalSymbol} (hnames : ∀ g ∈ gs, g.name.utf8ByteSize ≤ 10) :
    ∃ table, writeTable writeGlobal gs = .ofBytes table ∧ table.length ≤ 17 * gs.length + 8 := by
  have hwritten (g : GlobalSymbol) (hg : g ∈ gs) :=
    length_writeGlobal (Nat.lt_of_le_of_lt (hnames g hg) (by decide))
  have hrows : .concat (gs.map writeGlobal) =
      Writing.ofBytes (gs.flatMap fun g => (writeGlobal g).bytes) :=
    Writing.concat_map_eq_ofBytes_iff.mpr ⟨rfl, fun g hg => (hwritten g hg).1⟩
  have hlength : (gs.flatMap fun g => (writeGlobal g).bytes).length ≤ 17 * gs.length := by
    clear hrows
    induction gs with
    | nil => exact Nat.le_refl _
    | cons g gs ih =>
      obtain ⟨hname, hnames⟩ := List.forall_mem_cons.mp hnames
      obtain ⟨⟨-, hrow⟩, hwritten⟩ := List.forall_mem_cons.mp hwritten
      have := ih hnames hwritten
      rw [List.flatMap_cons, List.length_append, List.length_cons, hrow]
      omega
  refine ⟨_, by rw [writeTable, hrows, Writing.ofBytes_append], ?_⟩
  rw [List.length_append, littleEndian_length]
  omega

theorem build_crowd {count : Nat} (hcount : count ≤ UInt32.size + 1) :
    ∃ bytes, (run .sequential (crowd count)).build = .ok bytes ∧ bytes.size < UInt64.size := by
  have hnames : ∀ g ∈ globalTable (crowd count), g.name.utf8ByteSize ≤ 10 := by
    intro g hg
    have hname : g.name ∈ (declarations (crowd count)).map (·.1) :=
      names_indexed (declarations (crowd count)) ▸ List.mem_map_of_mem hg
    rw [declarations_crowd, List.map_map] at hname
    obtain ⟨n, hn, hname⟩ := List.mem_map.mp hname
    have hlt : n < 10 ^ 10 := by
      have := List.mem_range.mp hn
      have : UInt32.size + 1 ≤ 10 ^ 10 := by decide
      omega
    rw [← hname]
    exact utf8ByteSize_toString_le (by decide) hlt
  have hlength : (globalTable (crowd count)).length = count := by
    simp [globalTable, indexed, declarations_crowd]
  obtain ⟨table, htable, hsize⟩ := length_writeTable hnames
  let bytes := (header .sequential table.length 8 ++ (table ++ (littleEndian 8 0 ++ []))).toArray
  have hbuild : (run .sequential (crowd count)).build = .ok bytes := by
    rw [run_crowd, build, htable]
    rfl
  have hbytes : bytes.size = table.length + 16 := by
    simp only [bytes, List.size_toArray, List.length_append, littleEndian_length, header, magic,
      List.length_cons, List.length_nil]
    omega
  have hroom : 17 * (UInt32.size + 1) + 24 < UInt64.size := by decide
  exact ⟨bytes, hbuild, by omega⟩

theorem not_parse_crowd : ∃ bytes,
    ((declarations (crowd (UInt32.size + 1))).map (·.1)).Nodup ∧
      ((crowd (UInt32.size + 1)).filterMap Call.bough?).Nodup ∧
      (∀ c ∈ crowd (UInt32.size + 1), c.Within) ∧
      (∀ function args, .call function args (some discard) ∉ crowd (UInt32.size + 1)) ∧
      (run .sequential (crowd (UInt32.size + 1))).code.length < UInt32.size ∧
      (run .sequential (crowd (UInt32.size + 1))).build = .ok bytes ∧
      Container.parse bytes = .error (.duplicateGlobalIndex 0) := by
  obtain ⟨bytes, hbuild, hsize⟩ := build_crowd (le_refl (UInt32.size + 1))
  have hcalls {P : Call → Prop} (h : ∀ name, P (.scriptVariable name)) (count : Nat) :
      ∀ c ∈ crowd count, P c := by
    intro c hc
    obtain ⟨n, -, rfl⟩ := List.mem_map.mp hc
    exact h _
  have hboughs : (crowd (UInt32.size + 1)).filterMap Call.bough? = [] :=
    List.filterMap_eq_nil_iff.mpr (hcalls (fun _ => rfl) _)
  have hmany : UInt32.size < (declarations (crowd (UInt32.size + 1))).length := by
    rw [declarations_crowd, List.length_map, List.length_range]
    exact Nat.lt_succ_self _
  refine ⟨bytes, nodup_crowd _, ?_, hcalls (fun _ => trivial) _, ?_, ?_, hbuild,
    parse_of_excess (nodup_crowd _) hmany hsize hbuild⟩
  · rw [hboughs]
    exact .nil
  · intro function args hcall
    exact absurd rfl (hcalls (P := fun c => c ≠ .call function args (some discard)) (fun _ => nofun) _ _ hcall)
  · rw [run_crowd]
    decide

end Builder

end Dialogue
