import Dialogue.Proofs.Container.Linking
import Mathlib.Data.List.Basic

/-!
Runs of a builder. The calls made on a builder tell what it holds: the globals and the boughs that
were declared, and, once labels are filled in, the instructions that were written.
-/

namespace Dialogue

namespace Builder

inductive Call where
  | declare (name : String) (isExtern isMutable : Bool)
  | scriptVariable (name : String)
  | constant (name : String)
  | externVariable (name : String)
  | bough (name : String)
  | label
  | bind (label : Nat)
  | line (speaker content : String) (tags : List String)
  | choices (options : List (String × Nat))
  | jump (label : Nat)
  | jumpIfFalse (global : UInt32) (label : Nat)
  | set (global : UInt32) (value : Value)
  | call (function : UInt32) (args : List Value) (dest : Option UInt32)
  | stop

namespace Call

def apply (b : Builder) : Call → Builder
  | declare name isExtern isMutable => b.declare name isExtern isMutable
  | scriptVariable name => b.scriptVariable name
  | constant name => b.constant name
  | externVariable name => b.externVariable name
  | bough name => b.bough name
  | label => b.label
  | bind l => b.bind l
  | line speaker content tags => b.line speaker content tags
  | choices options => b.choices options
  | jump l => b.jump l
  | jumpIfFalse global l => b.jumpIfFalse global l
  | set global value => b.set global value
  | call function args dest => b.call function args dest
  | stop => b.stop

/-- The name of a declared global, whether the host provides it and whether it may change. -/
def declaration? : Call → Option (String × Bool × Bool)
  | declare name isExtern isMutable => some (name, isExtern, isMutable)
  | scriptVariable name => some (name, false, true)
  | constant name => some (name, false, false)
  | externVariable name => some (name, true, true)
  | _ => none

def bough? : Call → Option String
  | bough name => some name
  | _ => none

def bound? : Call → Option Nat
  | bind l => some l
  | _ => none

def instruction? (place : Nat → UInt32) : Call → Option Instruction
  | line speaker content tags => some (.line speaker content tags)
  | choices options =>
    some (.choices (options.map fun (content, l) => ⟨content, [], place l⟩))
  | jump l => some (.jump (place l))
  | jumpIfFalse global l => some (.jumpIfFalse global (place l))
  | set global value => some (.set global value)
  | call function args dest => some (.call function args dest)
  | stop => some .stop
  | _ => none

def labels : Call → List Nat
  | choices options => options.map (·.2)
  | jump l => [l]
  | jumpIfFalse _ l => [l]
  | _ => []

def code (place : Nat → UInt32) (c : Call) : List UInt8 :=
  match c.instruction? place with
  | some i => i.write.bytes
  | none => []

def size (c : Call) : Nat := (c.code fun _ => 0).length

def Written (c : Call) : Prop :=
  ∀ place, (c.code place).length = c.size ∧
    ∀ i, c.instruction? place = some i → i.write = .ofBytes i.write.bytes

end Call

def run (version : FormatVersion) (calls : List Call) : Builder :=
  calls.foldl Call.apply { version := version }

def declarations (calls : List Call) : List (String × Bool × Bool) :=
  calls.filterMap Call.declaration?

def indexed (declarations : List (String × Bool × Bool)) : List GlobalSymbol :=
  declarations.mapIdx fun n (name, isExtern, isMutable) => ⟨name, n.toUInt32, isExtern, isMutable⟩

def globalTable (calls : List Call) : List GlobalSymbol := indexed (declarations calls)

def codeSize (calls : List Call) : Nat := (calls.map Call.size).sum

def boughTableFrom (offset : Nat) : List Call → List Bough
  | [] => []
  | c :: calls =>
    (c.bough?.toList.map fun name => ⟨name, offset.toUInt32⟩) ++
      boughTableFrom (offset + c.size) calls

def boughTable (calls : List Call) : List Bough := boughTableFrom 0 calls

def lastBoundFrom (label offset : Nat) : List Call → Option Nat
  | [] => none
  | c :: calls => (lastBoundFrom label (offset + c.size) calls).or
    (if c.bound? = some label then some offset else none)

def lastBound (calls : List Call) (label : Nat) : Option Nat := lastBoundFrom label 0 calls

def placeOf (calls : List Call) (label : Nat) : UInt32 :=
  ((lastBound calls label).getD 0).toUInt32

def instructions (place : Nat → UInt32) (calls : List Call) : List Instruction :=
  calls.filterMap (Call.instruction? place)

namespace Call

theorem sameTables_apply {b : Builder} {c : Call} {i : Instruction}
    (h : (c.instruction? fun _ => 0) = some i) : SameTables b (c.apply b) := by
  cases c <;> cases h
  case line speaker content tags => exact sameTables_push b (.line speaker content tags)
  case choices options =>
    change SameTables b (b.choices options)
    unfold Builder.choices
    split
    · refine SameTables.trans ?_ (sameTables_appendOptions _ options)
      exact ⟨rfl, rfl, rfl, rfl⟩
    · exact ⟨rfl, rfl, rfl, rfl⟩
  case jump => exact ⟨rfl, rfl, rfl, rfl⟩
  case jumpIfFalse => exact ⟨rfl, rfl, rfl, rfl⟩
  case set global value => exact sameTables_push b (.set global value)
  case call function args dest => exact sameTables_push b (.call function args dest)
  case stop => exact sameTables_push b .stop

theorem version_apply (b : Builder) (c : Call) : (c.apply b).version = b.version := by
  cases c
  case declare | scriptVariable | constant | externVariable | bough | label | bind => rfl
  all_goals exact (sameTables_apply rfl).version

theorem globals_apply (b : Builder) (c : Call) : (c.apply b).globals = b.globals ++
    c.declaration?.toList.map fun (name, isExtern, isMutable) =>
      ⟨name, b.globals.length.toUInt32, isExtern, isMutable⟩ := by
  cases c
  case declare | scriptVariable | constant | externVariable => rfl
  case bough | label | bind => exact (List.append_nil _).symm
  all_goals exact (sameTables_apply rfl).globals.trans (List.append_nil _).symm

theorem boughs_apply (b : Builder) (c : Call) : (c.apply b).boughs = b.boughs ++
    c.bough?.toList.map fun name => ⟨name, b.code.length.toUInt32⟩ := by
  cases c
  case bough => rfl
  case declare | scriptVariable | constant | externVariable | label | bind =>
    exact (List.append_nil _).symm
  all_goals exact (sameTables_apply rfl).boughs.trans (List.append_nil _).symm

theorem labels_apply {b : Builder} {c : Call} {l p : Nat}
    (h : ((c.apply b).labels[l]?).join = some p) :
    (if c.bound? = some l then some b.code.length else none).or (b.labels[l]?).join = some p := by
  cases c
  case label =>
    change ((b.labels ++ [none])[l]?).join = some p at h
    by_cases hl : l < b.labels.length
    · rwa [List.getElem?_append_left hl] at h
    · rw [List.getElem?_append_right (by omega)] at h
      cases hd : l - b.labels.length <;> rw [hd] at h <;> cases h
  case bind l' =>
    change ((b.labels.set l' (some b.code.length))[l]?).join = some p at h
    rw [List.getElem?_set] at h
    by_cases hl : l' = l
    · subst hl
      rw [if_pos rfl] at h
      split at h
      · rw [bound?, if_pos rfl]
        exact h
      · cases h
    · rw [if_neg hl] at h
      rw [bound?, if_neg (by simpa using hl)]
      exact h
  case declare | scriptVariable | constant | externVariable | bough => exact h
  all_goals
    rw [(sameTables_apply rfl).labels] at h
    exact h

theorem Written.of_extends {b b' : Builder} {c : Call} (h : Extends b b' c.labels c.code)
    (hwrite : ∀ place i, c.instruction? place = some i → i.write = .ofBytes i.write.bytes) :
    c.Written := by
  intro place
  refine ⟨?_, hwrite place⟩
  have hsize := h.size place
  rw [h.size fun _ => 0] at hsize
  exact (Nat.add_left_cancel hsize).symm

theorem extends_apply {b : Builder} {c : Call} (h : (c.apply b).error = none) :
    b.error = none ∧ Extends b (c.apply b) c.labels c.code ∧ c.Written := by
  suffices b.error = none ∧ Extends b (c.apply b) c.labels c.code ∧
      ∀ place i, c.instruction? place = some i → i.write = .ofBytes i.write.bytes from
    ⟨this.1, this.2.1, .of_extends this.2.1 this.2.2⟩
  cases c
  case declare | scriptVariable | constant | externVariable | bough | label | bind =>
    exact ⟨h, .refl rfl rfl, fun place i hi => by cases hi⟩
  case jump l =>
    refine ⟨h, (Extends.append b _).trans (.placeholder _ l), fun place i hi => ?_⟩
    cases hi
    rfl
  case jumpIfFalse global l =>
    refine ⟨h, (Extends.append b _).trans (.placeholder _ l), fun place i hi => ?_⟩
    cases hi
    rfl
  case choices options =>
    obtain ⟨herror, code, hwrite, hextends⟩ := choices_spec h
    have hcode : code = (choices options).code := by
      funext place
      rw [Call.code, instruction?]
      simp only [hwrite place]
      rfl
    refine ⟨herror, hcode ▸ hextends, fun place i hi => ?_⟩
    cases hi
    rw [hwrite place]
    rfl
  all_goals
    obtain ⟨herror, hwrite, hextends⟩ := push_spec h
    refine ⟨herror, hextends, fun place i hi => ?_⟩
    cases hi
    exact hwrite

theorem instruction?_congr {place place' : Nat → UInt32} {c : Call}
    (h : ∀ l ∈ c.labels, place l = place' l) : c.instruction? place = c.instruction? place' := by
  cases c
  case choices options =>
    have hoptions : ∀ o ∈ options, place o.2 = place' o.2 := fun o ho =>
      h o.2 (List.mem_map_of_mem ho)
    simp only [instruction?, Option.some.injEq, Instruction.choices.injEq]
    apply List.map_congr_left
    intro o ho
    rw [hoptions o ho]
  case jump l => rw [instruction?, h l (List.mem_singleton.2 rfl)]; rfl
  case jumpIfFalse global l => rw [instruction?, h l (List.mem_singleton.2 rfl)]; rfl
  all_goals rfl

end Call

theorem extends_foldl {b : Builder} {calls : List Call}
    (h : (calls.foldl Call.apply b).error = none) : b.error = none ∧
      Extends b (calls.foldl Call.apply b) (calls.flatMap Call.labels)
        (fun place => calls.flatMap (Call.code place)) ∧ ∀ c ∈ calls, c.Written := by
  induction calls generalizing b with
  | nil => exact ⟨h, .refl rfl rfl, by simp⟩
  | cons c calls ih =>
    obtain ⟨herror, hextends, hwrite⟩ := ih h
    obtain ⟨herror, hextends', hwrite'⟩ := Call.extends_apply herror
    exact ⟨herror, hextends'.trans hextends, List.forall_mem_cons.2 ⟨hwrite', hwrite⟩⟩

theorem version_foldl (b : Builder) (calls : List Call) :
    (calls.foldl Call.apply b).version = b.version := by
  induction calls generalizing b with
  | nil => rfl
  | cons c calls ih => rw [List.foldl_cons, ih, Call.version_apply]

theorem globals_foldl {b : Builder} {before : List (String × Bool × Bool)} (calls : List Call)
    (h : b.globals = indexed before) :
    (calls.foldl Call.apply b).globals = indexed (before ++ declarations calls) := by
  induction calls generalizing b before with
  | nil => rw [declarations, List.filterMap_nil, List.append_nil]; exact h
  | cons c calls ih =>
    have hc : (c.apply b).globals = indexed (before ++ c.declaration?.toList) := by
      rw [Call.globals_apply, h]
      cases c.declaration? with
      | none => exact (List.append_nil _).trans (by rw [Option.toList_none, List.append_nil])
      | some d => simp [indexed]
    rw [List.foldl_cons, ih hc, List.append_assoc]
    congr 2
    cases hd : c.declaration? with
    | none => exact (List.filterMap_cons_none hd).symm
    | some d => exact (List.filterMap_cons_some hd).symm

theorem boughs_foldl {b : Builder} {calls : List Call}
    (h : (calls.foldl Call.apply b).error = none) :
    (calls.foldl Call.apply b).boughs = b.boughs ++ boughTableFrom b.code.length calls := by
  induction calls generalizing b with
  | nil => exact (List.append_nil _).symm
  | cons c calls ih =>
    obtain ⟨herror, -, -⟩ := extends_foldl (b := c.apply b) h
    obtain ⟨-, hextends, -⟩ := Call.extends_apply herror
    rw [List.foldl_cons, ih h, Call.boughs_apply, hextends.size fun _ => 0, boughTableFrom, List.append_assoc]
    rfl

theorem labels_foldl {b : Builder} {calls : List Call} {l p : Nat}
    (h : (calls.foldl Call.apply b).error = none)
    (hp : ((calls.foldl Call.apply b).labels[l]?).join = some p) :
    (lastBoundFrom l b.code.length calls).or (b.labels[l]?).join = some p := by
  induction calls generalizing b with
  | nil => exact hp
  | cons c calls ih =>
    obtain ⟨herror, -, -⟩ := extends_foldl (b := c.apply b) h
    obtain ⟨-, hextends, -⟩ := Call.extends_apply herror
    have hrest := ih h hp
    rw [hextends.size fun _ => 0] at hrest
    change (lastBoundFrom l (b.code.length + c.size) calls).or _ = some p at hrest
    rw [lastBoundFrom]
    cases hlast : lastBoundFrom l (b.code.length + c.size) calls with
    | some q =>
      rw [hlast] at hrest
      exact hrest
    | none =>
      rw [hlast] at hrest
      exact Call.labels_apply hrest

theorem flatMap_code (place : Nat → UInt32) (calls : List Call) :
    calls.flatMap (Call.code place) =
      (instructions place calls).flatMap fun i => i.write.bytes := by
  induction calls with
  | nil => rfl
  | cons c calls ih =>
    rw [List.flatMap_cons, ih, Call.code]
    unfold instructions
    cases h : c.instruction? place with
    | none => rw [List.filterMap_cons_none h]; rfl
    | some i => rw [List.filterMap_cons_some h, List.flatMap_cons]

theorem instructions_congr {place place' : Nat → UInt32} {calls : List Call}
    (h : ∀ c ∈ calls, ∀ l ∈ c.labels, place l = place' l) :
    instructions place calls = instructions place' calls :=
  List.filterMap_congr fun c hc => Call.instruction?_congr (h c hc)

theorem codeSize_eq_length {calls : List Call} (h : ∀ c ∈ calls, c.Written)
    (place : Nat → UInt32) : codeSize calls = (calls.flatMap (Call.code place)).length := by
  rw [codeSize, List.length_flatMap]
  congr 1
  exact List.map_congr_left fun c hc => ((h c hc place).1).symm

def assembled (version : FormatVersion) (calls : List Call) (size : Nat) : Container :=
  ⟨version, globalTable calls, boughTable calls,
    ((instructions (placeOf calls) calls).flatMap fun i => i.write.bytes).toArray, size⟩

theorem read_of_build_run {version : FormatVersion} {calls : List Call} {bytes : Bytes}
    (h : (run version calls).build = .ok bytes) (hsize : bytes.size < UInt64.size) :
    (∃ d, Container.read (.start bytes) = .ok (assembled version calls bytes.size) d) ∧
      (run version calls).code.length = codeSize calls ∧ (∀ c ∈ calls, c.Written) ∧
      ∀ c ∈ calls, ∀ l ∈ c.labels, ∃ p, lastBound calls l = some p := by
  obtain ⟨herror, code, hcode, d, hread⟩ := read_of_build h hsize
  obtain ⟨-, hextends, hwritten⟩ := extends_foldl herror
  obtain ⟨e, he, rfl, hused⟩ := hextends.resolved (by simp [HasRoom]) hcode
  cases he
  have hbound {l p : Nat} (hp : ((run version calls).labels[l]?).join = some p) :
      lastBound calls l = some p := by
    have hlast := labels_foldl herror hp
    change (lastBoundFrom l 0 calls).or none = some p at hlast
    rwa [Option.or_none] at hlast
  have hlabels (c : Call) (hc : c ∈ calls) (l : Nat) (hl : l ∈ c.labels) :
      ∃ p, ((run version calls).labels[l]?).join = some p ∧ lastBound calls l = some p := by
    obtain ⟨p, hp⟩ := hused l (List.mem_flatMap.2 ⟨c, hc, hl⟩)
    exact ⟨p, hp, hbound hp⟩
  have hplaces : instructions (operand (run version calls).labels) calls =
      instructions (placeOf calls) calls := by
    apply instructions_congr
    intro c hc l hl
    obtain ⟨p, hp, hlast⟩ := hlabels c hc l hl
    rw [operand, placeOf, hp, hlast]
  have hversion : (run version calls).version = version := version_foldl _ calls
  have hglobals : (run version calls).globals = indexed ([] ++ declarations calls) :=
    globals_foldl calls rfl
  have hboughs : (run version calls).boughs = boughTable calls := boughs_foldl herror
  refine ⟨⟨d, ?_⟩, ?_, hwritten, fun c hc l hl => ?_⟩
  · rw [hread, hversion, hglobals, hboughs, List.nil_append, List.nil_append, flatMap_code, hplaces]
    rfl
  · rw [codeSize_eq_length hwritten fun _ => 0]
    exact (hextends.size fun _ => 0).trans (Nat.zero_add _)
  · obtain ⟨p, -, hp⟩ := hlabels c hc l hl
    exact ⟨p, hp⟩

end Builder

end Dialogue
