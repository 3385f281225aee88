import Dialogue.Proofs.Container.Assembly
import Mathlib.Data.List.Forall2

namespace Dialogue

def Except.Agree {ε α : Type} (R : α → α → Prop) : Except ε α → Except ε α → Prop
  | .ok x, .ok y => R x y
  | .error e, .error e' => e = e'
  | _, _ => False

namespace Except.Agree

variable {ε α β : Type} {R : α → α → Prop} {S : β → β → Prop} {x y : Except ε α}

theorem bind (h : Agree R x y) {f g : α → Except ε β} (hfg : ∀ a b, x = .ok a → y = .ok b → R a b →
    Agree S (f a) (g b)) : Agree S (x >>= f) (y >>= g) := by
  cases x with
  | ok a =>
    cases y with
    | ok b => exact hfg a b rfl rfl h
    | error e => cases h
  | error e =>
    cases y with
    | ok b => cases h
    | error e' => exact h

theorem of_ok {a : α} (h : Agree R (.ok a) y) : ∃ b, y = .ok b ∧ R a b := by
  cases y with
  | ok b => exact ⟨b, rfl, h⟩
  | error e => cases h

end Except.Agree

namespace Writing

structure SameSize (w w' : Writing) : Prop where
  error : w'.error = w.error
  length : w'.bytes.length = w.bytes.length

theorem SameSize.refl (w : Writing) : SameSize w w := ⟨rfl, rfl⟩

theorem SameSize.append {w w' v v' : Writing} (hw : SameSize w w') (hv : SameSize v v') :
    SameSize (w ++ v) (w' ++ v') := by
  change SameSize (w.append v) (w'.append v')
  unfold Writing.append
  rw [hw.error]
  cases w.error with
  | some e => exact hw
  | none => exact ⟨hv.error, by simp [hw.length, hv.length]⟩

theorem SameSize.concat {α : Type} {write : α → Writing} {xs ys : List α}
    (h : List.Forall₂ (fun x y => SameSize (write x) (write y)) xs ys) :
    SameSize (concat (xs.map write)) (concat (ys.map write)) := by
  induction h with
  | nil => exact .refl _
  | cons hxy _ ih => exact hxy.append ih

theorem SameSize.result {w w' : Writing} (h : SameSize w w') :
    Except.Agree (fun bytes bytes' => bytes'.length = bytes.length) w.result w'.result := by
  unfold Writing.result
  rw [h.error]
  cases w.error with
  | some e => rfl
  | none => exact h.length

end Writing

namespace Builder

variable {k : Nat} {b b' : Builder}

/-- The second builder has been used like the first one, but has `k` more bytes of code. -/
structure Shifted (k : Nat) (b b' : Builder) : Prop where
  version : b'.version = b.version
  globals : b'.globals = b.globals
  boughs : List.Forall₂ (fun x y => x.name = y.name) b.boughs b'.boughs
  labels : b'.labels.map Option.isSome = b.labels.map Option.isSome
  fixups : b'.fixups.map (·.2) = b.fixups.map (·.2)
  error : b'.error = b.error
  code : b'.code.length = b.code.length + k
  room : b.HasRoom
  room' : b'.HasRoom

namespace Shifted

theorem refl (hb : b.HasRoom) : Shifted 0 b b :=
  ⟨rfl, rfl, List.forall₂_same.mpr fun _ _ => rfl, rfl, rfl, rfl, rfl, hb, hb⟩

theorem behind (hb : b.HasRoom) (bytes : List UInt8) : Shifted bytes.length b (b.append bytes) :=
  ⟨rfl, rfl, List.forall₂_same.mpr fun _ _ => rfl, rfl, rfl, rfl, List.length_append, hb,
    (Extends.append b bytes).room hb⟩

theorem append (h : Shifted k b b') (bytes : List UInt8) :
    Shifted k (b.append bytes) (b'.append bytes) :=
  { h with
    code := by simp only [Builder.append, List.length_append, h.code]; omega
    room := (Extends.append b bytes).room h.room
    room' := (Extends.append b' bytes).room h.room' }

theorem placeholder (h : Shifted k b b') (label : Nat) :
    Shifted k (b.placeholder label) (b'.placeholder label) :=
  { h with
    fixups := by simp only [Builder.placeholder, List.map_append, h.fixups, List.map_cons]
    code := by simp only [Builder.placeholder, List.length_append, h.code]; omega
    room := (Extends.placeholder b label).room h.room
    room' := (Extends.placeholder b' label).room h.room' }

theorem fail (h : Shifted k b b') (e : FormatError) : Shifted k (b.fail e) (b'.fail e) :=
  { h with error := by simp only [Builder.fail, h.error] }

theorem push (h : Shifted k b b') (i : Instruction) : Shifted k (b.push i) (b'.push i) := by
  unfold Builder.push
  cases i.encode with
  | ok bytes => exact h.append bytes
  | error e => exact h.fail e

theorem emit (h : Shifted k b b') (i : Instruction) : Shifted k (b.emit i).2 (b'.emit i).2 :=
  h.append i.write.bytes

theorem declare (h : Shifted k b b') (name : String) (isExtern isMutable : Bool) :
    Shifted k (b.declare name isExtern isMutable) (b'.declare name isExtern isMutable) :=
  { h with globals := by simp only [Builder.declare, h.globals] }

theorem appendOptions (h : Shifted k b b') (options : List (String × Nat)) :
    Shifted k (b.appendOptions options) (b'.appendOptions options) := by
  induction options generalizing b b' with
  | nil => exact h
  | cons option options ih =>
    rw [Builder.appendOptions, Builder.appendOptions]
    cases (Writing.sized 2 option.1).result with
    | ok bytes => exact ih ((h.append _).placeholder _)
    | error e => exact h.fail e

theorem choices (h : Shifted k b b') (options : List (String × Nat)) :
    Shifted k (b.choices options) (b'.choices options) := by
  unfold Builder.choices
  split
  · exact (h.append _).appendOptions options
  · exact h.fail _

theorem apply (h : Shifted k b b') (c : Call) : Shifted k (c.apply b) (c.apply b') := by
  cases c with
  | declare name isExtern isMutable => exact h.declare name isExtern isMutable
  | scriptVariable name => exact h.declare name false true
  | constant name => exact h.declare name false false
  | externVariable name => exact h.declare name true true
  | bough name =>
    exact { h with boughs := List.rel_append h.boughs (.cons rfl .nil) }
  | label =>
    exact { h with labels := by simp only [Call.apply, Builder.label, List.map_append, h.labels] }
  | bind label =>
    exact { h with labels := by simp only [Call.apply, Builder.bind, List.map_set, h.labels]; rfl }
  | line speaker content tags => exact h.push (.line speaker content tags)
  | choices options => exact h.choices options
  | jump label => exact (h.append _).placeholder label
  | jumpIfFalse global label => exact (h.append _).placeholder label
  | set global value => exact h.push (.set global value)
  | call function args dest => exact h.push (.call function args dest)
  | stop => exact h.push .stop

theorem linked {labels labels' : List (Option Nat)}
    (hlabels : labels'.map Option.isSome = labels.map Option.isSome) {code code' : List UInt8}
    {fixups fixups' : List (Nat × Nat)} (hfixups : fixups'.map (·.2) = fixups.map (·.2)) :
    Except.Agree (fun _ _ => True) (linked labels code fixups) (linked labels' code' fixups') := by
  have hbound (label : Nat) :
      (labels'[label]?).join.isSome = (labels[label]?).join.isSome := by
    have h := congrArg (fun bs : List Bool => bs[label]?) hlabels
    simp only [List.getElem?_map] at h
    cases hl : labels[label]? <;> cases hl' : labels'[label]? <;> simp_all
  induction fixups generalizing code code' fixups' with
  | nil =>
    obtain rfl : fixups' = [] := by simpa using hfixups
    trivial
  | cons f fixups ih =>
    obtain ⟨place, label⟩ := f
    obtain ⟨⟨place', label'⟩, fixups', rfl⟩ :
        ∃ f' rest, fixups' = f' :: rest := by
      cases fixups' with
      | nil => cases hfixups
      | cons f' rest => exact ⟨f', rest, rfl⟩
    obtain ⟨rfl, hrest⟩ : label' = label ∧ fixups'.map (·.2) = fixups.map (·.2) := by
      simpa using hfixups
    have hlabel := hbound label'
    rw [Builder.linked, Builder.linked]
    cases hl : (labels[label']?).join <;> cases hl' : (labels'[label']?).join <;>
      simp only [hl, hl', Option.isSome_none, Option.isSome_some, reduceCtorEq] at hlabel
    · rfl
    · exact ih hrest

theorem build (h : Shifted k b b') :
    Except.Agree (fun bytes bytes' => bytes'.size = bytes.size + k) b.build b'.build := by
  have hglobals : (writeTable writeGlobal b'.globals).result =
      (writeTable writeGlobal b.globals).result := by rw [h.globals]
  have hboughs : Writing.SameSize (writeTable (writeBough b.version) b.boughs)
      (writeTable (writeBough b.version) b'.boughs) := by
    unfold writeTable
    rw [h.boughs.length_eq]
    refine .append (.refl _) (.concat (h.boughs.imp fun x y hname => ?_))
    unfold writeBough
    rw [hname]
    exact .append (.refl _) ⟨rfl, by simp [Writing.word, Writing.ofBytes, littleEndian_length]⟩
  unfold Builder.build
  rw [h.error, h.version, hglobals]
  cases b.error with
  | some e => rfl
  | none =>
    refine .bind (linked h.labels h.fixups) fun code code' hcode hcode' _ => ?_
    cases (writeTable writeGlobal b.globals).result with
    | error e => rfl
    | ok globals =>
      refine .bind hboughs.result fun boughs boughs' _ _ hlength => ?_
      have hsize := length_of_linked h.room hcode
      have hsize' := length_of_linked h.room' hcode'
      change _ = _
      simp only [List.size_toArray, List.length_append, hlength, hsize, hsize', h.code]
      omega

end Shifted

inductive Action where
  | call (c : Call)
  | emit (i : Instruction)

def Action.apply (b : Builder) : Action → Builder
  | call c => c.apply b
  | emit i => (b.emit i).2

def perform (b : Builder) (actions : List Action) : Builder := actions.foldl Action.apply b

theorem Shifted.perform (h : Shifted k b b') (actions : List Action) :
    Shifted k (b.perform actions) (b'.perform actions) := by
  induction actions generalizing b b' with
  | nil => exact h
  | cons action actions ih =>
    cases action with
    | call c => exact ih (h.apply c)
    | emit i => exact ih (h.emit i)

theorem hasRoom_perform (version : FormatVersion) (actions : List Action) :
    (perform { version := version } actions).HasRoom :=
  ((Shifted.refl (by simp [HasRoom])).perform actions).room

theorem write_bytes_ne_nil (i : Instruction) : i.write.bytes ≠ [] := by
  change [i.opcode.toByte] ++ _ ≠ []
  simp

/-- An instruction with an oversized operand is emitted. What was written of it stays, while a call
leaves the code as it is and fails the builder. Whatever is done later, the container is larger by
these bytes, or it cannot be built with them or without. -/
theorem emit_error_stays {version : FormatVersion} {actions : List Action} {i : Instruction}
    {e : FormatError} (h : ((perform { version := version } actions).emit i).1 = .error e) :
    let b := perform { version := version } actions
    b.push i = b.fail e ∧ (b.emit i).2 = b.append i.write.bytes ∧ 0 < i.write.bytes.length ∧
      ∀ later, Except.Agree
        (fun bytes bytes' => bytes'.size = bytes.size + i.write.bytes.length)
        (b.perform later).build ((b.emit i).2.perform later).build := by
  intro b
  have hencode : i.encode = .error e := by
    change i.encode.map _ = _ at h
    cases hi : i.encode with
    | ok bytes =>
      rw [hi] at h
      cases h
    | error e' =>
      rw [hi] at h
      cases h
      rfl
  refine ⟨?_, rfl, List.length_pos_of_ne_nil (write_bytes_ne_nil i), fun later => ?_⟩
  · rw [push, hencode]
  · exact ((Shifted.behind (hasRoom_perform version actions) _).perform later).build

/-- A line with too many tags leaves eight bytes in front of the end. -/
theorem emit_error_stays_tags : ∃ e bytes bytes',
    let b := perform { version := .offset } [.call (.bough "main")]
    let i := Instruction.line "a" "hi" (List.replicate 256 "t")
    (b.emit i).1 = .error e ∧ (b.perform [.call .stop]).build = .ok bytes ∧
      ((b.emit i).2.perform [.call .stop]).build = .ok bytes' ∧ bytes'.size = bytes.size + 8 := by
  let b := perform { version := .offset } [.call (.bough "main")]
  let i := Instruction.line "a" "hi" (List.replicate 256 "t")
  have hemit : (b.emit i).1 = .error (.oversized "256 operands") := by decide +kernel
  have hlength : i.write.bytes.length = 8 := by decide +kernel
  have hclean : (b.perform [.call .stop]).build.toOption.isSome = true := by decide +kernel
  obtain ⟨-, -, -, hlater⟩ := emit_error_stays hemit
  have hagree : Except.Agree _ (b.perform [.call .stop]).build
      ((b.emit i).2.perform [.call .stop]).build := hlater [.call .stop]
  obtain ⟨bytes, hbytes⟩ := Option.isSome_iff_exists.mp hclean
  rw [Except.toOption_eq_some_iff] at hbytes
  rw [hbytes] at hagree
  obtain ⟨bytes', hbytes', hsize⟩ := hagree.of_ok
  exact ⟨_, bytes, bytes', hemit, hbytes, hbytes', hlength ▸ hsize⟩

end Builder

end Dialogue
