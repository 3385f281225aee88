import Dialogue.Number
import Dialogue.Proofs.Reading

/-!
Requests to a cursor, one after the other. The cursor never leaves its bytes. A request that fails
leaves it where it was, unless it is for a text whose bytes are there and are no text: these have
been taken by then.
-/

namespace Dialogue

namespace Read

theorem string_eq (size : Nat) (c : Cursor) : Read.string size c = match Read.take size c with
    | .ok bytes d => match ofUtf8? bytes with
      | some s => .ok s d
      | none => .error (.invalidUtf8 c.position) d
    | .error e d => .error e d := by
  change EStateM.bind (Read.take size) _ c = _
  unfold EStateM.bind
  cases Read.take size c with
  | error e d => rfl
  | ok bytes d =>
    dsimp only
    cases ofUtf8? bytes <;> rfl

end Read

namespace Cursor

/-- What can be asked of a cursor. To `restart` is to put a new cursor on the same bytes in its
place. -/
inductive Request where
  | restart (position : Nat)
  | seek (position : Nat)
  | take (count : Nat)
  | u8
  | u16
  | u32
  | u64
  | number
  | string (size : Nat)
deriving DecidableEq

namespace Request

abbrev Answer : Request → Type
  | restart _ | seek _ => Unit
  | take _ => Bytes
  | u8 => UInt8
  | u16 | u32 | u64 => Nat
  | number => Number
  | string _ => String

def read : (r : Request) → Read r.Answer
  | restart position => fun c =>
    match Cursor.at? c.bytes position with
    | .ok d => .ok () d
    | .error e => .error e c
  | seek position => Read.seek position
  | take count => Read.take count
  | u8 => Read.u8
  | u16 => Read.u16
  | u32 => Read.u32
  | u64 => Read.u64
  | number => do return ⟨(← Read.u64).toUInt64⟩
  | string size => Read.string size

/-- Where a request leads from a position, if the bytes reach that far. -/
def target : Request → Nat → Nat
  | restart position, _ | seek position, _ => position
  | take count, p | string count, p => p + count
  | u8, p => p + 1
  | u16, p => p + 2
  | u32, p => p + 4
  | u64, p | number, p => p + 8

end Request

structure Step where
  request : Request
  before : Cursor
  failure : Option DecodeError
  after : Cursor

def Request.answered {α : Type} (r : Request) (c : Cursor) :
    EStateM.Result DecodeError Cursor α → Step
  | .ok _ d => ⟨r, c, none, d⟩
  | .error e d => ⟨r, c, some e, d⟩

def Request.step (r : Request) (c : Cursor) : Step := r.answered c (r.read c)

def serve (c : Cursor) : List Request → List Step
  | [] => []
  | r :: requests => r.step c :: serve (r.step c).after requests

/-- A cursor that is to get to `target` gets there, or it stays for want of bytes. -/
inductive Reaches {α : Type} (c : Cursor) (target : Nat) : EStateM.Result DecodeError Cursor α → Prop
  | reached (x : α) : target ≤ c.bytes.size → Reaches c target (.ok x ⟨c.bytes, target⟩)
  | short (offset : Nat) : c.bytes.size < target →
    Reaches c target (.error (.unexpectedEnd offset (target - c.bytes.size)) c)

namespace Reaches

variable {α β : Type} {c : Cursor}

theorem seek (c : Cursor) (position : Nat) : Reaches c position (Read.seek position c) := by
  change Reaches c position ((ite (position ≤ c.bytes.size) _ _ : Read Unit) c)
  by_cases h : position ≤ c.bytes.size
  · rw [if_pos h]
    exact .reached () h
  · rw [if_neg h]
    exact .short _ (Nat.lt_of_not_le h)

theorem take (c : Cursor) (count : Nat) (hc : c.position ≤ c.bytes.size) :
    Reaches c (c.position + count) (Read.take count c) := by
  by_cases h : c.position + count ≤ c.bytes.size
  · rw [Read.take_of_le h]
    exact .reached _ h
  · have hshort := Nat.lt_of_not_le h
    rw [Read.take_of_lt hc hshort]
    exact .short _ hshort

theorem map {target : Nat} {r : Read α} (h : Reaches c target (r c)) (f : α → β) :
    Reaches c target ((do return f (← r) : Read β) c) := by
  change Reaches c target (EStateM.bind r _ c)
  unfold EStateM.bind
  generalize r c = result at h
  cases h with
  | reached x hx => exact .reached (f x) hx
  | short offset hx => exact .short offset hx

theorem word (c : Cursor) (count : Nat) (hc : c.position ≤ c.bytes.size) :
    Reaches c (c.position + count) (Read.word count c) :=
  (take c count hc).map fun bytes => ofLittleEndian bytes.toList

theorem restart (c : Cursor) (position : Nat) :
    Reaches c position ((Request.restart position).read c) := by
  have h := seek (.start c.bytes) position
  change Reaches c position (match Cursor.at? c.bytes position with
    | .ok d => .ok () d
    | .error e => .error e c)
  unfold Cursor.at?
  generalize Read.seek position (.start c.bytes) = result at h
  cases h with
  | reached _ hx => exact .reached () hx
  | short offset hx => exact .short offset hx

end Reaches

inductive Outcome : Step → Prop
  | reached (r : Request) (c : Cursor) : r.target c.position ≤ c.bytes.size →
    Outcome ⟨r, c, none, ⟨c.bytes, r.target c.position⟩⟩
  | short (r : Request) (c : Cursor) (offset : Nat) : c.bytes.size < r.target c.position →
    Outcome ⟨r, c, some (.unexpectedEnd offset (r.target c.position - c.bytes.size)), c⟩
  | unreadable (size : Nat) (c : Cursor) : c.position + size ≤ c.bytes.size →
    ofUtf8? (c.bytes.extract c.position (c.position + size)) = none →
    Outcome ⟨.string size, c, some (.invalidUtf8 c.position), ⟨c.bytes, c.position + size⟩⟩

namespace Outcome

theorem of_reaches {r : Request} {c : Cursor} (h : Reaches c (r.target c.position) (r.read c)) :
    Outcome (r.step c) := by
  unfold Request.step
  generalize r.read c = result at h
  cases h with
  | reached x hx => exact .reached r c hx
  | short offset hx => exact .short r c offset hx

theorem string (c : Cursor) (size : Nat) (hc : c.position ≤ c.bytes.size) :
    Outcome ((Request.string size).step c) := by
  change Outcome ((Request.string size).answered c (Read.string size c))
  rw [Read.string_eq]
  by_cases h : c.position + size ≤ c.bytes.size
  · rw [Read.take_of_le h]
    dsimp only
    cases htext : ofUtf8? (c.bytes.extract c.position (c.position + size)) with
    | some s => exact .reached (.string size) c h
    | none => exact .unreadable size c h htext
  · have hshort := Nat.lt_of_not_le h
    rw [Read.take_of_lt hc hshort]
    exact .short (.string size) c c.position hshort

theorem step (r : Request) (c : Cursor) (hc : c.position ≤ c.bytes.size) :
    Outcome (r.step c) := by
  cases r with
  | restart position => exact of_reaches (.restart c position)
  | seek position => exact of_reaches (.seek c position)
  | take count => exact of_reaches (.take c count hc)
  | u8 => exact of_reaches ((Reaches.word c 1 hc).map Nat.toUInt8)
  | u16 => exact of_reaches (.word c 2 hc)
  | u32 => exact of_reaches (.word c 4 hc)
  | u64 => exact of_reaches (.word c 8 hc)
  | number => exact of_reaches ((Reaches.word c 8 hc).map fun n => Number.mk n.toUInt64)
  | string size => exact .string c size hc

theorem keeps {s : Step} (h : Outcome s) (hbefore : s.before.position ≤ s.before.bytes.size) :
    s.after.bytes = s.before.bytes ∧ s.after.position ≤ s.before.bytes.size := by
  cases h with
  | reached r c hx => exact ⟨rfl, hx⟩
  | short r c offset hx => exact ⟨rfl, hbefore⟩
  | unreadable size c hx htext => exact ⟨rfl, hx⟩

theorem step_before (r : Request) (c : Cursor) : (r.step c).before = c := by
  unfold Request.step
  cases r.read c <;> rfl

theorem of_mem_serve {requests : List Request} {c : Cursor} (hc : c.position ≤ c.bytes.size)
    {s : Step} (hs : s ∈ c.serve requests) :
    s.before.bytes = c.bytes ∧ s.before.position ≤ c.bytes.size ∧ Outcome s := by
  induction requests generalizing c with
  | nil => cases hs
  | cons r requests ih =>
    have hstep := step r c hc
    rcases List.mem_cons.mp hs with rfl | hs
    · rw [step_before]
      exact ⟨rfl, hc, hstep⟩
    · -- the cursor behind the first request is within the same bytes
      have hkeeps := hstep.keeps
      rw [step_before] at hkeeps
      obtain ⟨hbytes, hposition⟩ := hkeeps hc
      have hrest := ih (by rwa [hbytes]) hs
      rwa [hbytes] at hrest

end Outcome

theorem ofUtf8?_extract_self (bytes : Bytes) (p : Nat) : ofUtf8? (bytes.extract p p) = some "" := by
  apply ofUtf8?_eq_some_iff.mpr
  simp [utf8]

/-- Whatever is asked of a cursor, it stays within its bytes. A request that does not fail leads to
its target, and one that fails leaves the cursor where it was, except in one case: the bytes of a
text have been taken before they turn out to be no text. -/
theorem stays_unless_unreadable {bytes : Bytes} {requests : List Request} {s : Step}
    (hs : s ∈ (start bytes).serve requests) :
    s.after.bytes = bytes ∧ s.after.position ≤ bytes.size ∧
      s.after.position + s.after.remaining = bytes.size ∧
      (s.failure = none → s.after.position = s.request.target s.before.position) ∧
      ∀ e, s.failure = some e →
        (s.after = s.before ∧ bytes.size < s.request.target s.before.position ∧
          ∃ offset, e = .unexpectedEnd offset (s.request.target s.before.position - bytes.size)) ∨
        ∃ size, s.request = .string size ∧ s.after.position = s.before.position + size ∧
          s.before.position < s.after.position ∧ e = .invalidUtf8 s.before.position ∧
            ofUtf8? (bytes.extract s.before.position s.after.position) = none := by
  obtain ⟨hbytes, hbefore, houtcome⟩ := Outcome.of_mem_serve (Nat.zero_le _) hs
  change s.before.bytes = bytes at hbytes
  subst hbytes
  obtain ⟨hafter, hposition⟩ := houtcome.keeps hbefore
  refine ⟨hafter, hposition, ?_, ?_⟩
  · rw [remaining, hafter]
    omega
  clear hs
  cases houtcome with
  | reached r c hx => exact ⟨fun _ => rfl, nofun⟩
  | short r c offset hx =>
    refine ⟨nofun, ?_⟩
    rintro e ⟨⟩
    exact .inl ⟨rfl, hx, offset, rfl⟩
  | unreadable size c hx htext =>
    refine ⟨nofun, ?_⟩
    rintro e ⟨⟩
    have hsize : size ≠ 0 := by
      rintro rfl
      rw [Nat.add_zero, ofUtf8?_extract_self] at htext
      cases htext
    refine .inr ⟨size, rfl, rfl, ?_, rfl, htext⟩
    change c.position < c.position + size
    omega

/-- After a letter, two bytes are taken for a text and left behind, though they are none. -/
theorem stays_unless_unreadable_letter :
    let s : Step := ⟨.string 2, ⟨#[0x61, 0xff, 0xfe], 1⟩, some (.invalidUtf8 1),
      ⟨#[0x61, 0xff, 0xfe], 3⟩⟩
    s ∈ (start #[0x61, 0xff, 0xfe]).serve [.string 1, .string 2, .u8] ∧
      s.after.position + s.after.remaining = 3 ∧ s.before.position < s.after.position := by
  intro s
  have hs : s ∈ (start #[0x61, 0xff, 0xfe]).serve [.string 1, .string 2, .u8] := by
    apply List.mem_cons_of_mem
    exact List.mem_cons_self ..
  obtain ⟨-, -, hremaining, -, hfailure⟩ := stays_unless_unreadable hs
  refine ⟨hs, hremaining, ?_⟩
  obtain ⟨-, hshort, -⟩ | ⟨-, -, -, hmoved, -⟩ := hfailure _ rfl
  · exact absurd hshort (by decide)
  · exact hmoved

end Cursor

end Dialogue
