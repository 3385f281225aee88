import Dialogue.Container.Format
import Mathlib.Algebra.Ring.Nat
import Mathlib.Tactic.Common

/-!
What readers accept. A reader is described by a relation between its answers and the bytes that
they are read from; the relation of a composed reader is composed of those of its parts.
-/

namespace Dialogue

variable {ε α β : Type}

def Accepts (r : EStateM ε Cursor α) (W : α → List UInt8 → Prop) : Prop :=
  ∀ (b : Bytes) (p : Nat), p ≤ b.size → ∀ x c,
    r ⟨b, p⟩ = .ok x c ↔ ∃ e, W x e ∧ e <+: b.toList.drop p ∧ c = ⟨b, p + e.length⟩

theorem le_size_of_isPrefix {b : Bytes} {p : Nat} {e : List UInt8} (hp : p ≤ b.size)
    (h : e <+: b.toList.drop p) : p + e.length ≤ b.size := by
  have hle := h.length_le
  have hb : b.toList.length = b.size := Array.length_toList
  rw [List.length_drop, hb] at hle
  omega

theorem append_isPrefix_drop_iff {xs e f : List UInt8} {p : Nat} :
    e ++ f <+: xs.drop p ↔ e <+: xs.drop p ∧ f <+: xs.drop (p + e.length) := by
  rw [← List.drop_drop]
  constructor
  · rintro ⟨t, ht⟩
    rw [← ht, List.append_assoc, List.drop_left]
    exact ⟨List.prefix_append _ _, List.prefix_append _ _⟩
  · rintro ⟨⟨s, hs⟩, h⟩
    rw [← hs, List.drop_left] at h
    obtain ⟨t, ht⟩ := h
    exact ⟨t, by rw [List.append_assoc, ht, hs]⟩

theorem length_le_length_flatMap {encode : α → List UInt8} {n : Nat} {xs : List α}
    (h : ∀ x ∈ xs, n ≤ (encode x).length) : xs.length * n ≤ (xs.flatMap encode).length := by
  induction xs with
  | nil => simp
  | cons x xs ih =>
    obtain ⟨hx, hxs⟩ := List.forall_mem_cons.1 h
    have := ih hxs
    rw [List.length_cons, List.flatMap_cons, List.length_append, Nat.succ_mul]
    omega

theorem Except.bind_eq_ok_iff {r : Except ε α} {k : α → Except ε β} {y : β} :
    (r >>= k) = .ok y ↔ ∃ x, r = .ok x ∧ k x = .ok y := by
  cases r <;> simp [bind, Except.bind]

theorem Except.map_eq_ok_iff {r : Except ε α} {f : α → β} {y : β} :
    r.map f = .ok y ↔ ∃ x, r = .ok x ∧ y = f x := by
  cases r <;> simp [Except.map, eq_comm]

theorem Except.toOption_eq_some_iff {r : Except ε α} {x : α} :
    r.toOption = some x ↔ r = .ok x := by
  cases r <;> simp [Except.toOption]

theorem bind_eq_ok_iff {r : EStateM ε Cursor α} {k : α → EStateM ε Cursor β} {c c' : Cursor}
    {y : β} : (r >>= k) c = .ok y c' ↔ ∃ x d, r c = .ok x d ∧ k x d = .ok y c' := by
  change EStateM.bind r k c = _ ↔ _
  unfold EStateM.bind
  cases h : r c <;> simp

namespace Accepts

theorem congr {r : EStateM ε Cursor α} {W V : α → List UInt8 → Prop} (h : Accepts r W)
    (hWV : ∀ x e, W x e ↔ V x e) : Accepts r V := by
  intro b p hp x c
  rw [h b p hp]
  exact exists_congr fun e => and_congr_left fun _ => hWV x e

theorem read {r : EStateM ε Cursor α} {W : α → List UInt8 → Prop} (h : Accepts r W) {b : Bytes}
    {p : Nat} {x : α} {e : List UInt8} (hW : W x e) (hp : p ≤ b.size)
    (he : e <+: b.toList.drop p) : r ⟨b, p⟩ = .ok x ⟨b, p + e.length⟩ :=
  (h b p hp x _).2 ⟨e, hW, he, rfl⟩

theorem pure (a : α) : Accepts (ε := ε) (Pure.pure a) fun x e => x = a ∧ e = [] := by
  intro b p hp x c
  change EStateM.Result.ok a _ = _ ↔ _
  constructor
  · rintro ⟨⟩
    exact ⟨[], ⟨rfl, rfl⟩, List.nil_prefix, rfl⟩
  · rintro ⟨e, ⟨rfl, rfl⟩, -, rfl⟩
    rfl

theorem refuse (e : ε) : Accepts (throw e : EStateM ε Cursor α) fun _ _ => False := by
  intro b p hp x c
  change EStateM.Result.error e _ = _ ↔ _
  simp

theorem bind {r : EStateM ε Cursor α} {k : α → EStateM ε Cursor β}
    {W : α → List UInt8 → Prop} {V : α → β → List UInt8 → Prop} (hr : Accepts r W)
    (hk : ∀ x, Accepts (k x) (V x)) :
    Accepts (r >>= k) fun y e => ∃ x e₁ e₂, W x e₁ ∧ V x y e₂ ∧ e = e₁ ++ e₂ := by
  intro b p hp y c
  rw [bind_eq_ok_iff]
  constructor
  · rintro ⟨x, d, hx, hy⟩
    obtain ⟨e₁, hW, h₁, rfl⟩ := (hr b p hp x d).1 hx
    obtain ⟨e₂, hV, h₂, rfl⟩ := (hk x b _ (le_size_of_isPrefix hp h₁) y c).1 hy
    refine ⟨e₁ ++ e₂, ⟨x, e₁, e₂, hW, hV, rfl⟩, append_isPrefix_drop_iff.2 ⟨h₁, h₂⟩, ?_⟩
    rw [List.length_append, Nat.add_assoc]
  · rintro ⟨e, ⟨x, e₁, e₂, hW, hV, rfl⟩, h, rfl⟩
    obtain ⟨h₁, h₂⟩ := append_isPrefix_drop_iff.1 h
    refine ⟨x, _, hr.read hW hp h₁, ?_⟩
    rw [(hk x).read hV (le_size_of_isPrefix hp h₁) h₂, List.length_append, Nat.add_assoc]

theorem map {r : EStateM ε Cursor α} {W : α → List UInt8 → Prop} (hr : Accepts r W) (f : α → β) :
    Accepts (do return f (← r)) fun y e => ∃ x, W x e ∧ y = f x := by
  apply (hr.bind fun x => pure (f x)).congr
  intro y e
  constructor
  · rintro ⟨x, e₁, _, hW, ⟨rfl, rfl⟩, rfl⟩
    exact ⟨x, by rwa [List.append_nil], rfl⟩
  · rintro ⟨x, hW, rfl⟩
    exact ⟨x, e, [], hW, ⟨rfl, rfl⟩, (List.append_nil e).symm⟩

theorem guard {c : Prop} [Decidable c] {e : ε} {k : Unit → EStateM ε Cursor α}
    {V : α → List UInt8 → Prop} (hk : Accepts (k ()) V) :
    Accepts (if c then throw e >>= k else k ()) fun x b => ¬ c ∧ V x b := by
  by_cases h : c
  · simp only [h, ↓reduceIte, not_true_eq_false, false_and]
    exact ((refuse e).bind fun _ => hk).congr fun x b => by simp
  · simp only [h, ↓reduceIte, not_false_eq_true, true_and]
    exact hk

theorem many {r : EStateM ε Cursor α} {f : Nat → EStateM ε Cursor (List α)}
    {encode : α → List UInt8} {F : α → Prop} (hr : Accepts r fun x e => e = encode x ∧ F x)
    (hzero : f 0 = return []) (hsucc : ∀ n, f (n + 1) = do return (← r) :: (← f n)) (count : Nat) :
    Accepts (f count) fun xs e => xs.length = count ∧ e = xs.flatMap encode ∧ ∀ x ∈ xs, F x := by
  induction count with
  | zero =>
    rw [hzero]
    apply (pure []).congr
    intro xs e
    constructor
    · rintro ⟨rfl, rfl⟩
      exact ⟨rfl, rfl, by simp⟩
    · rintro ⟨hlen, rfl, -⟩
      rw [List.eq_nil_of_length_eq_zero hlen]
      exact ⟨rfl, rfl⟩
  | succ count ih =>
    rw [hsucc]
    apply (hr.bind fun x => ih.map fun xs => x :: xs).congr
    intro xs e
    constructor
    · rintro ⟨x, _, _, ⟨rfl, hx⟩, ⟨xs, ⟨rfl, rfl, hxs⟩, rfl⟩, rfl⟩
      exact ⟨rfl, rfl, List.forall_mem_cons.2 ⟨hx, hxs⟩⟩
    · rintro ⟨hlen, rfl, h⟩
      obtain ⟨x, xs, rfl⟩ := List.exists_cons_of_length_eq_add_one hlen
      obtain ⟨hx, hxs⟩ := List.forall_mem_cons.1 h
      exact ⟨x, _, _, ⟨rfl, hx⟩, ⟨xs, ⟨Nat.succ.inj hlen, rfl, hxs⟩, rfl⟩, rfl⟩

theorem position {k : Nat → Read β} {V : β → List UInt8 → Prop} (hk : ∀ n, Accepts (k n) V) :
    Accepts (Read.position >>= k) V := by
  intro b p hp y c
  exact hk p b p hp y c

theorem part {r : Read α} {W : α → List UInt8 → Prop} (hr : Accepts r W) (part : Section) :
    Accepts (part.read r) W := by
  intro b p hp x c
  rw [← hr b p hp]
  unfold Section.read
  cases r ⟨b, p⟩ <;> simp

end Accepts

theorem littleEndian_length (count n : Nat) : (littleEndian count n).length = count := by
  induction count generalizing n with
  | zero => rfl
  | succ count ih => rw [littleEndian, List.length_cons, ih]

theorem ofLittleEndian_littleEndian_mod (count n : Nat) :
    ofLittleEndian (littleEndian count n) = n % 256 ^ count := by
  induction count generalizing n with
  | zero => rw [littleEndian, ofLittleEndian, Nat.pow_zero, Nat.mod_one]
  | succ count ih =>
    rw [littleEndian, ofLittleEndian, ih, Nat.pow_succ', Nat.mod_mul, Nat.toUInt8,
      UInt8.toNat_ofNat']

theorem ofLittleEndian_littleEndian {count n : Nat} (h : n < 256 ^ count) :
    ofLittleEndian (littleEndian count n) = n := by
  rw [ofLittleEndian_littleEndian_mod, Nat.mod_eq_of_lt h]

theorem littleEndian_ofLittleEndian (bytes : List UInt8) :
    littleEndian bytes.length (ofLittleEndian bytes) = bytes := by
  induction bytes with
  | nil => rfl
  | cons b rest ih =>
    have hb := b.toNat_lt
    have hmod : (b.toNat + 256 * ofLittleEndian rest) % 256 = b.toNat := by omega
    have hdiv : (b.toNat + 256 * ofLittleEndian rest) / 256 = ofLittleEndian rest := by omega
    rw [List.length_cons, ofLittleEndian, littleEndian, hdiv, ih, Nat.toUInt8]
    congr 1
    apply UInt8.toNat_inj.1
    rw [UInt8.toNat_ofNat', hmod]

theorem littleEndian_mod (count n : Nat) :
    littleEndian count (n % 256 ^ count) = littleEndian count n := by
  have h := littleEndian_ofLittleEndian (littleEndian count n)
  rwa [littleEndian_length, ofLittleEndian_littleEndian_mod] at h

theorem ofLittleEndian_lt (bytes : List UInt8) : ofLittleEndian bytes < 256 ^ bytes.length := by
  induction bytes with
  | nil => exact Nat.one_pos
  | cons b rest ih =>
    have hb := b.toNat_lt
    rw [ofLittleEndian, List.length_cons, Nat.pow_succ]
    omega

theorem ofUtf8?_eq_some_iff {bytes : Bytes} {s : String} :
    ofUtf8? bytes = some s ↔ bytes.toList = utf8 s := by
  unfold ofUtf8? String.fromUTF8? utf8
  constructor
  · intro h
    split at h
    · rw [← Option.some.inj h]
      rfl
    · cases h
  · intro h
    have hs : (⟨bytes⟩ : ByteArray) = s.toByteArray :=
      ByteArray.ext (Array.toList_inj.1 h)
    rw [hs, dif_pos s.isValidUTF8]
    rfl

theorem utf8_length (s : String) : (utf8 s).length = s.utf8ByteSize := rfl

theorem utf8ByteSize_ofList {cs : List Char} (h : ∀ c ∈ cs, c.utf8Size = 1) :
    (String.ofList cs).utf8ByteSize = cs.length := by
  induction cs with
  | nil => rfl
  | cons c cs ih =>
    obtain ⟨hc, hcs⟩ := List.forall_mem_cons.mp h
    have hsplit : String.ofList (c :: cs) = String.singleton c ++ String.ofList cs := by
      rw [String.singleton_eq_ofList, ← String.ofList_append]
      rfl
    rw [hsplit, String.utf8ByteSize_append, String.utf8ByteSize_singleton, hc, ih hcs,
      List.length_cons, Nat.add_comm]

namespace Read

theorem take_of_le {c : Cursor} {count : Nat} (h : c.position + count ≤ c.bytes.size) :
    Read.take count c = .ok (c.bytes.extract c.position (c.position + count))
      ⟨c.bytes, c.position + count⟩ := by
  change (ite (count ≤ c.bytes.size - c.position) _ _ : Read Bytes) c = _
  rw [if_pos (by omega)]
  rfl

theorem take_of_lt {c : Cursor} {count : Nat} (hc : c.position ≤ c.bytes.size)
    (h : c.bytes.size < c.position + count) : Read.take count c =
      .error (.unexpectedEnd c.position (c.position + count - c.bytes.size)) c := by
  have hneeded : c.position + count - c.bytes.size = count - (c.bytes.size - c.position) := by
    omega
  change (ite (count ≤ c.bytes.size - c.position) _ _ : Read Bytes) c = _
  rw [if_neg (by omega), hneeded]
  rfl

end Read

namespace Accepts

theorem take (count : Nat) :
    Accepts (Read.take count) fun x e => x.toList = e ∧ e.length = count := by
  intro b p hp x c
  have hb : b.toList.length = b.size := Array.length_toList
  have htake : (b.extract p (p + count)).toList = (b.toList.drop p).take count := by
    rw [Array.toList_extract, List.extract_eq_take_drop, Nat.add_sub_cancel_left]
  by_cases h : p + count ≤ b.size
  · have hlen : ((b.toList.drop p).take count).length = count := by
      rw [List.length_take, List.length_drop, hb]
      omega
    rw [Read.take_of_le h, EStateM.Result.ok.injEq]
    constructor
    · rintro ⟨rfl, rfl⟩
      exact ⟨_, ⟨rfl, by rw [htake, hlen]⟩, htake ▸ List.take_prefix _ _, by rw [htake, hlen]⟩
    · rintro ⟨e, ⟨rfl, rfl⟩, he, rfl⟩
      refine ⟨?_, rfl⟩
      apply Array.toList_inj.1
      rw [htake, List.prefix_iff_eq_take.1 he, List.length_take_of_le he.length_le]
  · rw [Read.take_of_lt hp (Nat.lt_of_not_le h)]
    constructor
    · intro hok
      cases hok
    · rintro ⟨e, ⟨-, rfl⟩, he, -⟩
      exact absurd (le_size_of_isPrefix hp he) h

theorem word (count : Nat) :
    Accepts (Read.word count) fun n e => e = littleEndian count n ∧ n < 256 ^ count := by
  apply ((take count).map fun x => ofLittleEndian x.toList).congr
  intro n e
  constructor
  · rintro ⟨x, ⟨rfl, rfl⟩, rfl⟩
    exact ⟨(littleEndian_ofLittleEndian _).symm, ofLittleEndian_lt _⟩
  · rintro ⟨rfl, hn⟩
    exact ⟨_, ⟨rfl, littleEndian_length _ _⟩, (ofLittleEndian_littleEndian hn).symm⟩

theorem u8 : Accepts Read.u8 fun x e => e = [x] := by
  apply ((word 1).map Nat.toUInt8).congr
  intro x e
  constructor
  · rintro ⟨n, ⟨rfl, -⟩, rfl⟩
    rfl
  · rintro rfl
    refine ⟨x.toNat, ⟨?_, x.toNat_lt⟩, ?_⟩ <;> simp [littleEndian, Nat.toUInt8]

theorem string (size : Nat) :
    Accepts (Read.string size) fun s e => e = utf8 s ∧ s.utf8ByteSize = size := by
  apply position
  intro offset
  refine Accepts.congr ((take size).bind (V := fun x s e => ofUtf8? x = some s ∧ e = [])
    fun x => ?_) fun s e => ?_
  · cases h : ofUtf8? x with
    | none => exact (refuse (α := String) _).congr fun s e => by simp
    | some t => exact (pure t).congr fun s e => by simp [eq_comm]
  constructor
  · rintro ⟨x, e, _, ⟨rfl, rfl⟩, ⟨hx, rfl⟩, rfl⟩
    rw [List.append_nil, ofUtf8?_eq_some_iff.1 hx]
    exact ⟨rfl, (utf8_length s).symm⟩
  · rintro ⟨rfl, rfl⟩
    exact ⟨(utf8 s).toArray, utf8 s, [], ⟨rfl, utf8_length s⟩,
      ⟨ofUtf8?_eq_some_iff.2 rfl, rfl⟩, (List.append_nil _).symm⟩

end Accepts

end Dialogue
