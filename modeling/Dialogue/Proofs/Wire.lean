import Dialogue.Proofs.Reading
import Dialogue.Value.Buffer

/-!
The binary form of values. A reader answers a value exactly where its encoding stands and the value
is within the format, whatever bytes lie around.
-/

namespace Dialogue

namespace Value

/-- `Within d x v`: inside of `d` collections of `v` lies `x`. -/
inductive Within : Nat → Value → Value → Prop
  | self (v : Value) : Within 0 v v
  | item {d : Nat} {x v : Value} {items : List Value} :
    v ∈ items → Within d x v → Within (d + 1) x (.list items)
  | member {d : Nat} {x v : Value} {members : List Value} :
    v ∈ members → Within d x v → Within (d + 1) x (.set members)
  | key {d : Nat} {x : Value} {e : Value × Value} {entries : List (Value × Value)} :
    e ∈ entries → Within d x e.1 → Within (d + 1) x (.map entries)
  | value {d : Nat} {x : Value} {e : Value × Value} {entries : List (Value × Value)} :
    e ∈ entries → Within d x e.2 → Within (d + 1) x (.map entries)

/-- No value of the list repeats one before it; `same x y` tells that `y`, the later one,
repeats `x`. -/
def Distinct (same : Value → Value → Bool) (vs : List Value) : Prop :=
  vs.Pairwise fun x y => same x y = false

def Regular (same : Value → Value → Bool) : Value → Prop
  | .string s => s.utf8ByteSize < UInt32.size
  | .enum e => e.type.utf8ByteSize < UInt32.size ∧ e.member.utf8ByteSize < UInt32.size
  | .list items => items.length < UInt32.size
  | .set members => members.length ≤ maxUniqueEntries ∧ Distinct same members
  | .map entries => entries.length ≤ maxUniqueEntries ∧ Distinct same (entries.map Prod.fst)
  | _ => True

instance (same : Value → Value → Bool) (vs : List Value) : Decidable (Distinct same vs) :=
  inferInstanceAs (Decidable (vs.Pairwise fun x y => same x y = false))

instance (same : Value → Value → Bool) (v : Value) : Decidable (v.Regular same) :=
  match v with
  | .nil | .bool _ | .number _ => inferInstanceAs (Decidable True)
  | .string s => inferInstanceAs (Decidable (s.utf8ByteSize < UInt32.size))
  | .enum e => inferInstanceAs
    (Decidable (e.type.utf8ByteSize < UInt32.size ∧ e.member.utf8ByteSize < UInt32.size))
  | .list items => inferInstanceAs (Decidable (items.length < UInt32.size))
  | .set members => inferInstanceAs
    (Decidable (members.length ≤ maxUniqueEntries ∧ Distinct same members))
  | .map entries => inferInstanceAs
    (Decidable (entries.length ≤ maxUniqueEntries ∧ Distinct same (entries.map Prod.fst)))

def StorableBy (same : Value → Value → Bool) (v : Value) : Prop :=
  ∀ d x, Within d x v → d ≤ maxDepth ∧ x.Regular same

/-- Within the binary format. A later member or key is compared with each earlier one, which
stands on the left. -/
def Storable (v : Value) : Prop := v.StorableBy fun x y => x == y

def FitsBy (same : Value → Value → Bool) (level : Nat) (v : Value) : Prop :=
  ∀ d x, Within d x v → d < level ∧ x.Regular same

abbrev Fits (level : Nat) (v : Value) : Prop := v.FitsBy (fun x y => x == y) level

variable {same : Value → Value → Bool} {level : Nat}

theorem storableBy_iff_fitsBy {v : Value} : v.StorableBy same ↔ v.FitsBy same (maxDepth + 1) := by
  unfold StorableBy FitsBy
  simp only [Nat.lt_succ_iff]

theorem not_fits_zero (v : Value) : ¬ v.FitsBy same 0 :=
  fun h => Nat.not_lt_zero _ (h 0 v (.self v)).1

theorem FitsBy.regular {v : Value} (h : v.FitsBy same level) : v.Regular same :=
  (h 0 v (.self v)).2

theorem fits_succ {v : Value} (parts : List Value)
    (hself : ∀ d x, Within d x v ↔ d = 0 ∧ x = v ∨ ∃ k, d = k + 1 ∧ ∃ u ∈ parts, Within k x u) :
    v.FitsBy same (level + 1) ↔ v.Regular same ∧ ∀ u ∈ parts, u.FitsBy same level := by
  constructor
  · intro h
    refine ⟨h.regular, fun u hu d x hx => ?_⟩
    obtain ⟨hd, hr⟩ := h (d + 1) x ((hself _ _).2 (.inr ⟨d, rfl, u, hu, hx⟩))
    exact ⟨Nat.lt_of_succ_lt_succ hd, hr⟩
  · rintro ⟨hr, hparts⟩ d x hx
    rcases (hself d x).1 hx with ⟨rfl, rfl⟩ | ⟨k, rfl, u, hu, hk⟩
    · exact ⟨Nat.succ_pos _, hr⟩
    · obtain ⟨hd, hr⟩ := hparts u hu k x hk
      exact ⟨Nat.succ_lt_succ hd, hr⟩

theorem fits_leaf {v : Value} (hv : v.tag ∉ [.list, .set, .map]) :
    v.FitsBy same (level + 1) ↔ v.Regular same := by
  rw [fits_succ []]
  · simp
  · intro d x
    constructor
    · intro h
      cases h with
      | self => exact .inl ⟨rfl, rfl⟩
      | item | member | key | value => simp [tag] at hv
    · rintro (⟨rfl, rfl⟩ | ⟨k, -, u, hu, -⟩)
      · exact .self _
      · cases hu

theorem fits_list {items : List Value} :
    (list items).FitsBy same (level + 1) ↔
      items.length < UInt32.size ∧ ∀ v ∈ items, v.FitsBy same level := by
  apply fits_succ
  intro d x
  constructor
  · rintro (_ | ⟨hv, h⟩)
    · exact .inl ⟨rfl, rfl⟩
    · exact .inr ⟨_, rfl, _, hv, h⟩
  · rintro (⟨rfl, rfl⟩ | ⟨k, rfl, u, hu, h⟩)
    · exact .self _
    · exact .item hu h

theorem fits_set {members : List Value} :
    (set members).FitsBy same (level + 1) ↔
      (members.length ≤ maxUniqueEntries ∧ Distinct same members) ∧
        ∀ v ∈ members, v.FitsBy same level := by
  apply fits_succ
  intro d x
  constructor
  · rintro (_ | _ | ⟨hv, h⟩)
    · exact .inl ⟨rfl, rfl⟩
    · exact .inr ⟨_, rfl, _, hv, h⟩
  · rintro (⟨rfl, rfl⟩ | ⟨k, rfl, u, hu, h⟩)
    · exact .self _
    · exact .member hu h

theorem fits_map {entries : List (Value × Value)} :
    (map entries).FitsBy same (level + 1) ↔
      (entries.length ≤ maxUniqueEntries ∧
        Distinct same (entries.map Prod.fst)) ∧
        ∀ e ∈ entries, e.1.FitsBy same level ∧ e.2.FitsBy same level := by
  rw [fits_succ (entries.flatMap fun e => [e.1, e.2])]
  · refine and_congr_right fun _ => ?_
    simp only [List.mem_flatMap, List.mem_cons, List.not_mem_nil, or_false]
    constructor
    · intro h e he
      exact ⟨h e.1 ⟨e, he, .inl rfl⟩, h e.2 ⟨e, he, .inr rfl⟩⟩
    · rintro h u ⟨e, he, rfl | rfl⟩
      · exact (h e he).1
      · exact (h e he).2
  · intro d x
    simp only [List.mem_flatMap, List.mem_cons, List.not_mem_nil, or_false]
    constructor
    · rintro (_ | _ | _ | ⟨he, h⟩ | ⟨he, h⟩)
      · exact .inl ⟨rfl, rfl⟩
      · exact .inr ⟨_, rfl, _, ⟨_, he, .inl rfl⟩, h⟩
      · exact .inr ⟨_, rfl, _, ⟨_, he, .inr rfl⟩, h⟩
    · rintro (⟨rfl, rfl⟩ | ⟨k, rfl, u, ⟨e, he, rfl | rfl⟩, h⟩)
      · exact .self _
      · exact .key he h
      · exact .value he h

theorem memberOf_iff {before : List Value} {v : Value} :
    memberOf before v = true ↔ ∃ x ∈ before, (x == v) = true := by
  induction before with
  | nil => simp [memberOf]
  | cons x xs ih =>
    rw [memberOf, Bool.or_eq_true, ih]
    simp only [List.mem_cons, exists_eq_or_imp]
    rfl

theorem lookup_isSome (before : List (Value × Value)) (k : Value) :
    (lookup before k).isSome = memberOf (before.map Prod.fst) k := by
  induction before with
  | nil => rfl
  | cons e es ih =>
    change (if e.1 == k then some e.2 else lookup es k).isSome =
      ((e.1 == k) || memberOf (es.map Prod.fst) k)
    by_cases h : (e.1 == k) = true
    · rw [if_pos h, h, Bool.true_or]
      rfl
    · rw [if_neg h, ih, Bool.eq_false_iff.2 h, Bool.false_or]

def Fresh (before new : List Value) : Prop :=
  (∀ x ∈ before, ∀ y ∈ new, (x == y) = false) ∧ Distinct (fun x y => x == y) new

theorem fresh_nil {new : List Value} : Fresh [] new ↔ Distinct (fun x y => x == y) new := by
  simp [Fresh]

theorem fresh_cons {before new : List Value} {v : Value} :
    Fresh before (v :: new) ↔ ¬ memberOf before v = true ∧ Fresh (before ++ [v]) new := by
  unfold Fresh Distinct
  rw [memberOf_iff, List.pairwise_cons]
  constructor
  · rintro ⟨h, hv, hnew⟩
    refine ⟨fun ⟨x, hx, hxv⟩ => ?_, fun x hx y hy => ?_, hnew⟩
    · rw [h x hx v List.mem_cons_self] at hxv
      cases hxv
    · rcases List.mem_append.1 hx with hx | hx
      · exact h x hx y (List.mem_cons_of_mem v hy)
      · rw [List.mem_singleton.1 hx]
        exact hv y hy
  · rintro ⟨hv, h, hnew⟩
    refine ⟨fun x hx y hy => ?_, fun y hy => ?_, hnew⟩
    · rcases List.mem_cons.1 hy with rfl | hy
      · exact Bool.eq_false_iff.2 fun hxy => hv ⟨x, hx, hxy⟩
      · exact h x (List.mem_append_left _ hx) y hy
    · exact h v (List.mem_append_right _ List.mem_cons_self) y hy

end Value

theorem Tag.ofByte?_eq_some_iff {byte : UInt8} {tag : Tag} :
    Tag.ofByte? byte = some tag ↔ byte = tag.toByte := by
  constructor
  · intro h
    rw [Tag.ofByte?] at h
    have hbyte := List.find?_some h
    exact (beq_iff_eq.1 hbyte).symm
  · rintro rfl
    exact Tag.ofByte?_toByte tag

namespace Wire

open Value

theorem encodeItems_eq_flatMap (vs : List Value) : encodeItems vs = vs.flatMap encode := by
  induction vs with
  | nil => rfl
  | cons v vs ih => rw [encodeItems, ih, List.flatMap_cons]

def encodeEntry (e : Value × Value) : List UInt8 := encode e.1 ++ encode e.2

theorem encodeEntries_eq_flatMap (es : List (Value × Value)) :
    encodeEntries es = es.flatMap encodeEntry := by
  induction es with
  | nil => rfl
  | cons e es ih => rw [encodeEntries, ih, List.flatMap_cons, encodeEntry, List.append_assoc]

theorem encode_eq_cons (v : Value) : ∃ payload, encode v = v.tag.toByte :: payload := by
  cases v <;> exact ⟨_, rfl⟩

theorem tag_eq_of_encode {v : Value} {byte : UInt8} {e : List UInt8} (h : encode v = byte :: e) :
    Tag.ofByte? byte = some v.tag := by
  obtain ⟨payload, hv⟩ := encode_eq_cons v
  rw [Tag.ofByte?_eq_some_iff]
  exact (List.cons.inj (h.symm.trans hv)).1

theorem encode_length_pos (v : Value) : 0 < (encode v).length := by
  obtain ⟨payload, h⟩ := encode_eq_cons v
  rw [h]
  exact Nat.succ_pos _

theorem accepts_count : Accepts Read.u32 fun n e => e = encodeCount n ∧ n < UInt32.size :=
  Accepts.word 4

theorem accepts_readString :
    Accepts readString fun s e => e = encodeString s ∧ s.utf8ByteSize < UInt32.size := by
  apply (accepts_count.bind Accepts.string).congr
  intro s e
  constructor
  · rintro ⟨n, _, _, ⟨rfl, hn⟩, ⟨rfl, rfl⟩, rfl⟩
    exact ⟨rfl, hn⟩
  · rintro ⟨rfl, hs⟩
    exact ⟨s.utf8ByteSize, _, _, ⟨rfl, hs⟩, ⟨rfl, rfl⟩, rfl⟩

theorem accepts_readBool :
    Accepts readBool fun b e => e = [if b then 1 else 0] := by
  apply Accepts.position
  intro offset
  apply (Accepts.u8.bind (V := fun byte b e => byte = (if b then 1 else 0) ∧ e = []) ?_).congr
  · rintro (_ | _) e <;> constructor <;> simp
  · intro byte
    split
    · exact (Accepts.pure false).congr fun b e => by cases b <;> simp
    · exact (Accepts.pure true).congr fun b e => by cases b <;> simp
    · rename_i h0 h1
      refine (Accepts.refuse (α := Bool) _).congr fun b e => ⟨False.elim, fun h => ?_⟩
      cases b
      · exact h0 h.1
      · exact h1 h.1

theorem readUniqueCount_eq_ok_iff {c d : Cursor} {size n : Nat} :
    readUniqueCount size c = .ok n d ↔
      Read.u32 c = .ok n d ∧ n ≤ maxUniqueEntries ∧ n ≤ d.remaining / size := by
  have hguard (count : Nat) (d' : Cursor) : (do
      let limit := min maxUniqueEntries ((← Read.remaining) / size)
      if limit < count then throw (.tooManyEntries count limit c.position)
      return count : Read Nat) d' = .ok n d ↔
        count = n ∧ d' = d ∧ count ≤ maxUniqueEntries ∧ count ≤ d'.remaining / size := by
    change (ite (min maxUniqueEntries (d'.remaining / size) < count) _ _ : Read Nat) d' = _ ↔ _
    by_cases h : min maxUniqueEntries (d'.remaining / size) < count
    · rw [if_pos h]
      constructor
      · intro hok
        cases hok
      · omega
    · rw [if_neg h]
      change EStateM.Result.ok count d' = _ ↔ _
      rw [EStateM.Result.ok.injEq]
      refine ⟨fun ⟨hn, hd⟩ => ⟨hn, hd, by omega⟩, fun ⟨hn, hd, _⟩ => ⟨hn, hd⟩⟩
  change (Read.u32 >>= _) c = _ ↔ _
  rw [bind_eq_ok_iff]
  constructor
  · rintro ⟨count, d', hread, h⟩
    obtain ⟨rfl, rfl, hcount⟩ := (hguard count d').1 h
    exact ⟨hread, hcount⟩
  · rintro ⟨hread, hcount⟩
    exact ⟨n, d, hread, (hguard n d).2 ⟨rfl, rfl, hcount⟩⟩

theorem accepts_uniqueCount {α : Type} {k : Nat → Read α} {V : Nat → α → List UInt8 → Prop}
    {size : Nat} (hsize : 0 < size) (hk : ∀ n, Accepts (k n) (V n))
    (hV : ∀ n x e, V n x e → n * size ≤ e.length) :
    Accepts (readUniqueCount size >>= k) fun x e =>
      ∃ n e', n ≤ maxUniqueEntries ∧ V n x e' ∧ e = encodeCount n ++ e' := by
  intro b p hp x c
  have hmax : maxUniqueEntries < UInt32.size := by decide
  rw [bind_eq_ok_iff]
  constructor
  · rintro ⟨n, d, hn, hx⟩
    obtain ⟨hu32, hle, -⟩ := readUniqueCount_eq_ok_iff.1 hn
    obtain ⟨_, ⟨rfl, -⟩, h₁, rfl⟩ := (accepts_count b p hp n d).1 hu32
    obtain ⟨e', hx', h₂, rfl⟩ := (hk n b _ (le_size_of_isPrefix hp h₁) x c).1 hx
    refine ⟨encodeCount n ++ e', ⟨n, e', hle, hx', rfl⟩, append_isPrefix_drop_iff.2 ⟨h₁, h₂⟩, ?_⟩
    rw [List.length_append, Nat.add_assoc]
  · rintro ⟨_, ⟨n, e', hle, hx, rfl⟩, h, rfl⟩
    obtain ⟨h₁, h₂⟩ := append_isPrefix_drop_iff.1 h
    have hp' := le_size_of_isPrefix hp h₁
    have hroom : n ≤ (b.size - (p + (encodeCount n).length)) / size := by
      apply (Nat.le_div_iff_mul_le hsize).2
      have := hV n x e' hx
      have := le_size_of_isPrefix hp' h₂
      omega
    refine ⟨n, _, readUniqueCount_eq_ok_iff.2
      ⟨accepts_count.read ⟨rfl, by omega⟩ hp h₁, hle, hroom⟩, ?_⟩
    rw [(hk n).read hx hp' h₂, List.length_append, Nat.add_assoc]

theorem accepts_readItems {read : Read Value} {F : Value → Prop}
    (h : Accepts read fun v e => e = encode v ∧ F v) (count : Nat) :
    Accepts (readItems read count) fun vs e =>
      vs.length = count ∧ e = encodeItems vs ∧ ∀ v ∈ vs, F v := by
  simp only [encodeItems_eq_flatMap]
  exact h.many rfl (fun _ => rfl) count

theorem accepts_readMembers {read : Read Value} {F : Value → Prop}
    (h : Accepts read fun v e => e = encode v ∧ F v) (count : Nat) (before : List Value) :
    Accepts (readMembers read before count) fun vs e => ∃ new, vs = before ++ new ∧
      new.length = count ∧ e = encodeItems new ∧ (∀ v ∈ new, F v) ∧ Fresh before new := by
  induction count generalizing before with
  | zero =>
    apply (Accepts.pure before).congr
    intro vs e
    constructor
    · rintro ⟨rfl, rfl⟩
      exact ⟨[], by simp [encodeItems, Fresh, Distinct]⟩
    · rintro ⟨new, rfl, hlen, rfl, -⟩
      rw [List.eq_nil_of_length_eq_zero hlen]
      exact ⟨List.append_nil before, rfl⟩
  | succ count ih =>
    apply Accepts.position
    intro offset
    apply (h.bind fun v => (ih (before ++ [v])).guard
      (c := memberOf before v = true) (e := .duplicateMember offset)).congr
    intro vs e
    constructor
    · rintro ⟨v, _, _, ⟨rfl, hv⟩, ⟨hnew, new, rfl, rfl, rfl, hF, hfresh⟩, rfl⟩
      exact ⟨v :: new, by simp, rfl, rfl, List.forall_mem_cons.2 ⟨hv, hF⟩,
        fresh_cons.2 ⟨hnew, hfresh⟩⟩
    · rintro ⟨new, rfl, hlen, rfl, hF, hfresh⟩
      obtain ⟨v, new, rfl⟩ := List.exists_cons_of_length_eq_add_one hlen
      obtain ⟨hv, hF⟩ := List.forall_mem_cons.1 hF
      obtain ⟨hnew, hfresh⟩ := fresh_cons.1 hfresh
      exact ⟨v, _, _, ⟨rfl, hv⟩,
        ⟨hnew, new, by simp, Nat.succ.inj hlen, rfl, hF, hfresh⟩, rfl⟩

theorem accepts_readEntries {read : Read Value} {F : Value → Prop}
    (h : Accepts read fun v e => e = encode v ∧ F v) (count : Nat)
    (before : List (Value × Value)) :
    Accepts (readEntries read before count) fun es e => ∃ new, es = before ++ new ∧
      new.length = count ∧ e = encodeEntries new ∧ (∀ e ∈ new, F e.1 ∧ F e.2) ∧
        Fresh (before.map Prod.fst) (new.map Prod.fst) := by
  induction count generalizing before with
  | zero =>
    apply (Accepts.pure before).congr
    intro es e
    constructor
    · rintro ⟨rfl, rfl⟩
      exact ⟨[], by simp [encodeEntries, Fresh, Distinct]⟩
    · rintro ⟨new, rfl, hlen, rfl, -⟩
      rw [List.eq_nil_of_length_eq_zero hlen]
      exact ⟨List.append_nil before, rfl⟩
  | succ count ih =>
    apply Accepts.position
    intro offset
    apply (h.bind fun k => h.bind fun v => (ih (before ++ [(k, v)])).guard
      (c := (lookup before k).isSome = true) (e := .duplicateKey offset)).congr
    intro es e
    simp only [lookup_isSome, List.map_append, List.map_cons, List.map_nil]
    constructor
    · rintro ⟨k, _, _, ⟨rfl, hk⟩, ⟨v, _, _, ⟨rfl, hv⟩, ⟨hnew, new, rfl, rfl, rfl, hF, hfresh⟩, rfl⟩,
        rfl⟩
      exact ⟨(k, v) :: new, by simp, rfl, rfl, List.forall_mem_cons.2 ⟨⟨hk, hv⟩, hF⟩,
        fresh_cons.2 ⟨hnew, hfresh⟩⟩
    · rintro ⟨new, rfl, hlen, rfl, hF, hfresh⟩
      obtain ⟨⟨k, v⟩, new, rfl⟩ := List.exists_cons_of_length_eq_add_one hlen
      obtain ⟨⟨hk, hv⟩, hF⟩ := List.forall_mem_cons.1 hF
      obtain ⟨hnew, hfresh⟩ := fresh_cons.1 hfresh
      exact ⟨k, _, _, ⟨rfl, hk⟩, ⟨v, _, _, ⟨rfl, hv⟩,
        ⟨hnew, new, by simp, Nat.succ.inj hlen, rfl, hF, hfresh⟩, rfl⟩, rfl⟩

theorem accepts_readPayload {level : Nat}
    (h : Accepts (readNested level) fun v e => e = encode v ∧ v.Fits level) (tag : Tag) :
    Accepts (readPayload (readNested level) tag) fun v e =>
      tag.toByte :: e = encode v ∧ v.tag = tag ∧ v.Fits (level + 1) := by
  cases tag with
  | nil =>
    apply (Accepts.pure Value.nil).congr
    intro v e
    constructor
    · rintro ⟨rfl, rfl⟩
      exact ⟨rfl, rfl, (fits_leaf (by simp [tag])).2 trivial⟩
    · rintro ⟨he, htag, -⟩
      cases v <;> cases htag
      exact ⟨rfl, (List.cons.inj he).2⟩
  | bool =>
    apply (accepts_readBool.map Value.bool).congr
    intro v e
    constructor
    · rintro ⟨b, rfl, rfl⟩
      exact ⟨rfl, rfl, (fits_leaf (by simp [tag])).2 trivial⟩
    · rintro ⟨he, htag, -⟩
      cases v <;> cases htag
      exact ⟨_, (List.cons.inj he).2, rfl⟩
  | number =>
    apply ((Accepts.word 8).map fun n => Value.number ⟨n.toUInt64⟩).congr
    intro v e
    constructor
    · rintro ⟨n, ⟨rfl, hn⟩, rfl⟩
      refine ⟨?_, rfl, (fits_leaf (by simp [tag])).2 trivial⟩
      rw [encode, Nat.toUInt64, UInt64.toNat_ofNat_of_lt' hn]
    · rintro ⟨he, htag, -⟩
      cases v <;> cases htag
      rename_i n
      refine ⟨n.bits.toNat, ⟨(List.cons.inj he).2, n.bits.toNat_lt⟩, ?_⟩
      rw [Nat.toUInt64, UInt64.ofNat_toNat]
  | string =>
    apply (accepts_readString.map Value.string).congr
    intro v e
    constructor
    · rintro ⟨s, ⟨rfl, hs⟩, rfl⟩
      exact ⟨rfl, rfl, (fits_leaf (by simp [tag])).2 hs⟩
    · rintro ⟨he, htag, hF⟩
      cases v <;> cases htag
      exact ⟨_, ⟨(List.cons.inj he).2, hF.regular⟩, rfl⟩
  | list =>
    apply (accepts_count.bind fun n => (accepts_readItems h n).map Value.list).congr
    intro v e
    constructor
    · rintro ⟨n, _, _, ⟨rfl, hn⟩, ⟨items, ⟨rfl, rfl, hF⟩, rfl⟩, rfl⟩
      exact ⟨rfl, rfl, fits_list.2 ⟨hn, hF⟩⟩
    · rintro ⟨he, htag, hF⟩
      cases v <;> cases htag
      obtain ⟨hn, hF⟩ := fits_list.1 hF
      exact ⟨_, _, _, ⟨rfl, hn⟩, ⟨_, ⟨rfl, rfl, hF⟩, rfl⟩, (List.cons.inj he).2⟩
  | set =>
    apply (accepts_uniqueCount Nat.one_pos
      (fun n => (accepts_readMembers h n []).map Value.set) ?_).congr
    · intro v e
      constructor
      · rintro ⟨n, _, hn, ⟨_, ⟨members, rfl, rfl, rfl, hF, hfresh⟩, rfl⟩, rfl⟩
        exact ⟨rfl, rfl, fits_set.2 ⟨⟨hn, fresh_nil.1 hfresh⟩, hF⟩⟩
      · rintro ⟨he, htag, hF⟩
        cases v <;> cases htag
        obtain ⟨⟨hn, hdistinct⟩, hF⟩ := fits_set.1 hF
        exact ⟨_, _, hn, ⟨_, ⟨_, rfl, rfl, rfl, hF, fresh_nil.2 hdistinct⟩, rfl⟩,
          (List.cons.inj he).2⟩
    · rintro n _ _ ⟨_, ⟨members, rfl, rfl, rfl, -⟩, rfl⟩
      rw [encodeItems_eq_flatMap]
      exact length_le_length_flatMap fun v _ => encode_length_pos v
  | map =>
    apply (accepts_uniqueCount Nat.two_pos
      (fun n => (accepts_readEntries h n []).map Value.map) ?_).congr
    · intro v e
      constructor
      · rintro ⟨n, _, hn, ⟨_, ⟨entries, rfl, rfl, rfl, hF, hfresh⟩, rfl⟩, rfl⟩
        exact ⟨rfl, rfl, fits_map.2 ⟨⟨hn, fresh_nil.1 hfresh⟩, hF⟩⟩
      · rintro ⟨he, htag, hF⟩
        cases v <;> cases htag
        obtain ⟨⟨hn, hdistinct⟩, hF⟩ := fits_map.1 hF
        exact ⟨_, _, hn, ⟨_, ⟨_, rfl, rfl, rfl, hF, fresh_nil.2 hdistinct⟩, rfl⟩,
          (List.cons.inj he).2⟩
    · rintro n _ _ ⟨_, ⟨entries, rfl, rfl, rfl, -⟩, rfl⟩
      rw [encodeEntries_eq_flatMap]
      refine length_le_length_flatMap fun e _ => ?_
      have hk := encode_length_pos e.1
      have hv := encode_length_pos e.2
      rw [encodeEntry, List.length_append]
      omega
  | enum =>
    apply (accepts_readString.bind fun type =>
      accepts_readString.map fun member => Value.enum ⟨type, member⟩).congr
    intro v e
    constructor
    · rintro ⟨type, _, _, ⟨rfl, htype⟩, ⟨member, ⟨rfl, hmember⟩, rfl⟩, rfl⟩
      exact ⟨rfl, rfl, (fits_leaf (by simp [tag])).2 ⟨htype, hmember⟩⟩
    · rintro ⟨he, htag, hF⟩
      cases v <;> cases htag
      obtain ⟨htype, hmember⟩ := hF.regular
      exact ⟨_, _, _, ⟨rfl, htype⟩, ⟨_, ⟨rfl, hmember⟩, rfl⟩, (List.cons.inj he).2⟩

theorem accepts_readNested (level : Nat) :
    Accepts (readNested level) fun v e => e = encode v ∧ v.Fits level := by
  induction level with
  | zero =>
    exact (Accepts.refuse (α := Value) _).congr fun v e => by simp [not_fits_zero]
  | succ level ih =>
    apply Accepts.position
    intro offset
    refine Accepts.congr (Accepts.u8.bind
      (V := fun byte v e => byte :: e = encode v ∧ v.Fits (level + 1)) fun byte => ?_) fun v e => ?_
    · -- The tag chooses the payload, whose parts nest one level less.
      cases hbyte : Tag.ofByte? byte with
      | some tag =>
        obtain rfl := Tag.ofByte?_eq_some_iff.1 hbyte
        apply (accepts_readPayload ih tag).congr
        intro v e
        refine and_congr_right fun he => and_iff_right ?_
        rw [tag_eq_of_encode he.symm] at hbyte
        exact Option.some.inj hbyte
      | none =>
        apply (Accepts.refuse (α := Value) _).congr
        intro v e
        refine ⟨False.elim, fun h => ?_⟩
        rw [tag_eq_of_encode h.1.symm] at hbyte
        cases hbyte
    constructor
    · rintro ⟨byte, _, e, rfl, ⟨he, hF⟩, rfl⟩
      exact ⟨he, hF⟩
    · rintro ⟨rfl, hF⟩
      obtain ⟨payload, hv⟩ := encode_eq_cons v
      exact ⟨v.tag.toByte, _, payload, rfl, ⟨hv.symm, hF⟩, hv⟩

theorem accepts_read : Accepts read fun v e => e = encode v ∧ v.Storable := by
  apply (accepts_readNested (maxDepth + 1)).congr
  intro v e
  rw [Storable, storableBy_iff_fitsBy]

/-- Reading undoes writing in any surrounding bytes, and accepts nothing else. -/
theorem read_eq_ok_iff (b : Bytes) (p : Nat) (hp : p ≤ b.size) (v : Value) (c : Cursor) :
    read ⟨b, p⟩ = .ok v c ↔
      c.bytes = b ∧ c.position = p + (encode v).length ∧
        (b.extract p c.position).toList = encode v ∧ v.Storable := by
  rw [accepts_read b p hp v c]
  have hextract (q : Nat) : (b.extract p q).toList = (b.toList.drop p).take (q - p) := by
    rw [Array.toList_extract, List.extract_eq_take_drop]
  constructor
  · rintro ⟨_, ⟨rfl, hv⟩, he, rfl⟩
    refine ⟨rfl, rfl, ?_, hv⟩
    rw [hextract, Nat.add_sub_cancel_left]
    exact (List.prefix_iff_eq_take.1 he).symm
  · obtain ⟨b', q⟩ := c
    rintro ⟨rfl, rfl, he, hv⟩
    refine ⟨_, ⟨rfl, hv⟩, ?_, rfl⟩
    rw [hextract, Nat.add_sub_cancel_left] at he
    exact List.prefix_iff_eq_take.2 he.symm

theorem read_list_of_map :
    let v := Value.list [.map [(.string "hp", .number ⟨0x4024000000000000⟩), (.nil, .bool true)]]
    let b : Bytes := (7 :: (encode v ++ [0, 0])).toArray
    1 ≤ b.size ∧ read ⟨b, 1⟩ = .ok v ⟨b, b.size - 2⟩ := by
  intro v b
  have hb : 1 ≤ b.size := by decide
  have hv : v.Storable := by
    rw [Storable, storableBy_iff_fitsBy, maxDepth, fits_list, List.forall_mem_singleton, fits_map,
      List.forall_mem_cons, List.forall_mem_singleton]
    refine ⟨by decide, by decide, ⟨?_, ?_⟩, ?_, ?_⟩
    all_goals exact (fits_leaf (by decide)).2 (by decide)
  exact ⟨hb, (read_eq_ok_iff b 1 hb v _).2 ⟨rfl, by decide, by decide, hv⟩⟩

def crowded : Value := .set [.number ⟨0⟩, .number ⟨0x3f23a92a30553261⟩]

def spread : Value := .set [.number ⟨0x3f13a92a30553261⟩, .number ⟨0x4024000000000000⟩]

theorem crowded_beq_spread : (crowded == spread) = true := by decide

/-- It matters which of two members stands on the left when they are compared. -/
theorem not_read_of_later_left :
    ¬ ∀ (b : Bytes) (p : Nat), p ≤ b.size → ∀ (v : Value) (c : Cursor),
      read ⟨b, p⟩ = .ok v c ↔
        c.bytes = b ∧ c.position = p + (encode v).length ∧
          (b.extract p c.position).toList = encode v ∧ v.StorableBy fun x y => y == x := by
  intro h
  let v := Value.set [crowded, spread]
  let b : Bytes := (encode v).toArray
  have hflip : v.StorableBy fun x y => y == x := by
    rw [storableBy_iff_fitsBy, maxDepth, fits_set, List.forall_mem_cons, List.forall_mem_singleton,
      crowded, spread, fits_set, fits_set, List.forall_mem_cons, List.forall_mem_singleton,
      List.forall_mem_cons, List.forall_mem_singleton]
    refine ⟨by decide, ⟨by decide, ?_, ?_⟩, by decide, ?_, ?_⟩
    all_goals exact (fits_leaf (by decide)).2 (by decide)
  have hread := (h b 0 (Nat.zero_le _) v ⟨b, b.size⟩).2 ⟨rfl, by decide, by decide, hflip⟩
  obtain ⟨_, ⟨-, hv⟩, -⟩ := (accepts_read b 0 (Nat.zero_le _) v _).1 hread
  rw [Storable, storableBy_iff_fitsBy, maxDepth, fits_set, Distinct, List.pairwise_cons] at hv
  have hdistinct := hv.1.2.1 spread List.mem_cons_self
  rw [crowded_beq_spread] at hdistinct
  cases hdistinct

end Wire

end Dialogue
