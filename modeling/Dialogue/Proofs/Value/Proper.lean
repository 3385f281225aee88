import Dialogue.Proofs.Instruction
import Dialogue.Value.Buffer
import Dialogue.Value.Json

namespace Dialogue

namespace Value

/-- No member of a set and no key of a map repeats one before it. -/
def Unrepeated : Value → Prop
  | set members => Distinct (fun x y => x == y) members
  | map entries => Distinct (fun x y => x == y) (entries.map Prod.fst)
  | _ => True

def Limited : Value → Prop
  | string s => s.utf8ByteSize < UInt32.size
  | enum e => e.type.utf8ByteSize < UInt32.size ∧ e.member.utf8ByteSize < UInt32.size
  | list items => items.length < UInt32.size
  | set members => members.length ≤ maxUniqueEntries
  | map entries => entries.length ≤ maxUniqueEntries
  | _ => True

def Proper (v : Value) : Prop := ∀ d x, Within d x v → x.Unrepeated

/-- All parts keep the limits, and none lies inside of more than `maxDepth` collections. -/
def Portable (v : Value) : Prop := ∀ d x, Within d x v → d ≤ maxDepth ∧ x.Limited

theorem regular_iff {v : Value} : v.Regular (fun x y => x == y) ↔ v.Limited ∧ v.Unrepeated := by
  cases v <;> simp [Regular, Limited, Unrepeated]

theorem storable_iff {v : Value} : v.Storable ↔ v.Portable ∧ v.Proper := by
  constructor
  · intro h
    refine ⟨fun d x hx => ?_, fun d x hx => ?_⟩
    · exact ⟨(h d x hx).1, (regular_iff.mp (h d x hx).2).1⟩
    · exact (regular_iff.mp (h d x hx).2).2
  · intro h d x hx
    exact ⟨(h.1 d x hx).1, regular_iff.mpr ⟨(h.1 d x hx).2, h.2 d x hx⟩⟩

theorem Storable.proper {v : Value} (h : v.Storable) : v.Proper := (storable_iff.mp h).2

theorem proper_of_leaf {v : Value} (hv : v.tag ∉ [.list, .set, .map]) : v.Proper := by
  intro d x hx
  cases hx with
  | self => cases v <;> first | trivial | simp [tag] at hv
  | item | member | key | value => simp [tag] at hv

theorem proper_nil : Proper nil := proper_of_leaf (by decide)

theorem proper_list {items : List Value} : (list items).Proper ↔ ∀ v ∈ items, v.Proper := by
  constructor
  · intro h v hv d x hx
    exact h (d + 1) x (.item hv hx)
  · rintro h _ _ (_ | ⟨hv, hx⟩)
    · trivial
    · exact h _ hv _ _ hx

theorem proper_set {members : List Value} : (set members).Proper ↔
    Distinct (fun x y => x == y) members ∧ ∀ v ∈ members, v.Proper := by
  constructor
  · intro h
    refine ⟨h 0 _ (.self _), fun v hv d x hx => ?_⟩
    exact h (d + 1) x (.member hv hx)
  · rintro ⟨hdistinct, h⟩ _ _ (_ | _ | ⟨hv, hx⟩)
    · exact hdistinct
    · exact h _ hv _ _ hx

theorem proper_map {entries : List (Value × Value)} : (map entries).Proper ↔
    Distinct (fun x y => x == y) (entries.map Prod.fst) ∧
      ∀ e ∈ entries, e.1.Proper ∧ e.2.Proper := by
  constructor
  · intro h
    refine ⟨h 0 _ (.self _), fun e he => ⟨fun d x hx => ?_, fun d x hx => ?_⟩⟩
    · exact h (d + 1) x (.key he hx)
    · exact h (d + 1) x (.value he hx)
  · rintro ⟨hdistinct, h⟩ _ _ (_ | _ | _ | ⟨he, hx⟩ | ⟨he, hx⟩)
    · exact hdistinct
    · exact (h _ he).1 _ _ hx
    · exact (h _ he).2 _ _ hx

theorem proper_map_nil : (map []).Proper := by
  rw [proper_map]
  exact ⟨.nil, by simp⟩

theorem distinct_append_singleton {vs : List Value} {v : Value}
    (hvs : Distinct (fun x y => x == y) vs) (hv : memberOf vs v = false) :
    Distinct (fun x y => x == y) (vs ++ [v]) := by
  rw [Distinct, List.pairwise_append]
  refine ⟨hvs, List.pairwise_singleton _ _, fun x hx y hy => ?_⟩
  rw [List.mem_singleton.mp hy, ← Bool.not_eq_true]
  intro hxv
  rw [memberOf_iff.mpr ⟨x, hx, hxv⟩] at hv
  cases hv

theorem proper_insertMember {members : List Value} {v : Value} (h : (set members).Proper)
    (hv : v.Proper) : (set (insertMember members v)).Proper := by
  unfold insertMember
  split
  · exact h
  · rename_i hnew
    rw [Bool.not_eq_true] at hnew
    obtain ⟨hdistinct, hmembers⟩ := proper_set.mp h
    refine proper_set.mpr ⟨distinct_append_singleton hdistinct hnew, fun x hx => ?_⟩
    rcases List.mem_append.mp hx with hx | hx
    · exact hmembers x hx
    · exact List.mem_singleton.mp hx ▸ hv

theorem proper_setOf {items : List Value} (h : ∀ v ∈ items, v.Proper) :
    (set (setOf items)).Proper := by
  have hfold (before : List Value) (hbefore : (set before).Proper) :
      (set (items.foldl insertMember before)).Proper := by
    induction items generalizing before with
    | nil => exact hbefore
    | cons v items ih =>
      obtain ⟨hv, hitems⟩ := List.forall_mem_cons.mp h
      exact ih hitems _ (proper_insertMember hbefore hv)
  exact hfold [] (proper_set.mpr ⟨.nil, nofun⟩)

theorem keys_insertEntry (entries : List (Value × Value)) (key value : Value) :
    (insertEntry entries key value).map Prod.fst =
      insertMember (entries.map Prod.fst) key := by
  induction entries with
  | nil => rfl
  | cons e entries ih =>
    change ((if e.1 == key then (e.1, value) :: entries
      else e :: insertEntry entries key value).map Prod.fst) = _
    have hmember : memberOf (e.1 :: entries.map Prod.fst) key =
        ((e.1 == key) || memberOf (entries.map Prod.fst) key) := rfl
    cases hkey : e.1 == key with
    | true => simp [insertMember, hmember, hkey]
    | false =>
      simp only [Bool.false_eq_true, if_false, List.map_cons, ih, insertMember, hmember, hkey,
        Bool.false_or]
      split <;> rfl

theorem mem_insertEntry {entries : List (Value × Value)} {key value : Value} {e : Value × Value}
    (h : e ∈ insertEntry entries key value) :
    (e.1 = key ∨ ∃ e' ∈ entries, e.1 = e'.1) ∧ (e.2 = value ∨ ∃ e' ∈ entries, e.2 = e'.2) := by
  induction entries with
  | nil =>
    rw [List.mem_singleton.mp h]
    exact ⟨.inl rfl, .inl rfl⟩
  | cons e' entries ih =>
    change e ∈ (if e'.1 == key then (e'.1, value) :: entries
      else e' :: insertEntry entries key value) at h
    have hold (h : e ∈ e' :: entries) : (e.1 = key ∨ ∃ x ∈ e' :: entries, e.1 = x.1) ∧
        (e.2 = value ∨ ∃ x ∈ e' :: entries, e.2 = x.2) :=
      ⟨.inr ⟨e, h, rfl⟩, .inr ⟨e, h, rfl⟩⟩
    split at h
    · rcases List.mem_cons.mp h with rfl | h
      · exact ⟨.inr ⟨e', List.mem_cons_self, rfl⟩, .inl rfl⟩
      · exact hold (List.mem_cons_of_mem e' h)
    · rcases List.mem_cons.mp h with rfl | h
      · exact hold List.mem_cons_self
      · obtain ⟨hkey, hvalue⟩ := ih h
        exact ⟨hkey.imp_right fun ⟨x, hx, hex⟩ => ⟨x, List.mem_cons_of_mem e' hx, hex⟩,
          hvalue.imp_right fun ⟨x, hx, hex⟩ => ⟨x, List.mem_cons_of_mem e' hx, hex⟩⟩

theorem proper_insertEntry {entries : List (Value × Value)} {key value : Value}
    (h : (map entries).Proper) (hkey : key.Proper) (hvalue : value.Proper) :
    (map (insertEntry entries key value)).Proper := by
  obtain ⟨hdistinct, hentries⟩ := proper_map.mp h
  refine proper_map.mpr ⟨?_, fun e he => ?_⟩
  · rw [keys_insertEntry, insertMember]
    split
    · exact hdistinct
    · rename_i hnew
      exact distinct_append_singleton hdistinct (Bool.eq_false_iff.mpr hnew)
  · obtain ⟨hk, hv⟩ := mem_insertEntry he
    constructor
    · rcases hk with hk | ⟨e', he', hk⟩
      · exact hk ▸ hkey
      · exact hk ▸ (hentries e' he').1
    · rcases hv with hv | ⟨e', he', hv⟩
      · exact hv ▸ hvalue
      · exact hv ▸ (hentries e' he').2

def nested : Nat → Value
  | 0 => nil
  | depth + 1 => list [nested depth]

def isNested : Nat → Value → Bool
  | 0, nil => true
  | depth + 1, list [v] => v.isNested depth
  | _, _ => false

theorem eq_nested_of_isNested {depth : Nat} {v : Value} (h : v.isNested depth = true) :
    v = nested depth := by
  induction depth, v using isNested.induct with
  | case1 => rfl
  | case2 depth v ih => rw [nested, ih (by simpa [isNested] using h)]
  | case3 depth v hnil hlist => simp [isNested] at h

theorem proper_nested (depth : Nat) : (nested depth).Proper := by
  induction depth with
  | zero => exact proper_nil
  | succ depth ih => exact proper_list.mpr (by simpa using ih)

theorem within_nested (depth : Nat) : Within depth nil (nested depth) := by
  induction depth with
  | zero => exact .self _
  | succ depth ih => exact .item List.mem_cons_self ih

theorem portable_nested {depth : Nat} : (nested depth).Portable ↔ depth ≤ maxDepth := by
  refine ⟨fun h => (h depth nil (within_nested depth)).1, fun hdepth d x hx => ?_⟩
  have hlimits : d ≤ depth ∧ x.Limited := by
    clear hdepth
    induction depth generalizing d with
    | zero =>
      cases hx
      exact ⟨Nat.le_refl 0, trivial⟩
    | succ depth ih =>
      rcases hx with _ | ⟨hv, hx⟩
      · exact ⟨Nat.zero_le _, show 1 < UInt32.size by decide⟩
      · obtain ⟨hd, hx⟩ := ih _ (List.mem_singleton.mp hv ▸ hx)
        exact ⟨Nat.succ_le_succ hd, hx⟩
  exact ⟨Nat.le_trans hlimits.1 hdepth, hlimits.2⟩

mutual

theorem proper_of_ofJson : ∀ {j : Json} {v : Value}, ofJson j = .ok v → v.Proper
  | .null, v, h => by
    cases h
    exact proper_nil
  | .bool b, v, h => by
    cases h
    exact proper_of_leaf (by simp [tag])
  | .number n, v, h => by
    cases h
    exact proper_of_leaf (by simp [tag])
  | .string s, v, h => by
    cases h
    exact proper_of_leaf (by simp [tag])
  | .array items, v, h => by
    rw [ofJson] at h
    obtain ⟨vs, hvs, rfl⟩ := Except.map_eq_ok_iff.mp h
    exact proper_list.mpr (proper_of_itemsOfJson hvs)
  | .object entries, v, h => by
    unfold ofJson at h
    split at h
    case h_6 type member heq =>
      cases h
      exact proper_of_leaf (by simp [tag])
    case h_7 items heq =>
      cases heq
      obtain ⟨vs, hvs, rfl⟩ := Except.map_eq_ok_iff.mp h
      exact proper_setOf (proper_of_itemsOfJson hvs)
    case h_8 pairs heq =>
      cases heq
      obtain ⟨es, hes, rfl⟩ := Except.map_eq_ok_iff.mp h
      exact proper_of_entriesOfJson proper_map_nil hes
    case h_9 => cases h
    all_goals
      rename_i heq
      cases heq

theorem proper_of_itemsOfJson : ∀ {js : List Json} {vs : List Value},
    itemsOfJson js = .ok vs → ∀ v ∈ vs, v.Proper
  | [], vs, h => by
    cases h
    exact nofun
  | j :: js, vs, h => by
    rw [itemsOfJson] at h
    split at h
    · rename_i v hv
      obtain ⟨rest, hrest, rfl⟩ := Except.map_eq_ok_iff.mp h
      exact List.forall_mem_cons.mpr ⟨proper_of_ofJson hv, proper_of_itemsOfJson hrest⟩
    · cases h

theorem proper_of_entriesOfJson : ∀ {js : List Json} {refusal : ValueError}
    {before es : List (Value × Value)}, (map before).Proper →
    entriesOfJson refusal before js = .ok es → (map es).Proper
  | [], _, before, es, hbefore, h => by
    cases h
    exact hbefore
  | j :: js, refusal, before, es, hbefore, h => by
    unfold entriesOfJson at h
    split at h
    · rename_i heq
      cases heq
    · rename_i k v rest heq
      cases heq
      split at h
      · rename_i key hkey
        split at h
        · rename_i value hvalue
          exact proper_of_entriesOfJson
            (proper_insertEntry hbefore (proper_of_ofJson hkey) (proper_of_ofJson hvalue)) h
        · cases h
      · cases h
    · cases h

end

end Value

theorem Wire.decode_toBytes_iff {v : Value} (hv : v.Proper) :
    Wire.decode v.toBytes = .ok v ↔ v.Portable := by
  have hread := Wire.read_eq_ok_iff v.toBytes 0 (Nat.zero_le _) v
  have hsize : v.toBytes.size = (Wire.encode v).length := by simp [Value.toBytes]
  unfold Wire.decode
  constructor
  · intro h
    split at h
    · rename_i u c hc
      split at h <;> cases h
      exact (Value.storable_iff.mp ((hread c).mp hc).2.2.2).1
    · cases h
  · intro h
    have hc := (hread ⟨v.toBytes, (Wire.encode v).length⟩).mpr
      ⟨rfl, by simp, by simp [Value.toBytes], Value.storable_iff.mpr ⟨h, hv⟩⟩
    have hstart : Cursor.start v.toBytes = ⟨v.toBytes, 0⟩ := rfl
    rw [hstart, hc]
    simp [Cursor.isAtEnd, Cursor.remaining, hsize]

end Dialogue
