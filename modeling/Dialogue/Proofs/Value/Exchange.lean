import Dialogue.Proofs.Value.Finite
import Dialogue.Proofs.Value.Json

/-!
Values against their JSON forms. Main statement: `json_roundTrip`. A value without repetitions has a
JSON form just when its numbers are finite, and is read back from it; and every document that is
read at all gives a value without repetitions, which has a JSON form and is read back from it.
-/

namespace Dialogue

theorem Numeral.Valid.isFinite {n : Numeral} (h : n.Valid) : n.toNumber.isFinite = true := by
  have hratio (r : Option Number) (hr : ∀ x, r = some x → x.isFinite = true) :
      (r.getD .zero).isFinite = true := by
    cases r with
    | none => decide
    | some x => exact hr x rfl
  cases n with
  | natural n => exact hratio _ fun x hx => Number.isFinite_of_ofRatio? hx
  | negative n => exact hratio _ fun x hx => Number.isFinite_of_ofRatio? hx
  | real x => exact h

namespace Value

theorem finite_of_leaf {v : Value} (hv : v.tag ∉ [.number, .list, .set, .map]) : v.Finite := by
  intro d n hn
  cases hn with
  | self => simp [tag] at hv
  | item | member | key | value => simp [tag] at hv

theorem finite_number {n : Number} (h : n.isFinite = true) : (number n).Finite := by
  rintro _ _ ⟨⟩
  exact h

theorem finite_of_items {items : List Value} (h : ∀ v ∈ items, v.Finite) :
    (list items).Finite := by
  rintro _ n (_ | ⟨hv, hn⟩)
  exact h _ hv _ n hn

theorem finite_of_members {members : List Value} (h : ∀ v ∈ members, v.Finite) :
    (set members).Finite := by
  rintro _ n (_ | _ | ⟨hv, hn⟩)
  exact h _ hv _ n hn

theorem finite_of_entries {entries : List (Value × Value)}
    (h : ∀ e ∈ entries, e.1.Finite ∧ e.2.Finite) : (map entries).Finite := by
  rintro _ n (_ | _ | _ | ⟨he, hn⟩ | ⟨he, hn⟩)
  · exact (h _ he).1 _ n hn
  · exact (h _ he).2 _ n hn

mutual

theorem finite_of_toJson : ∀ {v : Value} {j : Json}, toJson v = .ok j → v.Finite
  | .nil, _, _ | .bool _, _, _ | .string _, _, _ | .enum _, _, _ => finite_of_leaf (by simp [tag])
  | .number n, _, h => by
    rw [toJson] at h
    split at h
    · rename_i hn
      exact finite_number hn
    · cases h
  | .list items, _, h => by
    obtain ⟨js, hjs, -⟩ := Except.map_eq_ok_iff.mp h
    exact finite_of_items (finite_of_itemsToJson hjs)
  | .set members, _, h => by
    obtain ⟨js, hjs, -⟩ := Except.map_eq_ok_iff.mp h
    exact finite_of_members (finite_of_itemsToJson hjs)
  | .map entries, _, h => by
    obtain ⟨js, hjs, -⟩ := Except.map_eq_ok_iff.mp h
    exact finite_of_entries (finite_of_entriesToJson hjs)

theorem finite_of_itemsToJson : ∀ {vs : List Value} {js : List Json}, itemsToJson vs = .ok js →
    ∀ v ∈ vs, v.Finite
  | [], _, _ => nofun
  | v :: vs, _, h => by
    rw [itemsToJson] at h
    split at h
    · rename_i j hj
      obtain ⟨js, hjs, -⟩ := Except.map_eq_ok_iff.mp h
      exact List.forall_mem_cons.mpr ⟨finite_of_toJson hj, finite_of_itemsToJson hjs⟩
    · cases h

theorem finite_of_entriesToJson : ∀ {es : List (Value × Value)} {js : List Json},
    entriesToJson es = .ok js → ∀ e ∈ es, e.1.Finite ∧ e.2.Finite
  | [], _, _ => nofun
  | (k, v) :: es, _, h => by
    rw [entriesToJson] at h
    split at h
    · rename_i key hkey
      split at h
      · rename_i value hvalue
        obtain ⟨js, hjs, -⟩ := Except.map_eq_ok_iff.mp h
        exact List.forall_mem_cons.mpr
          ⟨⟨finite_of_toJson hkey, finite_of_toJson hvalue⟩, finite_of_entriesToJson hjs⟩
      · cases h
    · cases h

end

theorem mem_of_mem_setOf {items : List Value} {v : Value} (h : v ∈ setOf items) : v ∈ items := by
  have hfold (items before : List Value) (h : v ∈ items.foldl insertMember before) :
      v ∈ before ∨ v ∈ items := by
    induction items generalizing before with
    | nil => exact .inl h
    | cons u items ih =>
      rcases ih (insertMember before u) h with h | h
      · unfold insertMember at h
        split at h
        · exact .inl h
        · rcases List.mem_append.mp h with h | h
          · exact .inl h
          · exact .inr (List.mem_singleton.mp h ▸ List.mem_cons_self)
      · exact .inr (List.mem_cons_of_mem u h)
  exact (hfold items [] h).resolve_left nofun

theorem finite_insertEntry {entries : List (Value × Value)} {key value : Value}
    (h : ∀ e ∈ entries, e.1.Finite ∧ e.2.Finite) (hkey : key.Finite) (hvalue : value.Finite) :
    ∀ e ∈ insertEntry entries key value, e.1.Finite ∧ e.2.Finite := by
  intro e he
  obtain ⟨hk, hv⟩ := mem_insertEntry he
  constructor
  · rcases hk with hk | ⟨e', he', hk⟩
    · exact hk ▸ hkey
    · exact hk ▸ (h e' he').1
  · rcases hv with hv | ⟨e', he', hv⟩
    · exact hv ▸ hvalue
    · exact hv ▸ (h e' he').2

mutual

theorem finite_of_ofJson : ∀ {j : Json} {v : Value}, j.Canonical → ofJson j = .ok v → v.Finite
  | .null, _, _, h | .bool _, _, _, h | .string _, _, _, h => by
    cases h
    exact finite_of_leaf (by simp [tag])
  | .number n, _, hj, h => by
    cases h
    exact finite_number (Numeral.Valid.isFinite hj)
  | .array items, _, hj, h => by
    rw [ofJson] at h
    obtain ⟨vs, hvs, rfl⟩ := Except.map_eq_ok_iff.mp h
    exact finite_of_items (finite_of_itemsOfJson hj hvs)
  | .object members, v, hj, h => by
    unfold ofJson at h
    split at h
    case h_6 type member heq =>
      cases h
      exact finite_of_leaf (by simp [tag])
    case h_7 items heq =>
      cases heq
      obtain ⟨vs, hvs, rfl⟩ := Except.map_eq_ok_iff.mp h
      have hvs := finite_of_itemsOfJson hj.2.1 hvs
      exact finite_of_members fun v hv => hvs v (mem_of_mem_setOf hv)
    case h_8 pairs heq =>
      cases heq
      obtain ⟨es, hes, rfl⟩ := Except.map_eq_ok_iff.mp h
      exact finite_of_entries (finite_of_entriesOfJson hj.2.1 (List.forall_mem_nil _) hes)
    case h_9 => cases h
    all_goals
      rename_i heq
      cases heq

theorem finite_of_itemsOfJson : ∀ {js : List Json} {vs : List Value}, Json.CanonicalItems js →
    itemsOfJson js = .ok vs → ∀ v ∈ vs, v.Finite
  | [], _, _, h => by
    cases h
    exact nofun
  | j :: js, _, hjs, h => by
    rw [itemsOfJson] at h
    split at h
    · rename_i v hv
      obtain ⟨rest, hrest, rfl⟩ := Except.map_eq_ok_iff.mp h
      exact List.forall_mem_cons.mpr ⟨finite_of_ofJson hjs.1 hv, finite_of_itemsOfJson hjs.2 hrest⟩
    · cases h

theorem finite_of_entriesOfJson : ∀ {js : List Json} {refusal : ValueError}
    {before es : List (Value × Value)}, Json.CanonicalItems js →
      (∀ e ∈ before, e.1.Finite ∧ e.2.Finite) → entriesOfJson refusal before js = .ok es →
        ∀ e ∈ es, e.1.Finite ∧ e.2.Finite
  | [], _, _, _, _, hbefore, h => by
    cases h
    exact hbefore
  | j :: js, refusal, before, es, hjs, hbefore, h => by
    unfold entriesOfJson at h
    split at h
    · rename_i heq
      cases heq
    · rename_i k v rest heq
      cases heq
      split at h
      · rename_i key hkey
        split at h
        · rename_i value hvalue
          have hbefore := finite_insertEntry hbefore (finite_of_ofJson hjs.1.1 hkey)
            (finite_of_ofJson hjs.1.2.1 hvalue)
          exact finite_of_entriesOfJson hjs.2 hbefore h
        · cases h
      · cases h
    · cases h

end

/-- Writing fails for numbers that are not finite, and for nothing else. Reading gives back what was
written, and what it gives it gives again. -/
theorem json_roundTrip :
    (∀ v : Value, v.Proper →
      ((∃ j, toJson v = .ok j) ↔ v.Finite) ∧
        ∀ j, toJson v = .ok j → j.Canonical ∧ ofJson j = .ok v) ∧
      ∀ (j : Json) (v : Value), j.Canonical → ofJson j = .ok v →
        v.Proper ∧ ∃ j', toJson v = .ok j' ∧ ofJson j' = .ok v := by
  refine ⟨fun v hv => ⟨⟨?_, exists_toJson⟩, fun j hj => ?_⟩, fun j v hj h => ?_⟩
  · rintro ⟨j, hj⟩
    exact finite_of_toJson hj
  · exact ⟨canonical_toJson hj, ofJson_toJson hv hj⟩
  · have hproper := proper_of_ofJson h
    obtain ⟨j', hj'⟩ := exists_toJson (finite_of_ofJson hj h)
    exact ⟨hproper, j', hj', ofJson_toJson hproper hj'⟩

def satchel : Value :=
  .set [.map [(.string "coins", .number ⟨0x4008000000000000⟩), (.nil, .bool true)],
    .enum ⟨"Act", "intro"⟩]

theorem proper_satchel : satchel.Proper := by
  refine proper_set.mpr ⟨by decide, ?_⟩
  rw [List.forall_mem_cons, List.forall_mem_singleton, proper_map, List.forall_mem_cons,
    List.forall_mem_singleton]
  refine ⟨⟨by decide, ⟨?_, ?_⟩, ?_, ?_⟩, ?_⟩
  all_goals exact proper_of_leaf (by decide)

def packed : Json :=
  let coins (n : Nat) : Json := .array [.string "coins", .number (.natural n)]
  let act : Json := .object [("enum", .string "Act"), ("value", .string "intro")]
  .object [("set", .array [.object [("map", .array [coins 7, .array [.null, .bool true], coins 3])],
    act, act])]

theorem json_roundTrip_satchel :
    satchel.Proper ∧ packed.Canonical ∧ ofJson packed = .ok satchel ∧ satchel.Finite ∧
      ∃ j, toJson satchel = .ok j ∧ ofJson j = .ok satchel := by
  have hpacked : packed.Canonical := by
    simp only [packed, Json.Canonical, Json.CanonicalItems, Json.CanonicalMembers, Numeral.Valid,
      Entries.Ordered]
    decide
  have hthree : Number.ofNat 3 = ⟨0x4008000000000000⟩ := by decide +kernel
  have hread : ofJson packed = .ok satchel := by
    simp only [packed, ofJson, itemsOfJson, entriesOfJson, Numeral.toNumber, hthree]
    rfl
  obtain ⟨-, j, hj, hagain⟩ := json_roundTrip.2 packed satchel hpacked hread
  have hfinite := (json_roundTrip.1 satchel proper_satchel).1.mp ⟨j, hj⟩
  exact ⟨proper_satchel, hpacked, hread, hfinite, j, hj, hagain⟩

end Value

end Dialogue
