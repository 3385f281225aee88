import Dialogue.Proofs.Value.Proper

namespace Dialogue.Value

def Finite (v : Value) : Prop := ∀ d n, Within d (number n) v → n.isFinite = true

theorem finite_list {items : List Value} (h : (list items).Finite) : ∀ v ∈ items, v.Finite :=
  fun _ hv d n hn => h (d + 1) n (.item hv hn)

theorem finite_set {members : List Value} (h : (set members).Finite) : ∀ v ∈ members, v.Finite :=
  fun _ hv d n hn => h (d + 1) n (.member hv hn)

theorem finite_map {entries : List (Value × Value)} (h : (map entries).Finite) :
    ∀ e ∈ entries, e.1.Finite ∧ e.2.Finite :=
  fun _ he => ⟨fun d n hn => h (d + 1) n (.key he hn), fun d n hn => h (d + 1) n (.value he hn)⟩

mutual

theorem exists_toJson : ∀ {v : Value}, v.Finite → ∃ j, toJson v = .ok j
  | .nil, _ | .bool _, _ | .string _, _ | .enum _, _ => ⟨_, rfl⟩
  | .number n, h => ⟨.number (.real n), by rw [toJson, if_pos (h 0 n (.self _))]⟩
  | .list items, h => by
    obtain ⟨js, hjs⟩ := exists_itemsToJson (finite_list h)
    exact ⟨.array js, by rw [toJson, hjs]; rfl⟩
  | .set members, h => by
    obtain ⟨js, hjs⟩ := exists_itemsToJson (finite_set h)
    exact ⟨.object [("set", .array js)], by rw [toJson, hjs]; rfl⟩
  | .map entries, h => by
    obtain ⟨js, hjs⟩ := exists_entriesToJson (finite_map h)
    exact ⟨.object [("map", .array js)], by rw [toJson, hjs]; rfl⟩

theorem exists_itemsToJson : ∀ {vs : List Value}, (∀ v ∈ vs, v.Finite) →
    ∃ js, itemsToJson vs = .ok js
  | [], _ => ⟨[], rfl⟩
  | v :: vs, h => by
    obtain ⟨hv, hvs⟩ := List.forall_mem_cons.mp h
    obtain ⟨j, hj⟩ := exists_toJson hv
    obtain ⟨js, hjs⟩ := exists_itemsToJson hvs
    exact ⟨j :: js, by simp only [itemsToJson, hj, hjs]; rfl⟩

theorem exists_entriesToJson : ∀ {es : List (Value × Value)},
    (∀ e ∈ es, e.1.Finite ∧ e.2.Finite) → ∃ js, entriesToJson es = .ok js
  | [], _ => ⟨[], rfl⟩
  | (k, v) :: es, h => by
    obtain ⟨⟨hk, hv⟩, hes⟩ := List.forall_mem_cons.mp h
    obtain ⟨key, hkey⟩ := exists_toJson hk
    obtain ⟨value, hvalue⟩ := exists_toJson hv
    obtain ⟨js, hjs⟩ := exists_entriesToJson hes
    exact ⟨.array [key, value] :: js, by simp only [entriesToJson, hkey, hvalue, hjs]; rfl⟩

end

theorem memberOf_eq_false {before : List Value} {v : Value} (rest : List Value)
    (h : Distinct (fun x y => x == y) (before ++ v :: rest)) : memberOf before v = false := by
  rw [← Bool.not_eq_true, memberOf_iff]
  rintro ⟨x, hx, hxv⟩
  have hne := (List.pairwise_append.mp h).2.2 x hx v List.mem_cons_self
  exact absurd hxv (by simpa using hne)

theorem foldl_insertMember {items : List Value} (before : List Value)
    (h : Distinct (fun x y => x == y) (before ++ items)) :
    items.foldl insertMember before = before ++ items := by
  induction items generalizing before with
  | nil => rw [List.foldl_nil, List.append_nil]
  | cons v items ih =>
    have hnew : insertMember before v = before ++ [v] := by simp [insertMember, memberOf_eq_false items h]
    have hassoc : before ++ v :: items = before ++ [v] ++ items := by simp
    rw [List.foldl_cons, hnew, ih _ (hassoc ▸ h), hassoc]

theorem setOf_of_distinct {items : List Value} (h : Distinct (fun x y => x == y) items) :
    setOf items = items :=
  foldl_insertMember [] h

theorem insertEntry_of_new {entries : List (Value × Value)} {key : Value} (v : Value)
    (h : memberOf (entries.map Prod.fst) key = false) :
    insertEntry entries key v = entries ++ [(key, v)] := by
  induction entries with
  | nil => rfl
  | cons e entries ih =>
    have hmember : ((e.1 == key) || memberOf (entries.map Prod.fst) key) = false := h
    obtain ⟨hkey, hrest⟩ := Bool.or_eq_false_iff.mp hmember
    simp only [insertEntry, hkey, Bool.false_eq_true, if_false, ih hrest, List.cons_append]

mutual

theorem ofJson_toJson : ∀ {v : Value} {j : Json}, v.Proper → toJson v = .ok j → ofJson j = .ok v
  | .nil, _, _, h | .bool _, _, _, h | .string _, _, _, h | .enum _, _, _, h => by
    cases h
    rfl
  | .number n, _, _, h => by
    rw [toJson] at h
    split at h
    · cases h
      rfl
    · cases h
  | .list items, _, hv, h => by
    obtain ⟨js, hjs, rfl⟩ := Except.map_eq_ok_iff.mp h
    rw [ofJson, itemsOfJson_itemsToJson (proper_list.mp hv) hjs]
    rfl
  | .set members, _, hv, h => by
    obtain ⟨js, hjs, rfl⟩ := Except.map_eq_ok_iff.mp h
    obtain ⟨hdistinct, hmembers⟩ := proper_set.mp hv
    rw [ofJson, itemsOfJson_itemsToJson hmembers hjs]
    exact congrArg (fun vs => Except.ok (set vs)) (setOf_of_distinct hdistinct)
  | .map entries, _, hv, h => by
    obtain ⟨js, hjs, rfl⟩ := Except.map_eq_ok_iff.mp h
    obtain ⟨hdistinct, hentries⟩ := proper_map.mp hv
    rw [ofJson, entriesOfJson_entriesToJson [] hdistinct hentries hjs]
    rfl

theorem itemsOfJson_itemsToJson : ∀ {vs : List Value} {js : List Json}, (∀ v ∈ vs, v.Proper) →
    itemsToJson vs = .ok js → itemsOfJson js = .ok vs
  | [], _, _, h => by
    cases h
    rfl
  | v :: vs, _, hproper, h => by
    obtain ⟨hv, hvs⟩ := List.forall_mem_cons.mp hproper
    rw [itemsToJson] at h
    split at h
    · rename_i j hj
      obtain ⟨js, hjs, rfl⟩ := Except.map_eq_ok_iff.mp h
      simp only [itemsOfJson, ofJson_toJson hv hj, itemsOfJson_itemsToJson hvs hjs]
      rfl
    · cases h

theorem entriesOfJson_entriesToJson : ∀ {es : List (Value × Value)} {js : List Json}
    {refusal : ValueError} (before : List (Value × Value)), Distinct (fun x y => x == y) ((before ++ es).map Prod.fst) →
      (∀ e ∈ es, e.1.Proper ∧ e.2.Proper) → entriesToJson es = .ok js →
        entriesOfJson refusal before js = .ok (before ++ es)
  | [], _, _, before, _, _, h => by
    cases h
    rw [List.append_nil, entriesOfJson]
  | (k, v) :: es, _, refusal, before, hdistinct, hproper, h => by
    obtain ⟨⟨hk, hv⟩, hes⟩ := List.forall_mem_cons.mp hproper
    rw [entriesToJson] at h
    split at h
    · rename_i key hkey
      split at h
      · rename_i value hvalue
        obtain ⟨js, hjs, rfl⟩ := Except.map_eq_ok_iff.mp h
        have hnew : memberOf (before.map Prod.fst) k = false :=
          memberOf_eq_false (es.map Prod.fst) (by simpa using hdistinct)
        have hassoc : before ++ (k, v) :: es = before ++ [(k, v)] ++ es := by simp
        simp only [entriesOfJson, ofJson_toJson hk hkey, ofJson_toJson hv hvalue,
          insertEntry_of_new v hnew]
        rw [hassoc] at hdistinct ⊢
        exact entriesOfJson_entriesToJson _ hdistinct hes hjs
      · cases h
    · cases h

end

end Dialogue.Value
