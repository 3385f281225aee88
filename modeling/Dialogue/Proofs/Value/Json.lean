import Dialogue.Proofs.Json.Document
import Dialogue.Proofs.Wire
import Dialogue.Value.Json

namespace Dialogue.Value

mutual

theorem canonical_toJson : ∀ {v : Value} {j : Json}, toJson v = .ok j → j.Canonical
  | .nil, _, h | .bool _, _, h | .string _, _, h => by
    cases h
    trivial
  | .number n, _, h => by
    rw [toJson] at h
    split at h
    · rename_i hfinite
      cases h
      exact hfinite
    · cases h
  | .list items, _, h => by
    obtain ⟨js, hjs, rfl⟩ := Except.map_eq_ok_iff.mp h
    exact canonical_itemsToJson hjs
  | .set members, _, h => by
    obtain ⟨js, hjs, rfl⟩ := Except.map_eq_ok_iff.mp h
    exact ⟨List.pairwise_singleton _ _, canonical_itemsToJson hjs, trivial⟩
  | .map entries, _, h => by
    obtain ⟨js, hjs, rfl⟩ := Except.map_eq_ok_iff.mp h
    exact ⟨List.pairwise_singleton _ _, canonical_entriesToJson hjs, trivial⟩
  | .enum e, _, h => by
    cases h
    refine ⟨List.pairwise_pair.mpr ?_, trivial, trivial, trivial⟩
    show "enum" < "value"
    decide

theorem canonical_itemsToJson : ∀ {vs : List Value} {js : List Json}, itemsToJson vs = .ok js →
    Json.CanonicalItems js
  | [], _, h => by
    cases h
    trivial
  | v :: rest, _, h => by
    rw [itemsToJson] at h
    split at h
    · rename_i j hj
      obtain ⟨js, hjs, rfl⟩ := Except.map_eq_ok_iff.mp h
      exact ⟨canonical_toJson hj, canonical_itemsToJson hjs⟩
    · cases h

theorem canonical_entriesToJson : ∀ {es : List (Value × Value)} {js : List Json},
    entriesToJson es = .ok js → Json.CanonicalItems js
  | [], _, h => by
    cases h
    trivial
  | (k, v) :: rest, _, h => by
    rw [entriesToJson] at h
    split at h
    · rename_i key hkey
      split at h
      · rename_i value hvalue
        obtain ⟨js, hjs, rfl⟩ := Except.map_eq_ok_iff.mp h
        exact ⟨⟨canonical_toJson hkey, canonical_toJson hvalue, trivial⟩,
          canonical_entriesToJson hjs⟩
      · cases h
    · cases h

end

end Dialogue.Value
