import Dialogue.Proofs.Json.Token

namespace Dialogue.Json

mutual

def written : Json → Written
  | null => .null
  | bool b => .bool b
  | number n => .number n.literal
  | string s => .string (some s)
  | array items => .array (writtenItems items)
  | object members => .object (writtenMembers members)
termination_by structural j => j

def writtenItems : List Json → List Written
  | [] => []
  | j :: rest => written j :: writtenItems rest
termination_by structural js => js

def writtenMembers : List (String × Json) → List (Option String × Written)
  | [] => []
  | (key, j) :: rest => (some key, written j) :: writtenMembers rest
termination_by structural ms => ms

end

mutual

/-- How many arrays and objects lie within each other. -/
def nesting : Json → Nat
  | array items => itemsNesting items + 1
  | object members => membersNesting members + 1
  | _ => 0
termination_by structural j => j

def itemsNesting : List Json → Nat
  | [] => 0
  | j :: rest => max (nesting j) (itemsNesting rest)
termination_by structural js => js

def membersNesting : List (String × Json) → Nat
  | [] => 0
  | (_, j) :: rest => max (nesting j) (membersNesting rest)
termination_by structural ms => ms

end

namespace Reading

theorem run_cons (reading : Reading) (t : Token) (ts : List Token) :
    run reading (t :: ts) = match reading.step t with
      | some reading => run reading ts
      | none => none := by
  cases reading <;> rfl

theorem run_firstItem (j : Json) (outer : List Frame) (ts : List Token) :
    run (firstItem outer) (j.tokens ++ ts) = run (value (.array [] :: outer)) (j.tokens ++ ts) := by
  cases j <;> rfl

end Reading

open Reading in
mutual

theorem run_tokens : ∀ (j : Json) (outer : List Frame) (ts : List Token),
    run (.value outer) (j.tokens ++ ts) = run (complete j.written outer) ts
  | .null, outer, ts => rfl
  | .bool b, outer, ts => rfl
  | .number n, outer, ts => rfl
  | .string s, outer, ts => rfl
  | .array items, outer, ts => by
    rw [tokens, List.cons_append, run_cons]
    cases items with
    | nil => rfl
    | cons j rest =>
      have hfirst := run_firstItem j outer (itemTokens true rest ++ (.closeBracket :: ts))
      simp only [step, startValue, itemTokens, Bool.false_eq_true, if_false, List.nil_append,
        List.append_assoc, List.singleton_append, hfirst]
      rw [run_tokens j, complete, run_itemTokens rest]
      rfl
  | .object members, outer, ts => by
    rw [tokens, List.cons_append, run_cons]
    cases members with
    | nil => rfl
    | cons m rest =>
      obtain ⟨key, j⟩ := m
      simp only [step, startValue, memberTokens, Bool.false_eq_true, if_false, List.nil_append,
        List.cons_append, List.append_assoc, run_cons (.firstKey outer),
        run_cons (.colon [] (some key) outer)]
      rw [run_tokens j, complete, run_memberTokens rest]
      rfl

theorem run_itemTokens : ∀ (items : List Json) (before : List Written) (outer : List Frame)
    (ts : List Token), run (.nextItem before outer) (itemTokens true items ++ .closeBracket :: ts) =
      run (complete (.array (before.reverse ++ writtenItems items)) outer) ts
  | [], before, outer, ts => by
    simp [itemTokens, writtenItems, run_cons, step]
  | j :: rest, before, outer, ts => by
    simp only [itemTokens, if_true, List.nil_append, List.cons_append, List.append_assoc,
      run_cons (.nextItem before outer), step]
    rw [run_tokens j, complete, run_itemTokens rest]
    simp [writtenItems]

theorem run_memberTokens : ∀ (members : List (String × Json))
    (before : List (Option String × Written)) (outer : List Frame) (ts : List Token),
    run (.nextMember before outer) (memberTokens true members ++ .closeBrace :: ts) =
      run (complete (.object (before.reverse ++ writtenMembers members)) outer) ts
  | [], before, outer, ts => by
    simp [memberTokens, writtenMembers, run_cons, step]
  | (key, j) :: rest, before, outer, ts => by
    simp only [memberTokens, if_true, List.nil_append, List.cons_append, List.append_assoc,
      run_cons (.nextMember before outer), run_cons (.nextKey before outer),
      run_cons (.colon before (some key) outer), step]
    rw [run_tokens j, complete, run_memberTokens rest]
    simp [writtenMembers]

end

theorem written?_text {j : Json} (hj : j.Canonical) : written? j.text = some j.written := by
  have hrun := run_tokens j [] []
  rw [List.append_nil] at hrun
  simp [written?, tokens?_text hj, hrun, Reading.complete, Reading.run]

theorem insert_last {α : Type} {before : List (String × α)} {key : String} {value : α}
    (h : ∀ e ∈ before, e.1 < key) : Entries.insert key value before = before ++ [(key, value)] := by
  induction before with
  | nil => rfl
  | cons e before ih =>
    have hlt : e.1 < key := h e List.mem_cons_self
    rw [Entries.insert, if_neg fun h => String.lt_irrefl _ (String.lt_trans h hlt),
      if_neg (String.ne_of_lt hlt).symm, ih fun e' he' => h e' (List.mem_cons_of_mem e he')]
    rfl

open Written in
mutual

theorem document?_written : ∀ {j : Json} (level : Nat), j.Canonical →
    document? level j.written = if j.nesting ≤ level then some j else none
  | .null, level, _ | .bool b, level, _ | .string s, level, _ => by
    simp [written, document?, nesting]
  | .number n, level, hj => by
    have hn : n.Valid := hj
    simp [written, document?, nesting, hn.literal.2.1]
  | .array items, 0, _ => by simp [written, document?, nesting]
  | .array items, level + 1, hj => by
    rw [written, document?, items?_written level hj, nesting]
    split <;> split <;> first | rfl | omega
  | .object members, 0, _ => by simp [written, document?, nesting]
  | .object members, level + 1, hj => by
    rw [written, document?, @members?_written _ [] level hj.2 hj.1, nesting]
    split <;> split <;> first | rfl | omega

theorem items?_written : ∀ {items : List Json} (level : Nat), CanonicalItems items →
    items? level (writtenItems items) = if itemsNesting items ≤ level then some items else none
  | [], level, _ => by simp [writtenItems, items?, itemsNesting]
  | j :: rest, level, hitems => by
    rw [writtenItems, items?, document?_written level hitems.1, items?_written level hitems.2,
      itemsNesting]
    by_cases hj : j.nesting ≤ level <;> by_cases hrest : itemsNesting rest ≤ level <;>
      simp [hj, hrest]

theorem members?_written : ∀ {members : List (String × Json)} {before : List (String × Json)}
    (level : Nat), CanonicalMembers members → Entries.Ordered (before ++ members) →
      members? level before (writtenMembers members) =
        if membersNesting members ≤ level then some (before ++ members) else none
  | [], before, level, _, _ => by simp [writtenMembers, members?, membersNesting]
  | (key, j) :: rest, before, level, hmembers, hordered => by
    have hlast : ∀ e ∈ before, e.1 < key := fun e he =>
      (List.pairwise_append.mp hordered).2.2 e he (key, j) List.mem_cons_self
    have hordered' : Entries.Ordered ((before ++ [(key, j)]) ++ rest) := by simpa using hordered
    simp only [writtenMembers, members?, document?_written level hmembers.1, membersNesting]
    by_cases hj : j.nesting ≤ level
    · simp only [hj, if_true]
      rw [insert_last hlast, members?_written level hmembers.2 hordered']
      simp [hj]
    · simp [hj]

end

theorem parse?_text {j : Json} (hj : j.Canonical) :
    parse? j.text = if j.nesting ≤ Written.maxNesting then some j else none := by
  rw [parse?, written?_text hj]
  exact document?_written Written.maxNesting hj

theorem canonicalMembers_iff {members : List (String × Json)} :
    CanonicalMembers members ↔ ∀ m ∈ members, m.2.Canonical := by
  induction members with
  | nil => simp [CanonicalMembers]
  | cons m members ih => simp [CanonicalMembers, ih]

theorem valid_of_numeral? {l : Literal} {n : Numeral} (h : l.numeral? = some n) : n.Valid := by
  unfold Literal.numeral? at h
  split at h
  · rename_i hnatural
    cases h
    exact hnatural.2.2
  · split at h
    · rename_i hnegative
      cases h
      exact hnegative.2.2
    · obtain ⟨x, hx, rfl⟩ := Option.map_eq_some_iff.mp h
      exact Number.isFinite_of_ofDecimal? hx

open Written in
mutual

theorem canonical_of_document? : ∀ {w : Written} {level : Nat} {j : Json},
    document? level w = some j → j.Canonical
  | .null, _, _, h => by
    cases h
    trivial
  | .bool b, _, _, h => by
    cases h
    trivial
  | .number l, _, _, h => by
    obtain ⟨n, hn, rfl⟩ := Option.map_eq_some_iff.mp h
    exact valid_of_numeral? hn
  | .string s, _, _, h => by
    obtain ⟨s, -, rfl⟩ := Option.map_eq_some_iff.mp h
    trivial
  | .array items, 0, _, h => by cases h
  | .array items, level + 1, _, h => by
    obtain ⟨js, hjs, rfl⟩ := Option.map_eq_some_iff.mp h
    exact canonical_of_items? hjs
  | .object members, 0, _, h => by cases h
  | .object members, level + 1, _, h => by
    obtain ⟨ms, hms, rfl⟩ := Option.map_eq_some_iff.mp h
    exact canonical_of_members? .nil trivial hms

theorem canonical_of_items? : ∀ {ws : List Written} {level : Nat} {js : List Json},
    items? level ws = some js → CanonicalItems js
  | [], _, _, h => by
    cases h
    trivial
  | w :: rest, level, js, h => by
    rw [items?] at h
    split at h
    · rename_i j hj
      obtain ⟨js, hjs, rfl⟩ := Option.map_eq_some_iff.mp h
      exact ⟨canonical_of_document? hj, canonical_of_items? hjs⟩
    · cases h

theorem canonical_of_members? : ∀ {ws : List (Option String × Written)} {level : Nat}
    {before ms : List (String × Json)}, Entries.Ordered before → CanonicalMembers before →
      members? level before ws = some ms → Entries.Ordered ms ∧ CanonicalMembers ms
  | [], _, _, _, hordered, hbefore, h => by
    cases h
    exact ⟨hordered, hbefore⟩
  | (key, w) :: rest, level, before, ms, hordered, hbefore, h => by
    unfold members? at h
    split at h
    · rename_i key j hj
      refine canonical_of_members? (hordered.insert key j) ?_ h
      refine canonicalMembers_iff.mpr fun m hm => ?_
      rcases Entries.mem_insert hm with rfl | hm
      · exact canonical_of_document? hj
      · exact canonicalMembers_iff.mp hbefore m hm
    · cases h

end

theorem canonical_of_parse? {text : String} {j : Json} (h : parse? text = some j) :
    j.Canonical := by
  obtain ⟨w, -, hj⟩ := Option.bind_eq_some_iff.mp h
  exact canonical_of_document? hj

end Dialogue.Json
