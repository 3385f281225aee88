import Dialogue.Proofs.Json.Numeral

namespace Dialogue

def Numeral.literal (n : Numeral) : Json.Literal :=
  (Json.Literal.ofChars? n.text.toList).getD ⟨false, 0, 0, true⟩

theorem Numeral.Valid.literal {n : Numeral} (hn : n.Valid) :
    Json.Literal.ofChars? n.text.toList = some n.literal ∧ n.literal.numeral? = some n ∧
      Json.AllWord n.text.toList := by
  obtain ⟨l, hl, hnumeral, hword⟩ := hn.ofChars?
  have hliteral : n.literal = l := by simp [Numeral.literal, hl]
  exact ⟨hliteral ▸ hl, hliteral ▸ hnumeral, hword⟩

namespace Json

mutual

def Canonical : Json → Prop
  | number n => n.Valid
  | array items => CanonicalItems items
  | object members => Entries.Ordered members ∧ CanonicalMembers members
  | _ => True
termination_by structural j => j

def CanonicalItems : List Json → Prop
  | [] => True
  | j :: rest => j.Canonical ∧ CanonicalItems rest
termination_by structural js => js

def CanonicalMembers : List (String × Json) → Prop
  | [] => True
  | (_, j) :: rest => j.Canonical ∧ CanonicalMembers rest
termination_by structural ms => ms

end

mutual

def tokens : Json → List Token
  | null => [.null]
  | bool b => [.bool b]
  | number n => [.number n.literal]
  | string s => [.string (some s)]
  | array items => .openBracket :: (itemTokens false items ++ [.closeBracket])
  | object members => .openBrace :: (memberTokens false members ++ [.closeBrace])
termination_by structural j => j

def itemTokens : Bool → List Json → List Token
  | _, [] => []
  | comma, j :: rest => (if comma then [.comma] else []) ++ (tokens j ++ itemTokens true rest)
termination_by structural _ js => js

def memberTokens : Bool → List (String × Json) → List Token
  | _, [] => []
  | comma, (key, j) :: rest => (if comma then [.comma] else []) ++
      (.string (some key) :: .colon :: (tokens j ++ memberTokens true rest))
termination_by structural _ ms => ms

end

def Delimited (cs : List Char) : Prop := ∀ c ∈ cs.head?, isWordChar c = false

namespace Scan

variable {done : List Token} {cs : List Char} {c : Char}

theorem run_cons (done : List Token) (scan : Scan) (c : Char) (cs : List Char) :
    run done scan (c :: cs) = match scan.step done c with
      | some (done, scan) => run done scan cs
      | none => none := by
  cases scan <;> rfl

theorem run_word {read word : List Char} (hword : AllWord word) :
    run done (.word read) (word ++ cs) = run done (.word (word.reverse ++ read)) cs := by
  induction word generalizing read with
  | nil => rfl
  | cons c word ih =>
    have hc : isWordChar c = true := hword c List.mem_cons_self
    rw [List.cons_append, run_cons, step, if_pos hc]
    simp only
    rw [ih fun d hd => hword d (List.mem_cons_of_mem c hd)]
    simp

theorem start_word (hc : isWordChar c = true) : start done c = some (done, .word [c]) := by
  have hblank : isBlank c = false := by
    rw [← Bool.not_eq_true]
    intro h
    simp only [isBlank, Bool.or_eq_true, beq_iff_eq] at h
    rcases h with ((rfl | rfl) | rfl) | rfl <;> exact absurd hc (by decide)
  have hquote : c ≠ '"' := by
    rintro rfl
    exact absurd hc (by decide)
  simp [start, hblank, hquote, hc]

theorem run_of_ofWord? {word : List Char} {t : Token} (hne : word ≠ []) (hword : AllWord word)
    (ht : Token.ofWord? word = some t) (hcs : Delimited cs) :
    run done .between (word ++ cs) = run (t :: done) .between cs := by
  obtain ⟨c, rest, rfl⟩ := List.exists_cons_of_ne_nil hne
  have hc : isWordChar c = true := hword c List.mem_cons_self
  rw [List.cons_append, run_cons, step, start_word hc]
  simp only
  rw [run_word fun d hd => hword d (List.mem_cons_of_mem c hd)]
  have hread : (rest.reverse ++ [c]).reverse = c :: rest := by simp
  cases cs with
  | nil => simp [run, hread, ht]
  | cons d cs =>
    have hd := hcs d rfl
    have hstep : step done (.word (rest.reverse ++ [c])) d = start (t :: done) d := by
      simp only [step, hd, hread, ht]
      rfl
    rw [run_cons, hstep, run_cons, step]

theorem run_mark {t : Token} (hblank : isBlank c = false) (hquote : c ≠ '"')
    (hword : isWordChar c = false) (ht : Token.ofMark? c = some t) :
    run done .between (c :: cs) = run (t :: done) .between cs := by
  simp [run_cons, step, start, hblank, hquote, hword, ht]

theorem run_escape (c : Char) {read : List Nat} :
    run done (.inside read) (escape c ++ cs) = run done (.inside (c.toNat :: read)) cs := by
  have hhex : ∀ n < 32, hexValue? (Hex.digit (n / 16)) = some (n / 16) ∧
      hexValue? (Hex.digit (n % 16)) = some (n % 16) := by decide
  unfold escape
  split
  · subst_vars; rfl
  split
  · subst_vars; rfl
  split
  · rename_i h
    rw [h]
    rfl
  split
  · rename_i h
    rw [h]
    rfl
  split
  · subst_vars; rfl
  split
  · subst_vars; rfl
  split
  · subst_vars; rfl
  split
  · rename_i h
    obtain ⟨hhigh, hlow⟩ := hhex c.toNat h
    have hzero : hexValue? '0' = some 0 := rfl
    have hvalue : c.toNat / 16 * 16 + c.toNat % 16 = c.toNat := by omega
    simp [run_cons, step, hzero, hhigh, hlow, hvalue]
  · rename_i hquote hslash _ _ _ _ _ hcontrol
    rw [List.singleton_append, run_cons, step, if_neg hquote, if_neg hslash, if_neg hcontrol]

theorem run_escapes (text : List Char) {read : List Nat} :
    run done (.inside read) (text.flatMap escape ++ cs) =
      run done (.inside ((text.map Char.toNat).reverse ++ read)) cs := by
  induction text generalizing read with
  | nil => rfl
  | cons c text ih =>
    rw [List.flatMap_cons, List.append_assoc, run_escape, ih]
    simp

end Scan

theorem isSurrogate_toNat (c : Char) :
    isHighSurrogate c.toNat = false ∧ isLowSurrogate c.toNat = false := by
  have hvalid : c.toNat < 0xd800 ∨ 0xdfff < c.toNat ∧ c.toNat < 0x110000 := c.valid
  simp only [isHighSurrogate, isLowSurrogate, Bool.and_eq_false_imp, decide_eq_true_eq,
    decide_eq_false_iff_not]
  omega

theorem joinPairs?_toNat (text done : List Char) :
    joinPairs? done (text.map Char.toNat) = some (done.reverse ++ text) := by
  induction text generalizing done with
  | nil => simp [joinPairs?]
  | cons c text ih =>
    obtain ⟨hhigh, hlow⟩ := isSurrogate_toNat c
    cases text with
    | nil => simp [joinPairs?, hhigh, hlow, Char.ofNat_toNat]
    | cons d text =>
      have hrest := ih (c :: done)
      rw [List.map_cons] at hrest ⊢
      rw [List.map_cons, joinPairs?, if_neg (by simp [hhigh]), if_neg (by simp [hlow]),
        Char.ofNat_toNat, hrest]
      simp

namespace Scan

theorem run_quoted (s : String) : run done .between (quoted s ++ cs) =
    run (.string (some s) :: done) .between cs := by
  have hstart : start done '"' = some (done, .inside []) := rfl
  have hjoin : joinPairs? [] ((s.toList.map Char.toNat).reverse ++ []).reverse = some s.toList := by
    simp [joinPairs?_toNat]
  rw [quoted, List.cons_append, run_cons, step, hstart, List.append_assoc]
  simp only
  rw [run_escapes, List.singleton_append, run_cons, step, if_pos rfl, hjoin]
  simp

end Scan

theorem ofWord?_text {n : Numeral} (hn : n.Valid) :
    Token.ofWord? n.text.toList = some (.number n.literal) := by
  obtain ⟨hliteral, -, -⟩ := hn.literal
  have hword {word : List Char} (h : Literal.ofChars? word = none) : n.text.toList ≠ word := by
    intro heq
    rw [heq, h] at hliteral
    cases hliteral
  rw [Token.ofWord?, if_neg (hword rfl), if_neg (hword rfl), if_neg (hword rfl), hliteral]
  rfl

theorem delimited_cons {c : Char} (hc : isWordChar c = false) (cs : List Char) :
    Delimited (c :: cs) := by
  rintro d hd
  cases hd
  exact hc

theorem delimited_itemChars {items : List Json} {cs : List Char} (hcs : Delimited cs) :
    Delimited (itemChars true items ++ cs) := by
  cases items with
  | nil => exact hcs
  | cons j items => exact delimited_cons rfl _

theorem delimited_memberChars {members : List (String × Json)} {cs : List Char}
    (hcs : Delimited cs) : Delimited (memberChars true members ++ cs) := by
  cases members with
  | nil => exact hcs
  | cons m members => exact delimited_cons rfl _

theorem run_comma (comma : Bool) {done : List Token} {cs : List Char} :
    Scan.run done .between ((if comma then [','] else []) ++ cs) =
      Scan.run ((if comma then [Token.comma] else []) ++ done) .between cs := by
  cases comma with
  | false => rfl
  | true => exact Scan.run_mark rfl (by decide) rfl rfl

mutual

theorem run_chars : ∀ {j : Json} {done : List Token} {cs : List Char}, j.Canonical → Delimited cs →
    Scan.run done .between (j.chars ++ cs) = Scan.run (j.tokens.reverse ++ done) .between cs
  | .null, _, _, _, hcs => Scan.run_of_ofWord? (by simp [chars]) (List.all_eq_true.mp rfl) rfl hcs
  | .bool true, _, _, _, hcs =>
    Scan.run_of_ofWord? (by simp [chars]) (List.all_eq_true.mp rfl) rfl hcs
  | .bool false, _, _, _, hcs =>
    Scan.run_of_ofWord? (by simp [chars]) (List.all_eq_true.mp rfl) rfl hcs
  | .number n, done, cs, hj, hcs => by
    have hn : n.Valid := hj
    have hne : n.text.toList ≠ [] := by
      intro hnil
      have hliteral := hn.literal.1
      rw [hnil] at hliteral
      cases hliteral
    rw [chars, Scan.run_of_ofWord? hne hn.literal.2.2 (ofWord?_text hn) hcs]
    rfl
  | .string s, _, _, _, _ => Scan.run_quoted s
  | .array items, done, cs, hj, hcs => by
    rw [chars, List.cons_append, Scan.run_mark rfl (by decide) rfl rfl, List.append_assoc,
      List.singleton_append, run_itemChars hj (delimited_cons rfl _),
      Scan.run_mark rfl (by decide) rfl rfl]
    simp [tokens]
  | .object members, done, cs, hj, hcs => by
    rw [chars, List.cons_append, Scan.run_mark rfl (by decide) rfl rfl, List.append_assoc,
      List.singleton_append, run_memberChars hj.2 (delimited_cons rfl _),
      Scan.run_mark rfl (by decide) rfl rfl]
    simp [tokens]

theorem run_itemChars : ∀ {items : List Json} {comma : Bool} {done : List Token} {cs : List Char},
    CanonicalItems items → Delimited cs →
      Scan.run done .between (itemChars comma items ++ cs) =
        Scan.run ((itemTokens comma items).reverse ++ done) .between cs
  | [], _, _, _, _, _ => rfl
  | j :: rest, comma, done, cs, hitems, hcs => by
    rw [itemChars, List.append_assoc, run_comma, List.append_assoc,
      run_chars hitems.1 (delimited_itemChars hcs), run_itemChars hitems.2 hcs]
    cases comma <;> simp [itemTokens]

theorem run_memberChars : ∀ {members : List (String × Json)} {comma : Bool} {done : List Token}
    {cs : List Char}, CanonicalMembers members → Delimited cs →
      Scan.run done .between (memberChars comma members ++ cs) =
        Scan.run ((memberTokens comma members).reverse ++ done) .between cs
  | [], _, _, _, _, _ => rfl
  | (key, j) :: rest, comma, done, cs, hmembers, hcs => by
    rw [memberChars, List.append_assoc, run_comma, List.append_assoc, Scan.run_quoted,
      List.cons_append, Scan.run_mark rfl (by decide) rfl rfl, List.append_assoc,
      run_chars hmembers.1 (delimited_memberChars hcs), run_memberChars hmembers.2 hcs]
    cases comma <;> simp [memberTokens]

end

theorem tokens?_text {j : Json} (hj : j.Canonical) : tokens? j.text = some j.tokens := by
  have hrun := @run_chars _ [] [] hj nofun
  simpa [tokens?, text, Scan.run] using hrun

end Json

end Dialogue
