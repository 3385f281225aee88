import Dialogue.Json
import Dialogue.Json.Document
import Dialogue.Proofs.Number.Decimal

namespace Dialogue

def Numeral.Valid : Numeral → Prop
  | natural n => n < UInt64.size
  | negative n => 0 < n ∧ 2 * n ≤ UInt64.size
  | real x => x.isFinite = true

namespace Json

def AllDigits (cs : List Char) : Prop := ∀ c ∈ cs, isDigit c = true

theorem allDigits_toDigits (n : Nat) : AllDigits (Nat.toDigits 10 n) :=
  fun _ hc => Nat.isDigit_of_mem_toDigits (by decide) (by decide) hc

theorem allDigits_zeros (n : Nat) : AllDigits (List.replicate n '0') :=
  fun _ hc => List.eq_of_mem_replicate hc ▸ rfl

theorem AllDigits.append {cs ds : List Char} (hcs : AllDigits cs) (hds : AllDigits ds) :
    AllDigits (cs ++ ds) :=
  fun c hc => (List.mem_append.mp hc).elim (hcs c) (hds c)

def AllWord (cs : List Char) : Prop := ∀ c ∈ cs, isWordChar c = true

theorem AllDigits.word {cs : List Char} (h : AllDigits cs) : AllWord cs := by
  intro c hc
  have hdigit : c.isDigit = true := h c hc
  simp [isWordChar, Char.isAlphanum, hdigit]

theorem AllWord.cons {c : Char} {cs : List Char} (hc : isWordChar c = true) (hcs : AllWord cs) :
    AllWord (c :: cs) := by
  rintro d (_ | ⟨_, hd⟩)
  · exact hc
  · exact hcs d hd

theorem AllWord.append {cs ds : List Char} (hcs : AllWord cs) (hds : AllWord ds) :
    AllWord (cs ++ ds) :=
  fun c hc => (List.mem_append.mp hc).elim (hcs c) (hds c)

theorem digitsValue_eq (cs : List Char) : digitsValue cs = Nat.ofDigitChars 10 cs 0 := by
  rw [digitsValue, Nat.ofDigitChars_eq_foldl]
  simp only [Nat.mul_comm]

theorem digitsValue_toDigits (n : Nat) : digitsValue (Nat.toDigits 10 n) = n := by
  rw [digitsValue_eq, Nat.ofDigitChars_ten_toDigits]

theorem digitsValue_append_zeros (cs : List Char) (n : Nat) :
    digitsValue (cs ++ List.replicate n '0') = 10 ^ n * digitsValue cs := by
  simp only [digitsValue_eq, Nat.ofDigitChars_append, Nat.ofDigitChars_replicate_zero]

theorem digitsValue_zeros_append (n : Nat) (cs : List Char) :
    digitsValue (List.replicate n '0' ++ cs) = digitsValue cs := by
  simp only [digitsValue_eq, Nat.ofDigitChars_append, Nat.ofDigitChars_replicate_zero, Nat.mul_zero]

theorem head?_toDigits {n : Nat} (hn : 0 < n) : (Nat.toDigits 10 n).head? ≠ some '0' := by
  induction n using Nat.strongRecOn with
  | ind n ih =>
    rw [Nat.toDigits_eq_if (by decide)]
    split
    · rename_i hlt
      simp only [List.head?_cons, Ne, Option.some.injEq, Nat.digitChar_eq_zero]
      omega
    · have hhead := ih (n / 10) (by omega) (by omega)
      cases hdigits : Nat.toDigits 10 (n / 10) with
      | nil => exact absurd hdigits Nat.toDigits_ne_nil
      | cons c cs => simpa [hdigits] using hhead

theorem splitDigits?_append {ds rest : List Char} (hne : ds ≠ []) (hds : AllDigits ds)
    (hrest : ∀ c ∈ rest.head?, isDigit c = false) : splitDigits? (ds ++ rest) = some (ds, rest) := by
  have hstop : rest.takeWhile isDigit = [] ∧ rest.dropWhile isDigit = rest := by
    cases rest with
    | nil => exact ⟨rfl, rfl⟩
    | cons c rest => simp [hrest c rfl]
  have htake : (ds ++ rest).takeWhile isDigit = ds := by
    rw [List.takeWhile_append_of_pos hds, hstop.1, List.append_nil]
  have hdrop : (ds ++ rest).dropWhile isDigit = rest := by
    rw [List.dropWhile_append_of_pos hds, hstop.2]
  rw [splitDigits?, htake, hdrop, if_neg (by simpa using hne)]

def signChars (negative : Bool) : List Char := if negative then ['-'] else []

def fractionChars (fraction : List Char) : List Char :=
  if fraction.isEmpty then [] else '.' :: fraction

theorem allWord_signChars (negative : Bool) : AllWord (signChars negative) := by
  cases negative
  · exact nofun
  · exact .cons rfl nofun

theorem AllDigits.allWord_fractionChars {fraction : List Char} (h : AllDigits fraction) :
    AllWord (fractionChars fraction) := by
  unfold fractionChars
  split
  · exact nofun
  · exact .cons rfl h.word

structure IsWhole (ds : List Char) : Prop where
  ne_nil : ds ≠ []
  digits : AllDigits ds
  zero : ds.head? = some '0' → ds.length = 1

theorem isWhole_toDigits (n : Nat) : IsWhole (Nat.toDigits 10 n) := by
  refine ⟨Nat.toDigits_ne_nil, allDigits_toDigits n, fun h => ?_⟩
  rcases Nat.eq_zero_or_pos n with rfl | hn
  · rfl
  · exact absurd h (head?_toDigits hn)

theorem head?_of_exponentOf? {cs : List Char} {e : Int} (h : exponentOf? cs = some e) :
    ∀ c ∈ cs.head?, isDigit c = false ∧ c ≠ '.' := by
  intro c hc
  cases cs with
  | nil => cases hc
  | cons d cs =>
    cases hc
    simp only [exponentOf?] at h
    split at h
    · rename_i he
      rcases he with rfl | rfl <;> decide
    · cases h

namespace Literal

def unsigned? (negative : Bool) (cs : List Char) : Option Literal := do
  let (whole, rest) ← splitDigits? cs
  if whole.head? = some '0' ∧ whole.length ≠ 1 then none
  let (fraction, rest) ← match rest with
    | '.' :: rest => splitDigits? rest
    | rest => some ([], rest)
  let exponent ← exponentOf? rest
  return ⟨negative, digitsValue (whole ++ fraction), exponent - fraction.length,
    fraction.isEmpty && rest.isEmpty⟩

theorem ofChars?_signed (negative : Bool) {c : Char} {cs : List Char} (hc : c ≠ '-') :
    ofChars? (signChars negative ++ c :: cs) = unsigned? negative (c :: cs) := by
  cases negative with
  | true => rfl
  | false =>
    simp only [signChars, Bool.false_eq_true, if_false, List.nil_append, ofChars?]
    split
    · rename_i heq
      cases heq
      exact absurd rfl hc
    · rfl

theorem ofChars?_parts (negative : Bool) {whole fraction exponent : List Char} {e : Int}
    (hwhole : IsWhole whole) (hfraction : AllDigits fraction) (he : exponentOf? exponent = some e) :
    ofChars? (signChars negative ++ (whole ++ (fractionChars fraction ++ exponent))) =
      some ⟨negative, digitsValue (whole ++ fraction), e - fraction.length,
        fraction.isEmpty && exponent.isEmpty⟩ := by
  have hexponent := head?_of_exponentOf? he
  have hrest : ∀ c ∈ (fractionChars fraction ++ exponent).head?, isDigit c = false := by
    unfold fractionChars
    split
    · exact fun c hc => (hexponent c hc).1
    · intro c hc
      cases hc
      rfl
  have hsplit := splitDigits?_append hwhole.ne_nil hwhole.digits hrest
  have hzero : ¬(whole.head? = some '0' ∧ whole.length ≠ 1) := fun h => h.2 (hwhole.zero h.1)
  have hread : unsigned? negative (whole ++ (fractionChars fraction ++ exponent)) =
      some ⟨negative, digitsValue (whole ++ fraction), e - fraction.length,
        fraction.isEmpty && exponent.isEmpty⟩ := by
    by_cases hempty : fraction = []
    · subst hempty
      cases exponent with
      | nil => simp_all [unsigned?, fractionChars]
      | cons d ds =>
        have hd := (hexponent d rfl).2
        simp_all [unsigned?, fractionChars]
    · have hfractions := splitDigits?_append hempty hfraction fun c hc => (hexponent c hc).1
      simp_all [unsigned?, fractionChars]
  rw [← hread]
  obtain ⟨c, cs, rfl⟩ := List.exists_cons_of_ne_nil hwhole.ne_nil
  refine ofChars?_signed negative ?_
  rintro rfl
  have hdigit := hwhole.digits '-' List.mem_cons_self
  revert hdigit
  decide

end Literal

def exponentChars (power : Int) : List Char :=
  'e' :: (if power < 0 then '-' else '+') :: Nat.toDigits 10 power.natAbs

theorem exponentOf?_exponentChars (power : Int) :
    exponentOf? (exponentChars power) = some power := by
  have hsplit := @splitDigits?_append _ [] Nat.toDigits_ne_nil
    (allDigits_toDigits power.natAbs) (by simp)
  rw [List.append_nil] at hsplit
  unfold exponentChars
  split
  · have hvalue : -(power.natAbs : Int) = power := by omega
    simp only [exponentOf?, true_or, if_true, hsplit, digitsValue_toDigits, hvalue]
  · have hvalue : (power.natAbs : Int) = power := by omega
    simp only [exponentOf?, true_or, if_true, hsplit, digitsValue_toDigits, hvalue,
      if_neg Bool.false_ne_true]

theorem allWord_exponentChars (power : Int) : AllWord (exponentChars power) := by
  refine .cons rfl (.cons ?_ (allDigits_toDigits _).word)
  split <;> rfl

def Spells (digits : Nat) (exponent : Int) (cs : List Char) : Prop :=
  ∃ whole fraction power e, IsWhole whole ∧ AllDigits fraction ∧ exponentOf? power = some e ∧
    AllWord power ∧ (fraction.isEmpty && power.isEmpty) = false ∧
    cs = whole ++ (fractionChars fraction ++ power) ∧
      ∀ negative,
        Number.ofDecimal? negative (digitsValue (whole ++ fraction)) (e - fraction.length) =
          Number.ofDecimal? negative digits exponent

theorem toList_zeros (n : Nat) : (Decimal.zeros n).toList = List.replicate n '0' := by
  rw [Decimal.zeros, String.pushn_eq_repeat_push]
  induction n with
  | zero => rfl
  | succ n ih => rw [Nat.repeat, String.toList_push, ih, List.replicate_succ']

theorem isWhole_of_head? {n : Nat} (hn : 0 < n) {cs : List Char} (hdigits : AllDigits cs)
    (hhead : cs.head? = (Nat.toDigits 10 n).head?) : IsWhole cs := by
  refine ⟨?_, hdigits, fun hzero => absurd (hhead.symm.trans hzero) (head?_toDigits hn)⟩
  rintro rfl
  exact Nat.toDigits_ne_nil (List.head?_eq_none_iff.mp hhead.symm)

theorem spells_split {n : Nat} (hn : 0 < n) {k : Nat} (hk : 0 < k) {power : List Char} {e : Int}
    (he : exponentOf? power = some e) (hpower : AllWord power)
    (hreal : (((Nat.toDigits 10 n).drop k).isEmpty && power.isEmpty) = false) :
    Spells n (e + (min k (Nat.toDigits 10 n).length : Nat) - (Nat.toDigits 10 n).length)
      ((Nat.toDigits 10 n).take k ++ (fractionChars ((Nat.toDigits 10 n).drop k) ++ power)) := by
  have hall := allDigits_toDigits n
  refine ⟨_, _, power, e, ?_, fun c hc => hall c (List.mem_of_mem_drop hc), he,
    hpower, hreal, rfl, ?_⟩
  · refine isWhole_of_head? hn (fun c hc => hall c (List.mem_of_mem_take hc)) ?_
    rw [List.head?_take, if_neg (by omega)]
  · intro negative
    rw [List.take_append_drop, digitsValue_toDigits]
    congr 1
    rw [List.length_drop]
    omega

theorem spells_positional {n : Nat} (hn : 0 < n) (point : Int) :
    Spells n (point - (Nat.toDigits 10 n).length)
      (Decimal.positional true (toString n) point).toList := by
  have hall := allDigits_toDigits n
  have hdigits : (toString n).toList = Nat.toDigits 10 n := by
    rw [Nat.toString_eq_ofList_toDigits, String.toList_ofList]
  have hlength : (toString n).length = (Nat.toDigits 10 n).length := by
    rw [← String.length_toList, hdigits]
  unfold Decimal.positional
  simp only [hlength]
  split
  · refine ⟨['0'], List.replicate (-point).toNat '0' ++ Nat.toDigits 10 n, [], 0,
      isWhole_toDigits 0, (allDigits_zeros _).append hall, rfl, nofun, by simp, ?_,
      fun negative => ?_⟩
    · simp [toList_zeros, fractionChars]
    · have hvalue := digitsValue_zeros_append (1 + (-point).toNat) (Nat.toDigits 10 n)
      rw [← List.replicate_append_replicate, List.append_assoc, digitsValue_toDigits] at hvalue
      rw [show ['0'] = List.replicate 1 '0' from rfl, hvalue]
      congr 1
      simp
      omega
  · split
    · rename_i hpoint hwhole
      refine ⟨Nat.toDigits 10 n ++ List.replicate (point.toNat - (Nat.toDigits 10 n).length) '0',
        ['0'], [], 0, isWhole_of_head? hn (hall.append (allDigits_zeros _)) ?_, allDigits_zeros 1, rfl,
        nofun, rfl, ?_, fun negative => ?_⟩
      · cases h : Nat.toDigits 10 n with
        | nil => exact absurd h Nat.toDigits_ne_nil
        | cons c cs => rfl
      · simp [toList_zeros, fractionChars]
      · have hvalue := digitsValue_append_zeros (Nat.toDigits 10 n)
          (point.toNat - (Nat.toDigits 10 n).length + 1)
        rw [List.replicate_succ', ← List.append_assoc, digitsValue_toDigits] at hvalue
        rw [hvalue, Number.ofDecimal?_mul_ten_pow]
        congr 1
        simp
        omega
    · rename_i hpoint hpart
      have hspells := @spells_split _ hn point.toNat (by omega) [] _ rfl nofun (by
        simp
        omega)
      have hexponent : (0 : Int) + (min point.toNat (Nat.toDigits 10 n).length : Nat) -
          (Nat.toDigits 10 n).length = point - (Nat.toDigits 10 n).length := by omega
      rw [hexponent] at hspells
      have hdrop : (Nat.toDigits 10 n).drop point.toNat ≠ [] := by
        rw [Ne, List.drop_eq_nil_iff]
        omega
      simpa [fractionChars, hdrop] using hspells

theorem spells_scientific {n : Nat} (hn : 0 < n) (point : Int) :
    Spells n (point - (Nat.toDigits 10 n).length)
      (Decimal.scientific true (toString n) point).toList := by
  have hdigits : (toString n).toList = Nat.toDigits 10 n := by
    rw [Nat.toString_eq_ofList_toDigits, String.toList_ofList]
  have hpos : 0 < (Nat.toDigits 10 n).length := Nat.length_toDigits_pos
  have hspells := spells_split (k := 1) hn (by decide) (exponentOf?_exponentChars (point - 1))
    (allWord_exponentChars _) (by simp [exponentChars])
  have hexponent : point - 1 + (min 1 (Nat.toDigits 10 n).length : Nat) -
      (Nat.toDigits 10 n).length = point - (Nat.toDigits 10 n).length := by omega
  rw [hexponent] at hspells
  have htext : (Decimal.scientific true (toString n) point).toList = (Nat.toDigits 10 n).take 1 ++
      (fractionChars ((Nat.toDigits 10 n).drop 1) ++ exponentChars (point - 1)) := by
    have hpower : (toString (point - 1).natAbs).toList = Nat.toDigits 10 (point - 1).natAbs := by
      rw [Nat.toString_eq_ofList_toDigits, String.toList_ofList]
    unfold Decimal.scientific fractionChars exponentChars
    simp only [hdigits, String.toList_append, String.toList_ofList, hpower, List.append_assoc]
    split <;> split <;> simp
  rwa [htext]

theorem spells_zero : Spells 0 0 ['0', '.', '0'] := by
  refine ⟨['0'], ['0'], [], 0, isWhole_toDigits 0, allDigits_zeros 1, rfl, nofun, rfl, rfl,
    fun negative => ?_⟩
  rfl

theorem Spells.ofChars? {digits : Nat} {exponent : Int} {cs : List Char} {x : Number}
    (h : Spells digits exponent cs) {negative : Bool}
    (hx : Number.ofDecimal? negative digits exponent = some x) :
    ∃ l, Literal.ofChars? (signChars negative ++ cs) = some l ∧ l.numeral? = some (.real x) := by
  obtain ⟨whole, fraction, power, e, hwhole, hfraction, he, -, hreal, rfl, hvalue⟩ := h
  refine ⟨_, Literal.ofChars?_parts negative hwhole hfraction he, ?_⟩
  simp [Literal.numeral?, hreal, hvalue, hx]

theorem Spells.allWord {digits : Nat} {exponent : Int} {cs : List Char}
    (h : Spells digits exponent cs) : AllWord cs := by
  obtain ⟨whole, fraction, power, e, hwhole, hfraction, -, hpower, -, rfl, -⟩ := h
  exact hwhole.digits.word.append (hfraction.allWord_fractionChars.append hpower)

theorem spells_finite {x : Number} (hx : x.isFinite = true) : ∃ digits exponent cs,
    (Layout.document.text x).toList = signChars x.isNegative ++ cs ∧ Spells digits exponent cs ∧
      Number.ofDecimal? x.isNegative digits exponent = some x := by
  have hnan : x.isNaN = false := by
    have hfield := Number.isFinite_iff.mp hx
    simp only [Number.isNaN, Bool.and_eq_false_imp, beq_iff_eq]
    omega
  have hsign : (if x.isNegative then "-" else "").toList = signChars x.isNegative := by
    unfold signChars
    split <;> rfl
  have htext : Layout.document.text x = Layout.document.finite x := by
    simp [Layout.text, hnan, hx]
  rw [htext, Layout.finite]
  dsimp only
  by_cases hzero : x.magnitude = 0
  · refine ⟨0, 0, ['0', '.', '0'], ?_, spells_zero, ?_⟩
    · rw [if_pos hzero, String.toList_append, hsign]
      rfl
    · exact congrArg some (Number.eq_of_magnitude hx hzero).symm
  · have hreads : Decimal.readsAs x (Decimal.shortest Layout.document.tie x) = true :=
      Decimal.readsAs_shortest hx hzero
    have hdigits : 0 < (Decimal.shortest Layout.document.tie x).digits :=
      Nat.pos_of_ne_zero (Decimal.digits_shortest_ne_zero hx hzero)
    rw [if_neg hzero, String.toList_append, hsign]
    refine ⟨_, _, _, rfl, ?_, Decimal.readsAs_iff.mp hreads⟩
    generalize Decimal.shortest Layout.document.tie x = d at hdigits
    have hlength : (toString d.digits).length = (Nat.toDigits 10 d.digits).length := by
      rw [Nat.toString_eq_ofList_toDigits, String.length_ofList]
    have hexponent : ((toString d.digits).length : Int) + d.exponent -
        (Nat.toDigits 10 d.digits).length = d.exponent := by omega
    split
    · have hspells := spells_positional hdigits ((toString d.digits).length + d.exponent)
      rwa [hexponent] at hspells
    · have hspells := spells_scientific hdigits ((toString d.digits).length + d.exponent)
      rwa [hexponent] at hspells

end Json

theorem Numeral.Valid.ofChars? {n : Numeral} (hn : n.Valid) :
    ∃ l, Json.Literal.ofChars? n.text.toList = some l ∧ l.numeral? = some n ∧
      Json.AllWord n.text.toList := by
  have hinteger (negative : Bool) (k : Nat) :
      Json.Literal.ofChars? (Json.signChars negative ++ Nat.toDigits 10 k) =
          some ⟨negative, k, 0, true⟩ ∧
        Json.AllWord (Json.signChars negative ++ Nat.toDigits 10 k) := by
    have hparts := @Json.Literal.ofChars?_parts negative _ [] [] _
      (Json.isWhole_toDigits k) nofun rfl
    constructor
    · simpa [Json.fractionChars, Json.digitsValue_toDigits] using hparts
    · exact (Json.allWord_signChars negative).append (Json.allDigits_toDigits k).word
  cases n with
  | natural k =>
    have htext : (natural k).text.toList = Json.signChars false ++ Nat.toDigits 10 k := by
      rw [text, Nat.toString_eq_ofList_toDigits, String.toList_ofList]
      rfl
    have hk : k < UInt64.size := hn
    rw [htext]
    exact ⟨_, (hinteger false k).1, by simp [Json.Literal.numeral?, hk], (hinteger false k).2⟩
  | negative k =>
    have htext : (negative k).text.toList = Json.signChars true ++ Nat.toDigits 10 k := by
      rw [text, String.toList_append, Nat.toString_eq_ofList_toDigits]
      simp only [String.toList_ofList]
      rfl
    have hk : 0 < k ∧ 2 * k ≤ UInt64.size := hn
    rw [htext]
    exact ⟨_, (hinteger true k).1, by simp [Json.Literal.numeral?, hk], (hinteger true k).2⟩
  | real x =>
    obtain ⟨digits, exponent, cs, htext, hspells, hx⟩ := Json.spells_finite hn
    obtain ⟨l, hl, hnumeral⟩ := hspells.ofChars? hx
    rw [text, htext]
    exact ⟨l, hl, hnumeral, (Json.allWord_signChars _).append hspells.allWord⟩

end Dialogue
