import Dialogue.Story.Files
import Mathlib.Data.List.Basic
import Mathlib.Tactic.Common

/-!
Extensions of file names, and the files that the keys of a directory of dialogue stand for. An
extension takes the place of what follows the last dot of a key, so that keys that differ behind
their last dot only are one file.
-/

namespace Dialogue

namespace Path

structure IsPart (name : List Char) : Prop where
  whole : '/' ∉ name
  ne_nil : name ≠ []
  ne_dot : name ≠ ['.']

def IsFront (front : List Char) : Prop := front = [] ∨ ∃ directory, front = directory ++ ['/']

variable {front name : List Char}

theorem bne_of_not_mem {c : Char} (h : c ∉ name) : ∀ x ∈ name.reverse, (x != c) = true := by
  intro x hx
  rw [bne_iff_ne]
  rintro rfl
  exact h (List.mem_reverse.mp hx)

theorem IsPart.reverse_eq (h : IsPart name) : ∃ last rest, name.reverse = last :: rest ∧
    last ≠ '/' ∧ (last = '.' → ∃ c rest', rest = c :: rest' ∧ c ≠ '/') := by
  cases hname : name.reverse with
  | nil => exact absurd (List.reverse_eq_nil_iff.mp hname) h.ne_nil
  | cons last rest =>
    have hmem (c : Char) (hc : c ∈ last :: rest) : c ≠ '/' := by
      rintro rfl
      rw [← hname, List.mem_reverse] at hc
      exact h.whole hc
    refine ⟨last, rest, rfl, hmem last (List.mem_cons_self ..), ?_⟩
    rintro rfl
    cases rest with
    | nil => exact absurd (List.reverse_eq_iff.mp hname) h.ne_dot
    | cons c rest' => exact ⟨c, rest', rfl, hmem c (by simp)⟩

theorem trimEnd_append (h : IsPart name) (front : List Char) :
    trimEnd (name.reverse ++ front) = name.reverse ++ front := by
  obtain ⟨last, rest, hname, hlast, hdot⟩ := h.reverse_eq
  rw [hname, List.cons_append]
  by_cases hl : last = '.'
  · obtain ⟨c, rest', rfl, hc⟩ := hdot hl
    subst hl
    rw [List.cons_append, trimEnd]
    · nofun
    · intro rest'' h
      exact hc (List.cons.inj (List.cons.inj h).2).1
  · rw [trimEnd]
    · intro rest' h
      exact hlast (List.cons.inj h).1
    · intro rest' h
      exact hl (List.cons.inj h).1

theorem splitName_append (hname : IsPart name) (hfront : IsFront front) :
    splitName (front ++ name) = (front, name) := by
  have hwhole := bne_of_not_mem hname.whole
  have hbefore : front.reverse.takeWhile (· != '/') = [] ∧
      front.reverse.dropWhile (· != '/') = front.reverse := by
    rcases hfront with rfl | ⟨directory, rfl⟩
    · exact ⟨rfl, rfl⟩
    · rw [List.reverse_append]
      exact ⟨rfl, rfl⟩
  simp only [splitName]
  rw [List.reverse_append, trimEnd_append hname, List.takeWhile_append_of_pos hwhole,
    List.dropWhile_append_of_pos hwhole, hbefore.1, hbefore.2, List.append_nil,
    List.reverse_reverse, List.reverse_reverse]

theorem stem_of_dot {s e : List Char} (hs : s ≠ []) (he : '.' ∉ e) :
    stem (s ++ '.' :: e) = s ∧ extension (s ++ '.' :: e) = e := by
  have hbehind := bne_of_not_mem he
  have hreverse : (s ++ '.' :: e).reverse = e.reverse ++ '.' :: s.reverse := by simp
  have hstem : stem (s ++ '.' :: e) = s := by
    simp only [stem]
    rw [hreverse, List.dropWhile_append_of_pos hbehind]
    simp [hs]
  refine ⟨hstem, ?_⟩
  rw [extension, hstem, if_neg (by simp), hreverse, List.takeWhile_append_of_pos hbehind]
  simp

theorem stem_of_not_mem (h : '.' ∉ name.tail) : stem name = name ∧ extension name = [] := by
  have hstem : stem name = name := by
    cases name with
    | nil => rfl
    | cons c t =>
      simp only [stem]
      rw [List.reverse_cons, List.dropWhile_append_of_pos
        (bne_of_not_mem (show '.' ∉ t from h)), if_pos]
      by_cases hc : c = '.'
      · simp [hc]
      · simp [bne_iff_ne.mpr hc]
  exact ⟨hstem, by rw [extension, if_pos hstem]⟩

theorem exists_of_mem (h : '.' ∈ name.tail) : ∃ s e, s ≠ [] ∧ '.' ∉ e ∧ name = s ++ '.' :: e := by
  cases name with
  | nil => cases h
  | cons c t =>
    obtain ⟨e, s, ht, he⟩ := List.eq_append_cons_of_mem (List.mem_reverse.mpr h)
    refine ⟨c :: s.reverse, e.reverse, by simp, by simpa using he, ?_⟩
    have ht : t = (e ++ '.' :: s).reverse := List.reverse_eq_iff.mp ht
    rw [ht]
    simp

theorem stem_eq_self_iff : stem name = name ↔ '.' ∉ name.tail := by
  refine ⟨fun h hdot => ?_, fun h => (stem_of_not_mem h).1⟩
  obtain ⟨s, e, hs, he, rfl⟩ := exists_of_mem hdot
  rw [(stem_of_dot hs he).1] at h
  simp at h

theorem isPrefix_stem (name : List Char) : stem name <+: name := by
  by_cases hdot : '.' ∈ name.tail
  · obtain ⟨s, e, hs, he, rfl⟩ := exists_of_mem hdot
    rw [(stem_of_dot hs he).1]
    exact List.prefix_append _ _
  · simp [(stem_of_not_mem hdot).1]

theorem stem_ne_nil (h : name ≠ []) : stem name ≠ [] := by
  by_cases hdot : '.' ∈ name.tail
  · obtain ⟨s, e, hs, he, rfl⟩ := exists_of_mem hdot
    rwa [(stem_of_dot hs he).1]
  · rwa [(stem_of_not_mem hdot).1]

structure IsPlain (name : List Char) : Prop extends IsPart name where
  ne_parent : name ≠ ['.', '.']

/-- A file name with its extension replaced. If only two dots are left when the old extension is
gone, they lead to the directory above, and no extension is put behind them. -/
def extended (name : List Char) (extension : String) : String :=
  if stem name = ['.'] then ".."
  else String.ofList (stem name) ++ if extension.isEmpty then "" else "." ++ extension

theorem IsPlain.isFileName (h : IsPlain name) : isFileName name = true := by
  simp [Path.isFileName, h.ne_nil, h.ne_dot, h.ne_parent]

theorem withExtension_append (hname : IsPlain name) (hfront : IsFront front) (extension : String) :
    withExtension (String.ofList (front ++ name)) extension =
      String.ofList front ++ extended name extension := by
  unfold withExtension
  rw [String.toList_ofList, cutExtension, splitName_append hname.toIsPart hfront]
  by_cases hdot : '.' ∈ name.tail
  · obtain ⟨s, e, hs, he, rfl⟩ := exists_of_mem hdot
    obtain ⟨hstem, hextension⟩ := stem_of_dot hs he
    have hcut : (front ++ (s ++ '.' :: e)).take ((front ++ (s ++ '.' :: e)).length - e.length) =
        front ++ (s ++ ['.']) := by
      have hsplit : front ++ (s ++ '.' :: e) = (front ++ (s ++ ['.'])) ++ e := by simp
      rw [hsplit, List.length_append, Nat.add_sub_cancel, List.take_left]
    have hwhole : '/' ∉ s := fun hmem => hname.whole (List.mem_append_left _ hmem)
    have hpart : IsPart (s ++ ['.']) := ⟨by simp [hwhole], by simp, by simp [hs]⟩
    dsimp only
    rw [hextension, hcut, splitName_append hpart hfront, extended, hstem]
    dsimp only
    by_cases hs' : s = ['.']
    · subst hs'
      rw [if_pos rfl, if_neg (by decide), String.ofList_append]
      rfl
    · have hplain : IsPlain (s ++ ['.']) := by
        refine ⟨hpart, fun h => hs' ?_⟩
        exact List.append_cancel_right (h.trans (show ['.', '.'] = ['.'] ++ ['.'] from rfl))
      rw [if_neg hs', if_pos hplain.isFileName, (stem_of_dot hs (List.not_mem_nil)).1,
        String.ofList_append, String.append_assoc]
  · obtain ⟨hstem, hextension⟩ := stem_of_not_mem hdot
    dsimp only
    rw [hextension, List.length_nil, Nat.sub_zero, List.take_length,
      splitName_append hname.toIsPart hfront, extended, hstem, if_neg hname.ne_dot]
    dsimp only
    rw [if_pos hname.isFileName, String.ofList_append, String.append_assoc]

example : withExtension "story/..b" "topi" = "story/.." := by decide +kernel

def frontOf (root : String) : String :=
  if root.isEmpty || root.endsWith "/" then root else root ++ "/"

theorem isFront_frontOf (root : String) : IsFront (frontOf root).toList := by
  unfold frontOf
  split
  · rename_i h
    rw [Bool.or_eq_true, String.isEmpty_iff] at h
    rcases h with rfl | h
    · exact .inl rfl
    · have hsuffix : "/".toList <:+ root.toSlice.copy.toList :=
        String.Slice.endsWith_string_iff.mp h
      rw [String.copy_toSlice] at hsuffix
      obtain ⟨directory, hroot⟩ := hsuffix
      exact .inr ⟨directory, hroot.symm⟩
  · exact .inr ⟨root.toList, String.toList_append⟩

theorem join_eq (root : String) {path : String} (h : path.toList.head? ≠ some '/') :
    join root path = frontOf root ++ path := by
  have hrelative : path.startsWith "/" = false := by
    rw [String.startsWith_string_eq_false_iff]
    rintro ⟨rest, hpath⟩
    rw [← hpath] at h
    exact h rfl
  unfold join frontOf
  rw [hrelative, if_neg Bool.false_ne_true]
  split <;> rfl

theorem head?_append_ne (hname : name ≠ []) (hwhole : '/' ∉ name) (behind : List Char) :
    (name ++ behind).head? ≠ some '/' := by
  cases name with
  | nil => exact absurd rfl hname
  | cons c rest =>
    intro hc
    rw [List.cons_append, List.head?_cons, Option.some.injEq] at hc
    exact hwhole (hc ▸ List.mem_cons_self ..)

theorem IsPart.head?_ne (h : IsPart name) : name.head? ≠ some '/' := by
  have hhead := head?_append_ne h.ne_nil h.whole []
  rwa [List.append_nil] at hhead

theorem head?_extended_ne (h : IsPlain name) (extension : String) :
    (extended name extension).toList.head? ≠ some '/' := by
  unfold extended
  split
  · decide
  · rw [String.toList_append, String.toList_ofList]
    exact head?_append_ne (stem_ne_nil h.ne_nil)
      (fun hmem => h.whole ((isPrefix_stem name).mem hmem)) _

theorem toList_extended {extension : String} (hextension : extension ≠ "") (h : stem name ≠ ['.']) :
    (extended name extension).toList = stem name ++ '.' :: extension.toList := by
  have hempty : extension.isEmpty = false := by
    rwa [Bool.eq_false_iff, ne_eq, String.isEmpty_iff]
  rw [extended, if_neg h, hempty]
  simp

theorem extended_eq_iff {other : List Char} {extension : String} (hextension : extension ≠ "")
    (hname : name ≠ []) (hother : other ≠ []) :
    extended name extension = extended other extension ↔ stem name = stem other := by
  -- two dots are too short for a stem, a dot and an extension
  have hparent {s : List Char} (hs : s ≠ []) : ['.', '.'] ≠ s ++ '.' :: extension.toList := by
    intro h
    have hlength := congrArg List.length h
    have hs := List.length_pos_of_ne_nil hs
    have hextension := List.length_pos_of_ne_nil (mt String.toList_eq_nil_iff.mp hextension)
    simp only [List.length_append, List.length_cons, List.length_nil] at hlength
    omega
  rw [← String.toList_inj]
  by_cases h : stem name = ['.'] <;> by_cases h' : stem other = ['.']
  · simp only [extended, h, h', if_true]
  · rw [toList_extended hextension h', extended, if_pos h, h]
    exact iff_of_false (hparent (stem_ne_nil hother)) (Ne.symm h')
  · rw [toList_extended hextension h, extended, if_pos h', h']
    exact iff_of_false (hparent (stem_ne_nil hname)).symm h
  · rw [toList_extended hextension h, toList_extended hextension h']
    exact List.append_left_inj _

theorem extended_eq_append_iff (h : IsPlain name) (extension : String) :
    extended name extension = String.ofList name ++ "." ++ extension ↔
      extension ≠ "" ∧ '.' ∉ name.tail := by
  constructor
  · intro heq
    have hlist := congrArg String.toList heq
    have hlength := congrArg List.length hlist
    rw [String.toList_append, String.toList_append, String.toList_ofList, List.length_append,
      List.length_append] at hlength
    have hprefix := isPrefix_stem name
    by_cases hstem : stem name = ['.']
    · rw [extended, if_pos hstem] at hlength
      rw [hstem] at hprefix
      obtain ⟨_ | ⟨c, rest⟩, rfl⟩ := hprefix
      · exact absurd rfl h.ne_dot
      · simp at hlength
        omega
    · by_cases hextension : extension = ""
      · subst hextension
        have hle := hprefix.length_le
        simp [extended, hstem] at hlength
        omega
      · refine ⟨hextension, stem_eq_self_iff.mp ?_⟩
        rw [toList_extended hextension hstem, String.toList_append, String.toList_append,
          String.toList_ofList, List.append_assoc] at hlist
        exact List.append_cancel_right hlist
  · rintro ⟨hextension, hdot⟩
    have hstem := stem_eq_self_iff.mpr hdot
    have hdot : stem name ≠ ['.'] := by
      rw [hstem]
      exact h.ne_dot
    rw [← String.toList_inj, toList_extended hextension hdot, hstem]
    simp

end Path

namespace AssetDirectory

variable {root extension key other : String}

theorem path_plain (hkey : Path.IsPlain key.toList) :
    path ⟨root, some extension⟩ key =
      Path.frontOf root ++ Path.extended key.toList extension := by
  have hjoin : Path.join root key =
      String.ofList ((Path.frontOf root).toList ++ key.toList) := by
    rw [Path.join_eq root hkey.head?_ne, String.ofList_append, String.ofList_toList,
      String.ofList_toList]
  change Path.withExtension (Path.join root key) extension = _
  rw [hjoin, Path.withExtension_append hkey (Path.isFront_frontOf root), String.ofList_toList]

def leaflet : Bytes := (magic ++ [1, 0, 0, 0] ++ [0, 1].flatMap (littleEndian 8) ++
  [1, 0x61] ++ littleEndian 4 0).toArray

theorem compiled_leaflet : ∃ data, (Asset.ofBytes leaflet).compiled? = some data := by
  apply Option.isSome_iff_exists.mp
  decide +kernel

theorem load_congr_iff (d : AssetDirectory) : d.path key = d.path other ↔
    ∀ read data, d.load read key = .ok data ↔ d.load read other = .ok data := by
  constructor
  · intro h read data
    unfold load
    rw [h]
    cases read (d.path other) with
    | error e => cases e <;> simp
    | ok bytes =>
      dsimp only
      cases (Asset.ofBytes bytes).compiled? <;> simp
  · intro h
    obtain ⟨data, hdata⟩ := compiled_leaflet
    -- a disk with nothing on it but the file of the first key
    let read (path : String) : Except FileError Bytes :=
      if path = d.path key then .ok leaflet else .error .notFound
    have hkey : d.load read key = .ok data := by
      unfold load
      simp only [read, if_true, hdata]
    have hother := (h read data).mp hkey
    by_contra hne
    unfold load at hother
    simp only [read, if_neg (Ne.symm hne)] at hother
    cases hother

/-- With an extension, a key stands for the file that has its stem and this extension. It is the
file whose name is the key with the extension behind it only if the key has no extension of its
own, and two keys are one file, with the same dialogue on every disk, exactly if their names are
the same up to the last dot. An extension holds no slash. -/
theorem stands_for_stem (root extension : String) (hkey : Path.IsPlain key.toList)
    (hother : Path.IsPlain other.toList) :
    let d : AssetDirectory := ⟨root, some extension⟩
    d.path key = Path.join root (Path.extended key.toList extension) ∧
      (d.path key = Path.join root (key ++ "." ++ extension) ↔
        extension ≠ "" ∧ '.' ∉ key.toList.tail) ∧
      (d.path key = d.path other ↔
        Path.extended key.toList extension = Path.extended other.toList extension) ∧
      (extension ≠ "" → (d.path key = d.path other ↔
        Path.stem key.toList = Path.stem other.toList)) ∧
      (d.path key = d.path other ↔
        ∀ read data, d.load read key = .ok data ↔ d.load read other = .ok data) := by
  intro d
  have hpath : d.path key = Path.frontOf root ++ Path.extended key.toList extension :=
    path_plain hkey
  have hsame : d.path key = d.path other ↔
      Path.extended key.toList extension = Path.extended other.toList extension := by
    rw [hpath, path_plain hother]
    exact String.append_right_inj _
  refine ⟨?_, ?_, hsame, fun hextension => ?_, load_congr_iff d⟩
  · rw [hpath, Path.join_eq root (Path.head?_extended_ne hkey extension)]
  · have hhead : (key ++ "." ++ extension).toList.head? ≠ some '/' := by
      rw [String.toList_append, String.toList_append, List.append_assoc]
      exact Path.head?_append_ne hkey.ne_nil hkey.whole _
    rw [hpath, Path.join_eq root hhead, String.append_right_inj,
      ← Path.extended_eq_append_iff hkey, String.ofList_toList]
  · rw [hsame, Path.extended_eq_iff hextension hkey.ne_nil hother.ne_nil]

/-- The harbour of the first act is looked for in the file of the act. -/
theorem stands_for_stem_act :
    let d : AssetDirectory := ⟨"story", some "topi"⟩
    d.path "act.harbour" = d.path "act" ∧ d.path "act" = "story/act.topi" ∧
      d.path "act.harbour" ≠ "story/act.harbour.topi" := by
  intro d
  have hact : Path.IsPlain "act".toList := ⟨⟨by decide, by decide, by decide⟩, by decide⟩
  have hharbour : Path.IsPlain "act.harbour".toList :=
    ⟨⟨by decide, by decide, by decide⟩, by decide⟩
  obtain ⟨-, hdocumented, -, hsame, -⟩ := stands_for_stem "story" "topi" hharbour hact
  obtain ⟨hpath, -⟩ := stands_for_stem "story" "topi" hact hharbour
  refine ⟨(hsame (by decide)).mpr (by decide), hpath.trans (by decide +kernel), fun h => ?_⟩
  have htail := (hdocumented.mp (h.trans (by decide +kernel))).2
  exact htail (by decide)

end AssetDirectory

end Dialogue
