import Dialogue.Proofs.Machine.Notification
import Dialogue.Proofs.Machine.Sequence

/-!
What becomes of a variable that is told the changes of another. Values that the domains refuse are
passed over. Changes that a run has announced could be made in their order, and lead whoever begins
where they do, or where they end, to the last of them.
-/

namespace Dialogue

theorem isChain_append_iff {α : Type} {R : α → α → Prop} {x : α} {xs ys : List α} :
    (x :: (xs ++ ys)).IsChain R ↔ (x :: xs).IsChain R ∧ (xs.getLastD x :: ys).IsChain R := by
  induction xs generalizing x with
  | nil => simp
  | cons y xs ih =>
    rw [List.cons_append, List.isChain_cons_cons, List.isChain_cons_cons, List.getLastD_cons, ih,
      and_assoc]

theorem getLastD_append {α : Type} (x : α) (xs ys : List α) :
    (xs ++ ys).getLastD x = ys.getLastD (xs.getLastD x) := by
  induction xs generalizing x with
  | nil => rfl
  | cons y xs ih => rw [List.cons_append, List.getLastD_cons, List.getLastD_cons, ih]

namespace EnumDomains

variable {ds : EnumDomains} {u v : Value}

def Admits (ds : EnumDomains) (u v : Value) : Prop := ds.checkAssignment u v = .ok ()

instance (ds : EnumDomains) : DecidableRel ds.Admits := fun u v =>
  inferInstanceAs (Decidable (ds.checkAssignment u v = .ok ()))

def Changes (ds : EnumDomains) (u v : Value) : Prop := ds.Admits u v ∧ (u == v) = false

theorem Admits.self (h : ds.Admits u v) : ds.Admits v v := by
  unfold Admits checkAssignment at *
  cases v with
  | enum e =>
    simp only at *
    split at h
    · rename_i d hd
      unfold EnumDomain.checkTransition EnumDomain.check at *
      by_cases htype : e.type = d.name
      · cases hi : d.index? e.member with
        | none => simp [htype, hi, bind, Except.bind] at h
        | some i => simp [htype, hi, bind, Except.bind, pure, Except.pure]
      · simp [htype, bind, Except.bind] at h
    · rfl
  | _ => rfl

def settle (ds : EnumDomains) (u v : Value) : Value := if ds.Admits u v then v else u

theorem settle_of_admits (h : ds.Admits u v) : ds.settle u v = v := if_pos h

theorem settle_settle (ds : EnumDomains) (u v : Value) :
    ds.settle (ds.settle u v) v = ds.settle u v := by
  by_cases h : ds.Admits u v
  · rw [settle_of_admits h, settle_of_admits h.self]
  · simp only [settle, if_neg h]

theorem foldl_settle {vs : List Value} (hchain : (v :: vs).IsChain ds.Admits)
    (hu : u = v ∨ u = vs.getLastD v) : vs.foldl ds.settle u = vs.getLastD v := by
  induction vs generalizing u v with
  | nil => simpa using hu
  | cons x vs ih =>
    obtain ⟨hx, hchain⟩ := List.isChain_cons_cons.mp hchain
    rw [List.getLastD_cons] at hu ⊢
    apply ih hchain
    -- Who refuses a change is at the end already, and stays there until the last one.
    by_cases hadmits : ds.Admits u x
    · exact .inl (settle_of_admits hadmits)
    · rcases hu with rfl | rfl
      · exact absurd hx hadmits
      · exact .inr (if_neg hadmits)

def AdmitsBack (ds : EnumDomains) (vs : List Value) : Prop :=
  ∀ first ∈ vs.head?, ∀ last ∈ vs.getLast?, ds.Admits last first

theorem isChain_getLastD_iff {vs : List Value} (hchain : (v :: vs).IsChain ds.Admits) :
    (vs.getLastD v :: vs).IsChain ds.Admits ↔ ds.AdmitsBack vs := by
  -- Behind the first, the changes follow each other as they have been made.
  have hlater : vs.IsChain ds.Admits := hchain.tail
  rw [List.isChain_cons, and_iff_left hlater, AdmitsBack]
  cases vs with
  | nil => simp
  | cons x vs => simp [List.getLast?_cons, List.getLastD_eq_getLast?]

def Staged (ds : EnumDomains) (vs : List Value) : Prop :=
  ∃ d : EnumDomain, ds.get? d.name = some d ∧ d.sequential = true ∧
    ∀ v ∈ vs, ∃ member, v = .enum ⟨d.name, member⟩

theorem index?_lt_of_changes {d : EnumDomain} {a b : String} (hd : ds.get? d.name = some d)
    (hsequential : d.sequential = true)
    (hchange : ds.Changes (.enum ⟨d.name, a⟩) (.enum ⟨d.name, b⟩)) {i : Nat}
    (hi : d.index? a = some i) : ∃ j, d.index? b = some j ∧ i < j := by
  obtain ⟨j, hj, hle⟩ := (checkAssignment_eq_ok_iff hd hsequential).mp hchange.1
  refine ⟨j, hj, lt_of_le_of_ne (hle a rfl i hi) ?_⟩
  rintro rfl
  obtain ⟨hlt, ha, -⟩ := List.findIdx?_eq_some_iff_getElem.mp hi
  obtain ⟨_, hb, -⟩ := List.findIdx?_eq_some_iff_getElem.mp hj
  have hsame : a = b := (eq_of_beq ha).symm.trans (eq_of_beq hb)
  have hfresh := hchange.2
  rw [hsame] at hfresh
  have hself : (Value.enum ⟨d.name, b⟩ == Value.enum ⟨d.name, b⟩) = true :=
    beq_self_eq_true (⟨d.name, b⟩ : EnumValue)
  rw [hself] at hfresh
  cases hfresh

theorem index?_lt_getLast {d : EnumDomain} (hd : ds.get? d.name = some d)
    (hsequential : d.sequential = true) {vs : List Value} {a : String} {i : Nat}
    (hi : d.index? a = some i) (hchain : (.enum ⟨d.name, a⟩ :: vs).IsChain ds.Changes)
    (hstages : ∀ v ∈ vs, ∃ member, v = .enum ⟨d.name, member⟩) {last : Value}
    (hlast : vs.getLast? = some last) :
    ∃ b j, last = .enum ⟨d.name, b⟩ ∧ d.index? b = some j ∧ i < j := by
  induction vs generalizing a i with
  | nil => cases hlast
  | cons v vs ih =>
    obtain ⟨⟨b, rfl⟩, hlater⟩ := List.forall_mem_cons.mp hstages
    obtain ⟨hchange, hchain⟩ := List.isChain_cons_cons.mp hchain
    obtain ⟨j, hj, hlt⟩ := index?_lt_of_changes hd hsequential hchange hi
    cases hvs : vs.getLast? with
    | none =>
      obtain rfl := List.getLast?_eq_none_iff.mp hvs
      cases hlast
      exact ⟨b, j, rfl, hj, hlt⟩
    | some u =>
      have hsame : u = last := by simpa [List.getLast?_cons, hvs] using hlast
      obtain ⟨b', j', hb', hj', hlt'⟩ := ih hj hchain hlater (hsame ▸ hvs)
      exact ⟨b', j', hb', hj', hlt.trans hlt'⟩

theorem admitsBack_iff {vs : List Value} (hchain : (v :: vs).IsChain ds.Changes)
    (hstaged : ds.Staged vs) : ds.AdmitsBack vs ↔ vs.length ≤ 1 := by
  obtain ⟨d, hd, hsequential, hstages⟩ := hstaged
  rcases vs with _ | ⟨x, _ | ⟨y, vs⟩⟩
  · simp [AdmitsBack]
  · obtain ⟨hchange, -⟩ := List.isChain_cons_cons.mp hchain
    simpa [AdmitsBack] using hchange.1.self
  · obtain ⟨⟨a, rfl⟩, hlater⟩ := List.forall_mem_cons.mp hstages
    obtain ⟨hchange, hchain⟩ := List.isChain_cons_cons.mp hchain
    obtain ⟨i, hi, -⟩ := (checkAssignment_eq_ok_iff hd hsequential).mp hchange.1
    refine iff_of_false (fun hback => ?_) (by simp)
    obtain ⟨last, hlast⟩ : ∃ last, (y :: vs).getLast? = some last := by simp [List.getLast?_cons]
    obtain ⟨b, j, rfl, hj, hlt⟩ := index?_lt_getLast hd hsequential hi hchain hlater hlast
    have hadmits := hback _ rfl (.enum ⟨d.name, b⟩) (by simpa [List.getLast?_cons] using hlast)
    obtain ⟨i', hi', hle⟩ := (checkAssignment_eq_ok_iff hd hsequential).mp hadmits
    have hlate := hle b rfl j hj
    rw [hi, Option.some.injEq] at hi'
    omega

end EnumDomains

namespace Machine

variable {φ : Type} {m m' : Machine φ} {ds : EnumDomains} {name n : String} {u v : Value}

def Admitted (name : String) (v : Value) (m : Machine φ) : Prop :=
  (v :: changesOf name m.events).IsChain m.domains.Changes

theorem Admitted.append (h : m.Admitted name v) (hdomains : m'.domains = m.domains)
    (hchanges : m.domains.Changes ((changesOf name m.events).getLastD v) u)
    (hevents : changesOf name m'.events = changesOf name m.events ++ [u]) :
    m'.Admitted name v := by
  rw [Admitted, hdomains, hevents, ← List.cons_append]
  refine List.IsChain.append h (.singleton u) fun x hx y hy => ?_
  rw [List.getLast?_cons, ← List.getLastD_eq_getLast?, Option.mem_some_iff] at hx
  cases hy
  exact hx ▸ hchanges

theorem Admitted.congr (h : m.Admitted name v) (hdomains : m'.domains = m.domains)
    (hevents : changesOf name m'.events = changesOf name m.events) : m'.Admitted name v := by
  rwa [Admitted, hdomains, hevents]

theorem Proceeds.admitted (h : Proceeds m m') (hparsed : m.IsParsed) (htracks : Tracks name v m)
    (hm : m.Admitted name v) : m'.Admitted name v := by
  cases h with
  | move es quiet _ domains _ events =>
    apply hm.congr domains
    simp [events, changesOf_of_quiet quiet]
  | store index u g found admitted fresh _ domains _ events =>
    obtain ⟨hmem, rfl⟩ := slotAt?_mem found
    have hg := hparsed.global?_of_mem hmem
    by_cases hannounced : g.observed = true ∧ g.symbol.name = name
    · obtain ⟨hobserved, rfl⟩ := hannounced
      apply hm.append (u := u) domains
      · rw [← value_eq_current hg htracks.value]
        exact ⟨admitted, fresh⟩
      · simp [events, hobserved]
    · apply hm.congr domains
      cases hobserved : g.observed <;> simp_all

theorem Progress.admitted (hparsed : m.IsParsed) (hsubscribed : m.isSubscribed name = true)
    (h : Progress m m') (htracks : Tracks name v m) (hm : m.Admitted name v) :
    m'.Admitted name v := by
  induction h with
  | refl => exact hm
  | tail hprogress hstep ih =>
    exact hstep.admitted ((Progress.sameFrame hprogress).isParsed hparsed)
      (Progress.tracks hparsed hsubscribed hprogress htracks) ih

/-- The global is the host's to assign, with what `ds` admits, and holds `v`. -/
structure Keeps (ds : EnumDomains) (name : String) (v : Value) (m : Machine φ) : Prop where
  parsed : m.IsParsed
  admits : ∀ u w, m.domains.Admits u w ↔ ds.Admits u w
  provided : m.IsExtern name
  value : m.value name = .ok v

theorem diagnostics_setExtern (h : m.setExtern name v = .ok m') :
    m'.diagnostics = m.diagnostics := by
  obtain ⟨g, -, -, rfl⟩ := setExtern_eq_ok h
  rfl

theorem IsExtern.of_symbols (h : m.IsExtern n)
    (hsymbols : m'.globals.map (·.symbol) = m.globals.map (·.symbol)) : m'.IsExtern n := by
  have hsymbol (m : Machine φ) : (m.global? n).map (·.symbol) =
      (m.globals.map (·.symbol)).find? (·.name == n) := by
    rw [global?, List.find?_map]
    rfl
  obtain ⟨g, hg, hextern⟩ := h
  have hsame : (m'.global? n).map (·.symbol) = some g.symbol := by
    rw [hsymbol, hsymbols, ← hsymbol, hg, Option.map_some]
  obtain ⟨g', hg', heq⟩ := Option.map_eq_some_iff.mp hsame
  exact ⟨g', hg', heq ▸ hextern⟩

theorem Keeps.congr (h : m.Keeps ds name v) (hcontainer : m'.container = m.container)
    (hdomains : m'.domains = m.domains) (hglobals : m'.globals = m.globals) :
    m'.Keeps ds name v where
  parsed := h.parsed.congr hcontainer (congrArg _ hglobals)
  admits := hdomains ▸ h.admits
  provided := h.provided.of_symbols (congrArg _ hglobals)
  value := by rw [← h.value, Machine.value, Machine.value, global?, global?, hglobals]

theorem Keeps.exists_setExtern_iff (h : m.Keeps ds name u) :
    (∃ m', m.setExtern name v = .ok m') ↔ ds.Admits u v := by
  obtain ⟨g, hg, hextern⟩ := h.provided
  rw [← h.admits]
  constructor
  · rintro ⟨m', hset⟩
    obtain ⟨g', hg', hadmits, -⟩ := setExtern_eq_ok hset
    cases hg.symm.trans hg'
    rwa [← value_eq_current hg h.value]
  · intro hadmits
    rw [← value_eq_current hg h.value] at hadmits
    have hcheck : m.domains.checkAssignment g.slot.current v = .ok () := hadmits
    simp only [setExtern, hg, hextern, if_true, hcheck]
    exact ⟨_, rfl⟩

theorem Keeps.setExtern (h : m.Keeps ds n u) (hset : m.setExtern name v = .ok m') :
    m'.Keeps ds n (if n = name then v else u) where
  parsed := h.parsed.congr (adjusts_setExtern hset).container (adjusts_setExtern hset).symbols
  admits x y := by rw [domains_setExtern hset, h.admits]
  provided := h.provided.of_symbols (adjusts_setExtern hset).symbols
  value := by
    rw [value_setExtern h.parsed hset, h.value]
    split <;> rfl

theorem Keeps.progress (h : m.Keeps ds name v) (hsubscribed : m.isSubscribed name = true)
    (hevents : m.events = []) (hprogress : Progress m m') :
    (v :: changesOf name m'.events).IsChain ds.Changes ∧
      m'.Keeps ds name ((changesOf name m'.events).getLastD v) := by
  have htracks : Tracks name v m := ⟨by simp [hevents], by simp [hevents, h.value]⟩
  have hadmitted : m.Admitted name v := by simp [Admitted, hevents]
  have hadmits (u w : Value) : m'.domains.Admits u w ↔ ds.Admits u w := by
    rw [Progress.domains hprogress, h.admits]
  constructor
  · have hchain := Progress.admitted h.parsed hsubscribed hprogress htracks hadmitted
    exact List.IsChain.imp (fun u w hchange => ⟨(hadmits u w).mp hchange.1, hchange.2⟩) hchain
  · exact ⟨(Progress.sameFrame hprogress).isParsed h.parsed, hadmits,
      h.provided.of_symbols (Progress.symbols hprogress),
      (Progress.tracks h.parsed hsubscribed hprogress htracks).value⟩

end Machine

end Dialogue
