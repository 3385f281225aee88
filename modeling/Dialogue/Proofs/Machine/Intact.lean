import Dialogue.Proofs.Machine.Moves

/-!
What every machine over a container that was read has in common: it stands inside the code, it
offers choices if and only if it waits for one, it has all globals of the container and no others,
and it observes none that is a function.
-/

namespace Dialogue.Machine

variable {φ : Type} {allowed : EnumDomain → Prop} {c : Container} {m m' : Machine φ}

structure Poised (c : Container) (m : Machine φ) : Prop where
  ip : m.ip ≤ c.code.size
  offers : m.pending ≠ [] ↔ m.state = .waiting .choice
  targets : ∀ o ∈ m.pending, o.target.toNat ≤ c.code.size

theorem poised_of_idle (hip : m.ip ≤ c.code.size) (hpending : m.pending = [])
    (hstate : m.state ≠ .waiting .choice) : m.Poised c := by
  refine ⟨hip, ?_, ?_⟩
  · simp [hpending, hstate]
  · simp [hpending]

theorem Poised.pending_eq_nil (hm : m.Poised c) (hstate : m.state ≠ .waiting .choice) :
    m.pending = [] := by
  by_contra hpending
  exact hstate (hm.offers.mp hpending)

theorem Works.poised (hcontainer : m.container = c) (h : Works m m') (hm : m.Poised c)
    (hrunning : m.state = .running) : m'.Poised c := by
  subst hcontainer
  have hnone : m.pending = [] := hm.pending_eq_nil (by simp [hrunning])
  cases h with
  | go inside state pending =>
    refine poised_of_idle (inside hm.ip) (pending.trans hnone) ?_
    rcases state with state | state | state <;> simp [state]
  | offer inside state some targets => exact ⟨inside hm.ip, by simp [some, state], targets⟩

theorem Shift.poised (hboughs : ∀ b ∈ c.boughs, b.entry.toNat ≤ c.code.size)
    (hcontainer : m.container = c) (h : Shift m m') (hm : m.Poised c) : m'.Poised c := by
  cases h with
  | stay stays =>
    obtain ⟨hip, hoffers, htargets⟩ := hm
    rw [← stays.ip] at hip
    rw [← stays.pending] at hoffers htargets
    rw [← stays.state] at hoffers
    exact ⟨hip, hoffers, htargets⟩
  | enter _ b mem ip state pending =>
    refine poised_of_idle ?_ pending (by simp [state])
    rw [ip]
    exact hboughs b (hcontainer ▸ mem)
  | work running works => exact works.poised hcontainer hm running
  | resume waiting ip state pending =>
    refine poised_of_idle (ip ▸ hm.ip) ?_ (by simp [state])
    rw [pending]
    exact hm.pending_eq_nil (by simp [waiting])
  | choose _ o mem ip state pending =>
    refine poised_of_idle ?_ pending (by simp [state])
    rw [ip]
    exact hm.targets o mem
  | halt ip state pending => exact poised_of_idle (ip ▸ hm.ip) pending (by simp [state])

def Quiet (m : Machine φ) : Prop := ∀ g ∈ m.globals, g.observed = true → g.slot.isFunction = false

theorem quiet_of_globals (hglobals : m'.globals = m.globals) (hm : m.Quiet) : m'.Quiet := by
  intro g hg
  exact hm g (hglobals ▸ hg)

theorem quiet_update {index : UInt32} {f : Global φ → Global φ}
    (hf : ∀ g ∈ m.globals, g.symbol.index = index → (f g).observed = true →
      (f g).slot.isFunction = false) (hm : m.Quiet) : (m.update index f).Quiet := by
  intro g hg
  obtain ⟨g₀, hg₀, rfl⟩ := List.mem_map.mp hg
  split
  · rename_i hindex
    exact hf g₀ hg₀ (beq_iff_eq.mp hindex)
  · exact hm g₀ hg₀

theorem quiet_write (hm : m.Quiet) (index : UInt32) (v : Value) :
    (m.write index (.value v)).Quiet :=
  quiet_update (fun _ _ _ _ => rfl) hm

theorem Progress.quiet (h : Progress m m') (hm : m.Quiet) : m'.Quiet := by
  induction h with
  | refl => exact hm
  | tail _ hstep ih =>
    cases hstep with
    | move _ _ _ _ hglobals => exact quiet_of_globals hglobals ih
    | store index v _ _ _ _ _ _ hglobals => exact quiet_of_globals hglobals (quiet_write ih index v)

theorem quiet_setExtern {name : String} {v : Value} (h : m.setExtern name v = .ok m')
    (hm : m.Quiet) : m'.Quiet := by
  obtain ⟨g, -, -, rfl⟩ := setExtern_eq_ok h
  exact quiet_write hm _ v

theorem quiet_setFunction {name : String} {arity : Nat} {body : φ}
    (h : m.setFunction name arity body = .ok m') (hm : m.Quiet) : m'.Quiet := by
  obtain ⟨g, -, rfl⟩ := setFunction_eq_ok h
  exact quiet_update (fun _ _ _ hobserved => by cases hobserved) hm

theorem IsParsed.quiet_subscribe {name : String} (hparsed : m.IsParsed)
    (h : m.subscribe name = .ok m') (hm : m.Quiet) : m'.Quiet := by
  obtain ⟨g, hg, hvalue, rfl⟩ := subscribe_eq_ok h
  refine quiet_update (fun g' hg' hindex _ => ?_) hm
  -- The global found under the name is the only one with its index.
  rwa [hparsed.eq_of_index hg' (global?_mem hg).1 hindex]

theorem quiet_unsubscribe (hm : m.Quiet) (name : String) : (m.unsubscribe name).Quiet := by
  rcases unsubscribe_cases m name with h | ⟨g, -, h⟩ <;> rw [h]
  · exact hm
  · exact quiet_update (fun _ _ _ hobserved => by cases hobserved) hm

theorem quiet_loadEntry (hm : m.Quiet) (name : String) (j : Json) :
    (m.loadEntry name j).1.Quiet := by
  rcases loadEntry_cases m name j with h | ⟨e, h⟩ | ⟨g, v, -, -, h⟩ <;> rw [h]
  · exact hm
  · exact hm
  · exact quiet_write hm _ v

theorem Moves.quiet (hparsed : m.IsParsed) (h : Moves allowed m m') (hm : m.Quiet) :
    m'.Quiet := by
  cases h with
  | start h => exact quiet_of_globals (sameData_start h).globals hm
  | step => exact (progress_step m).quiet hm
  | answer _ hcall hresult => exact (progress_answer hcall hresult).quiet hm
  | selectContinue h => exact quiet_of_globals (sameData_selectContinue h).globals hm
  | selectChoice h => exact quiet_of_globals (sameData_selectChoice h).globals hm
  | setExtern h => exact quiet_setExtern h hm
  | setFunction h => exact quiet_setFunction h hm
  | subscribe h => exact hparsed.quiet_subscribe h hm
  | unsubscribe => exact quiet_unsubscribe hm _
  | loadEntry => exact quiet_loadEntry hm _ _
  | halt | declareEnum | save | takeEvents | takeDiagnostics => exact hm

/-- The invariant of machines over a container: where the machine stands, what it offers, its
globals and what it observes. -/
structure Intact (c : Container) (m : Machine φ) : Prop where
  poised : m.Poised c
  symbols : m.globals.map (·.symbol) = c.globals
  /-- Every symbol has one slot, which is found under its index and under its name. -/
  slot : ∀ symbol ∈ c.globals, ∃ g ∈ m.globals, g.symbol = symbol ∧
    m.slotAt? symbol.index = some g ∧ m.global? symbol.name = some g ∧
      ∀ g' ∈ m.globals, g'.symbol.index = symbol.index → g' = g
  nodup : (m.globals.map (·.symbol.index)).Nodup
  quiet : m.Quiet
  subscribed : ∀ name, m.isSubscribed name = true →
    name ∈ c.globals.map (·.name) ∧ ∃ v, m.value name = .ok v
  select : ∀ index, (∃ m', m.selectChoice index = .ok m') ↔
    m.state = .waiting .choice ∧ index < m.pending.length

theorem course_invariant (hboughs : ∀ b ∈ c.boughs, b.entry.toNat ≤ c.code.size)
    (hcontainer : m.container = c) (hparsed : m.IsParsed) (h : Course allowed m m')
    (hpoised : m.Poised c) (hquiet : m.Quiet) : m'.Poised c ∧ m'.Quiet := by
  induction h with
  | refl => exact ⟨hpoised, hquiet⟩
  | tail hcourse hmove ih =>
    have hframe := Course.sameFrame hcourse
    exact ⟨hmove.shift.poised hboughs (hframe.container.trans hcontainer) ih.1,
      hmove.quiet (hframe.isParsed hparsed) ih.2⟩

theorem isOk_selectChoice_iff (m : Machine φ) (index : Nat) :
    (∃ m', m.selectChoice index = .ok m') ↔
      m.state = .waiting .choice ∧ index < m.pending.length := by
  unfold selectChoice
  cases m.state with
  | waiting kind =>
    cases kind with
    | continuation => simp
    | choice =>
      cases hget : m.pending[index]? with
      | none => simp [List.getElem?_eq_none_iff.mp hget]
      | some o => simp [(List.getElem?_eq_some_iff.mp hget).1]
  | _ => simp

theorem IsParsed.value_of_isSubscribed (hparsed : m.IsParsed) (hquiet : m.Quiet) {name : String}
    (h : m.isSubscribed name = true) :
    name ∈ m.container.globals.map (·.name) ∧ ∃ v, m.value name = .ok v := by
  unfold isSubscribed at h
  cases hg : m.global? name with
  | none =>
    rw [hg] at h
    cases h
  | some g =>
    rw [hg] at h
    obtain ⟨hmem, hname⟩ := global?_mem hg
    constructor
    · rw [← hparsed.symbols, List.map_map]
      exact List.mem_map.mpr ⟨g, hmem, hname⟩
    · have hvalue := hquiet g hmem h
      cases hslot : g.slot with
      | value v => exact ⟨v, value_of_global? hg hslot⟩
      | function arity body =>
        rw [hslot] at hvalue
        cases hvalue

theorem IsParsed.exists_slot (hparsed : m.IsParsed) {symbol : GlobalSymbol}
    (h : symbol ∈ m.container.globals) : ∃ g ∈ m.globals, g.symbol = symbol ∧
      m.slotAt? symbol.index = some g ∧ m.global? symbol.name = some g ∧
        ∀ g' ∈ m.globals, g'.symbol.index = symbol.index → g' = g := by
  rw [← hparsed.symbols] at h
  obtain ⟨g, hg, rfl⟩ := List.mem_map.mp h
  exact ⟨g, hg, rfl, hparsed.slotAt?_of_mem hg rfl, hparsed.global?_of_mem hg,
    fun g' hg' hindex => hparsed.eq_of_index hg' hg hindex⟩

theorem bough_inside {bytes : Bytes} (hparse : Container.parse bytes = .ok c) :
    ∀ b ∈ c.boughs, b.entry.toNat ≤ c.code.size :=
  (Container.checkBoughs_eq_ok_iff.mp (Container.parse_eq_ok_iff.mp hparse).2.2).2

/-- Whatever has been done with a machine, and between any two instructions of a run, the machine is
intact. -/
theorem intact_of_reachable {bytes : Bytes} (hparse : Container.parse bytes = .ok c)
    (hm : Reachable c m) : m.Intact c := by
  obtain ⟨hcontainer, hparsed⟩ := isParsed_of_reachable hparse hm
  have hpoised : (create c : Machine φ).Poised c := poised_of_idle (Nat.zero_le _) rfl nofun
  have hquiet : (create c : Machine φ).Quiet := by
    intro g hg hobserved
    obtain ⟨symbol, -, rfl⟩ := List.mem_map.mp hg
    cases hobserved
  obtain ⟨hpoised, hquiet⟩ := course_invariant (bough_inside hparse) rfl (isParsed_create hparse)
    (course_of_reachable hm) hpoised hquiet
  have hslot (symbol : GlobalSymbol) (h : symbol ∈ c.globals) :=
    hparsed.exists_slot (hcontainer ▸ h)
  have hsubscribed (name : String) (h : m.isSubscribed name = true) :=
    hcontainer ▸ hparsed.value_of_isSubscribed hquiet h
  exact ⟨hpoised, hcontainer ▸ hparsed.symbols, hslot, hparsed.nodup.2, hquiet, hsubscribed,
    isOk_selectChoice_iff m⟩

theorem intact_greeting : ∃ (c : Container) (m : Machine Unit), Reachable c m ∧ m.Intact c ∧
    m.isSubscribed "met" = true ∧ (∃ m', m.selectChoice 1 = .ok m') ∧
      ¬∃ m', m.selectChoice 2 = .ok m' := by
  obtain ⟨bytes, hparse⟩ := Builder.parse_build_greeting
  let c := Builder.assembled .offset Builder.greeting 118
  let host : Unit → List Value → Unit → Option (HostResult × Unit) := fun _ _ _ => none
  have hplay : ((create c : Machine Unit).subscribe "met").bind (fun m =>
      (m.start "start").map fun m => (m.run host 4 ()).map fun r =>
        (r.2.1.state, r.2.1.pending.length, r.2.1.isSubscribed "met")) =
          .ok (some (.waiting .choice, 2, true)) := by
    decide +kernel
  obtain ⟨m₀, hsubscribe, hplay⟩ := Except.bind_eq_ok_iff.mp hplay
  obtain ⟨m₁, hstart, hplay⟩ := Except.map_eq_ok_iff.mp hplay
  obtain ⟨⟨ended, m, s⟩, hrun, hends⟩ := Option.map_eq_some_iff.mp hplay.symm
  simp only [Prod.mk.injEq] at hends
  obtain ⟨hstate, hlength, hsubscribed⟩ := hends
  have hreachable : Reachable c m := .run (.start (.subscribe .create hsubscribe) hstart) hrun
  have hintact := intact_of_reachable hparse hreachable
  refine ⟨c, m, hreachable, hintact, hsubscribed, ?_, ?_⟩
  · rw [hintact.select, hlength]
    exact ⟨hstate, by decide⟩
  · rw [hintact.select, hlength]
    exact fun h => absurd h.2 (by decide)

end Dialogue.Machine
