import Dialogue.Proofs.Container.Closed
import Dialogue.Proofs.Machine.Effects

/-!
Where a machine stands. On a built container no operation and no instruction leaves the boundaries
of the code, so that a run neither meets bytes that are no instruction nor jumps out of the code.
-/

namespace Dialogue

namespace Instruction

def destinations : Instruction → List UInt32
  | set index _ => [index]
  | call _ _ dest => dest.toList
  | _ => []

def globals : Instruction → List UInt32
  | jumpIfFalse index _ => [index]
  | set index _ => [index]
  | call index _ dest => index :: dest.toList
  | _ => []

theorem mem_globals_of_mem_destinations {i : Instruction} {index : UInt32}
    (h : index ∈ i.destinations) : index ∈ i.globals := by
  cases i
  case set => exact h
  case call => exact List.mem_cons_of_mem _ h
  all_goals cases h

end Instruction

def Container.StandsAt (c : Container) (ip : Nat) (i : Instruction) : Prop :=
  c.Boundary ip ∧ ∃ next, c.instruction ip = .ok (i, next)

namespace Machine

variable {φ : Type} {c : Container} {m m' m'' : Machine φ}

/-- Machines after any operations, and those between two instructions of a run. -/
inductive Reachable (c : Container) : Machine φ → Prop
  | create : Reachable c (create c)
  | start {m m' : Machine φ} {bough : String} :
    Reachable c m → m.start bough = .ok m' → Reachable c m'
  | run {σ : Type} {host : φ → List Value → σ → Option (HostResult × σ)} {fuel : Nat}
    {m m' : Machine φ} {s s' : σ} {ended : RunEnd} :
    Reachable c m → m.run host fuel s = some (ended, m', s') → Reachable c m'
  | next {m m' : Machine φ} :
    Reachable c m → m.state = .running → m.step = .next m' → Reachable c m'
  | fault {m m' : Machine φ} {e : MachineError} :
    Reachable c m → m.state = .running → m.step = .fault m' e → Reachable c m'
  | call {m m' : Machine φ} {k : HostCall φ} :
    Reachable c m → m.state = .running → m.step = .call m' k → Reachable c m'
  | receive {m m' m'' : Machine φ} {k : HostCall φ} {v : Value} :
    Reachable c m → m.state = .running → m.step = .call m' k →
      m'.receive k.ip k.dest v = .ok m'' → Reachable c m''
  | halt {m : Machine φ} : Reachable c m → Reachable c m.halt
  | selectContinue {m m' : Machine φ} :
    Reachable c m → m.selectContinue = .ok m' → Reachable c m'
  | selectChoice {m m' : Machine φ} {index : Nat} :
    Reachable c m → m.selectChoice index = .ok m' → Reachable c m'
  | setExtern {m m' : Machine φ} {name : String} {v : Value} :
    Reachable c m → m.setExtern name v = .ok m' → Reachable c m'
  | setFunction {m m' : Machine φ} {name : String} {arity : Nat} {body : φ} :
    Reachable c m → m.setFunction name arity body = .ok m' → Reachable c m'
  | subscribe {m m' : Machine φ} {name : String} :
    Reachable c m → m.subscribe name = .ok m' → Reachable c m'
  | unsubscribe {m : Machine φ} {name : String} : Reachable c m → Reachable c (m.unsubscribe name)
  | declareEnum {m : Machine φ} {d : EnumDomain} : Reachable c m → Reachable c (m.declareEnum d)
  | save {m : Machine φ} : Reachable c m → Reachable c m.save.2
  | load {m : Machine φ} {s : Snapshot} : Reachable c m → Reachable c (m.load s).1
  | takeEvents {m : Machine φ} : Reachable c m → Reachable c m.takeEvents.2
  | takeDiagnostics {m : Machine φ} : Reachable c m → Reachable c m.takeDiagnostics.2

structure Placed (c : Container) (m : Machine φ) : Prop where
  container : m.container = c
  symbols : m.globals.map (·.symbol) = c.globals
  ip : c.Boundary m.ip
  pending : ∀ o ∈ m.pending, c.Boundary o.target.toNat

theorem Adjusts.placed (h : Adjusts m m') (hm : m.Placed c) : m'.Placed c :=
  ⟨h.container.trans hm.container, h.symbols.trans hm.symbols, h.ip ▸ hm.ip,
    h.pending ▸ hm.pending⟩

/-- Why an instruction stops a machine: it names a global that there is not, it assigns to an
immutable global that holds a value, or it offers no choice. -/
def Justifies (m : Machine φ) (i : Instruction) : Fault → Prop
  | .unknownGlobal index => index ∈ i.globals ∧ index ∉ m.container.globals.map (·.index)
  | .immutable name => ∃ g ∈ m.globals, g.symbol.index ∈ i.destinations ∧ g.symbol.name = name ∧
    g.symbol.isMutable = false ∧ g.slot.current.isNil = false
  | .emptyChoices => i = .choices []
  | _ => False

def Explained (m : Machine φ) (e : MachineError) : Prop :=
  ∃ ip f i, e = .fault ip f ∧ m.container.StandsAt ip i ∧ m.Justifies i f

theorem slotAt?_eq_none (hm : m.Placed c) {index : UInt32} (h : m.slotAt? index = none) :
    index ∉ m.container.globals.map (·.index) := by
  rw [hm.container, ← hm.symbols, List.map_map]
  intro hmem
  obtain ⟨g, hg, hindex⟩ := List.mem_map.1 hmem
  have := List.find?_eq_none.1 h g hg
  simp_all

theorem assign_spec (hm : m.Placed c) {i : Instruction} {index : UInt32} (v : Value)
    (hindex : index ∈ i.destinations) :
    (∃ m', m.assign index v = .ok m' ∧ m'.Placed c) ∨
      ∃ f, m.assign index v = .error f ∧ m.Justifies i f := by
  unfold assign
  cases hg : m.slotAt? index with
  | none =>
    right
    exact ⟨_, rfl, Instruction.mem_globals_of_mem_destinations hindex, slotAt?_eq_none hm hg⟩
  | some g =>
    have hmem := List.mem_of_find?_eq_some hg
    have hsymbol := List.find?_some hg
    by_cases himmutable : (!g.symbol.isMutable && !g.slot.current.isNil) = true
    · right
      simp only [himmutable, if_true]
      simp only [Bool.and_eq_true, Bool.not_eq_true'] at himmutable
      refine ⟨_, rfl, g, hmem, ?_, rfl, himmutable⟩
      simp_all
    · left
      simp only [himmutable]
      cases m.domains.checkAssignment g.slot.current v with
      | error cause => exact ⟨_, rfl, (adjusts_diagnose m _).placed hm⟩
      | ok =>
        by_cases hsame : (g.slot.current == v) = true
        · exact ⟨m, by simp [hsame], hm⟩
        · refine ⟨_, by simp only [hsame]; rfl, (adjusts_write _ _ _).placed ?_⟩
          split
          · exact ⟨hm.container, hm.symbols, hm.ip, hm.pending⟩
          · exact hm

theorem receive_spec (hm : m.Placed c) {i : Instruction} {dest : Option UInt32} (ip : Nat)
    (v : Value) (hdest : ∀ index ∈ dest, index ∈ i.destinations) :
    (∃ m', m.receive ip dest v = .ok m' ∧ m'.Placed c) ∨
      ∃ f, m.receive ip dest v = .error (.fault ip f) ∧ m.Justifies i f := by
  cases dest with
  | none => exact .inl ⟨m, rfl, hm⟩
  | some index =>
    rcases assign_spec hm v (hdest index rfl) with ⟨m', h, hm'⟩ | ⟨f, h, hf⟩
    · left
      exact ⟨m', by rw [receive, h]; rfl, hm'⟩
    · right
      exact ⟨f, by rw [receive, h]; rfl, hf⟩

end Machine

def Step.Placed {φ : Type} (c : Container) : Step φ → Prop
  | .next m => m.Placed c
  | .fault m e => m.Placed c ∧ m.Explained e
  | .call m k => m.Placed c ∧ ∃ i, c.StandsAt k.ip i ∧ ∀ index ∈ k.dest, index ∈ i.destinations

namespace Machine

variable {φ : Type} {c : Container} {m m' m'' : Machine φ}

theorem Placed.explained (hm : m.Placed c) {ip : Nat} {i : Instruction} {f : Fault}
    (hi : c.StandsAt ip i) (hf : m.Justifies i f) : m.Explained (.fault ip f) := by
  rw [← hm.container] at hi
  exact ⟨ip, f, i, rfl, hi, hf⟩

theorem settle_placed (hm : m.Placed c) {ip : Nat} {i : Instruction} {dest : Option UInt32}
    (hi : c.StandsAt ip i) (v : Value) (hdest : ∀ index ∈ dest, index ∈ i.destinations) :
    (m.settle ip dest v).Placed c := by
  unfold settle
  rcases receive_spec hm ip v hdest with ⟨m', h, hm'⟩ | ⟨f, h, hf⟩
  · rw [h]
    exact hm'
  · rw [h]
    exact ⟨hm, hm.explained hi hf⟩

theorem perform_placed (hc : c.Closed) (hm : m.Placed c) {ip : Nat} {i : Instruction}
    (hi : c.StandsAt ip i) (htargets : ∀ t ∈ i.targets, c.Boundary t.toNat) :
    (m.perform ip i).Placed c := by
  have inside {t : UInt32} (ht : t ∈ i.targets) : m.isInside t = true := by
    rw [isInside, hm.container, decide_eq_true_eq]
    exact hc.le_size (htargets t ht)
  cases i with
  | stop => exact ⟨hm.container, hm.symbols, hm.ip, hm.pending⟩
  | line speaker content tags => exact ⟨hm.container, hm.symbols, hm.ip, hm.pending⟩
  | choices options =>
    rw [perform]
    by_cases hempty : options.isEmpty = true
    · rw [if_pos hempty]
      have hf := congrArg Instruction.choices (List.isEmpty_iff.1 hempty)
      exact ⟨hm, hm.explained hi hf⟩
    · rw [if_neg hempty]
      have htarget (o : ChoiceOption) (ho : o ∈ options) :
          o.target ∈ (Instruction.choices options).targets :=
        List.mem_map_of_mem ho
      have hinside : options.find? (fun o => !m.isInside o.target) = none := by
        rw [List.find?_eq_none]
        intro o ho
        rw [inside (htarget o ho)]
        decide
      rw [hinside]
      refine ⟨hm.container, hm.symbols, hm.ip, fun choice hchoice => ?_⟩
      obtain ⟨o, ho, rfl⟩ := List.mem_map.1 hchoice
      exact htargets _ (htarget o ho)
  | jump target =>
    have ht : target ∈ (Instruction.jump target).targets := List.mem_singleton.2 rfl
    rw [perform, if_pos (inside ht)]
    exact ⟨hm.container, hm.symbols, htargets target ht, hm.pending⟩
  | jumpIfFalse index target =>
    have ht : target ∈ (Instruction.jumpIfFalse index target).targets := List.mem_singleton.2 rfl
    rw [perform, if_pos (inside ht)]
    cases hg : m.slotAt? index with
    | none =>
      exact ⟨hm, hm.explained hi ⟨List.mem_singleton.2 rfl, slotAt?_eq_none hm hg⟩⟩
    | some g =>
      by_cases htruthy : g.slot.isTruthy
      · simp only [htruthy, if_true]
        exact hm
      · simp only [htruthy]
        exact ⟨hm.container, hm.symbols, htargets target ht, hm.pending⟩
  | set index v =>
    apply settle_placed hm hi v
    intro d hd
    exact List.mem_singleton.2 (Option.some.inj hd).symm
  | call index args dest =>
    have hdest : ∀ d ∈ dest, d ∈ (Instruction.call index args dest).destinations :=
      fun d hd => Option.mem_toList.2 hd
    rw [perform]
    cases hg : m.slotAt? index with
    | none => exact ⟨hm, hm.explained hi ⟨List.mem_cons_self .., slotAt?_eq_none hm hg⟩⟩
    | some g =>
      cases hslot : g.slot with
      | value v =>
        simp only [hslot]
        exact settle_placed ((adjusts_diagnose m _).placed hm) hi _ hdest
      | function arity body =>
        simp only [hslot]
        split
        · exact ⟨hm, _, hi, hdest⟩
        · exact settle_placed ((adjusts_diagnose m _).placed hm) hi _ hdest

theorem step_placed (hc : c.Closed) (hm : m.Placed c) : m.step.Placed c := by
  unfold step
  rw [hm.container]
  by_cases hend : c.code.size ≤ m.ip
  · -- At the end of the code the machine finishes where it stands.
    rw [if_pos hend]
    exact ⟨rfl, hm.symbols, hm.ip, hm.pending⟩
  · obtain ⟨i, next, hi, hnext, htargets⟩ := hc.instruction hm.ip (by omega)
    rw [if_neg hend, hi]
    apply perform_placed hc _ ⟨hm.ip, next, hi⟩ htargets
    exact ⟨rfl, hm.symbols, hnext, hm.pending⟩

theorem placed_halt (hm : m.Placed c) : m.halt.Placed c :=
  ⟨hm.container, hm.symbols, hm.ip, fun _ h => by cases h⟩

theorem explained_halt {e : MachineError} (h : m.Explained e) : m.halt.Explained e := h

theorem steps_placed (hc : c.Closed) {σ : Type}
    {host : φ → List Value → σ → Option (HostResult × σ)} {fuel : Nat} {m m' : Machine φ} {s s' : σ}
    {ended : RunEnd} (hm : m.Placed c) (h : steps host fuel m s = some (ended, m', s')) :
    m'.Placed c ∧ ∀ e, ended = .error e → m'.Explained e := by
  induction fuel generalizing m s with
  | zero => cases h
  | succ fuel ih =>
    have hstep := step_placed hc hm
    rw [steps] at h
    split at h
    · cases hs : m.step with
      | next m₁ =>
        rw [hs] at h hstep
        exact ih hstep h
      | fault m₁ e =>
        rw [hs] at h hstep
        cases h
        refine ⟨placed_halt hstep.1, fun e he => ?_⟩
        cases he
        exact explained_halt hstep.2
      | call m₁ k =>
        rw [hs] at h hstep
        obtain ⟨hm₁, i, hi, hdest⟩ := hstep
        simp only at h
        split at h
        · cases h
        · cases h
          exact ⟨hm₁, fun e he => by cases he⟩
        · rename_i v s₁ _
          rcases receive_spec hm₁ k.ip v hdest with ⟨m₂, hreceive, hm₂⟩ | ⟨f, hreceive, hf⟩
          · rw [hreceive] at h
            exact ih hm₂ h
          · rw [hreceive] at h
            cases h
            refine ⟨placed_halt hm₁, fun e he => ?_⟩
            cases he
            exact explained_halt (hm₁.explained hi hf)
    · cases h
      exact ⟨hm, fun e he => by cases he⟩

theorem run_placed (hc : c.Closed) {σ : Type}
    {host : φ → List Value → σ → Option (HostResult × σ)} {fuel : Nat} {s s' : σ} {ended : RunEnd}
    (hm : m.Placed c) (h : m.run host fuel s = some (ended, m', s')) : m'.Placed c ∧
      ∀ ip f, ended = .error (.fault ip f) → m'.Explained (.fault ip f) := by
  unfold run at h
  split at h
  · obtain ⟨hm', hexplained⟩ := steps_placed hc hm h
    exact ⟨hm', fun ip f he => hexplained _ he⟩
  · cases h
    exact ⟨hm, fun ip f he => by cases he⟩
  · cases h
    exact ⟨hm, fun ip f he => by cases he⟩

theorem start_placed (hc : c.Closed) {bough : String} (hm : m.Placed c)
    (h : m.start bough = .ok m') : m'.Placed c := by
  obtain ⟨b, hb, rfl⟩ := start_eq_ok h
  have hmem : b ∈ c.boughs := hm.container ▸ List.mem_of_find?_eq_some hb
  exact ⟨hm.container, hm.symbols, hc.bough b hmem, fun _ h => by cases h⟩

theorem selectChoice_placed {index : Nat} (hm : m.Placed c) (h : m.selectChoice index = .ok m') :
    m'.Placed c := by
  obtain ⟨-, o, ho, rfl⟩ := selectChoice_eq_ok h
  exact ⟨hm.container, hm.symbols, hm.pending o (List.mem_of_getElem? ho), fun _ h => by cases h⟩

theorem placed_of_reachable (hc : c.Closed) (h : Reachable c m) : m.Placed c := by
  induction h with
  | create =>
    refine ⟨rfl, ?_, hc.zero, fun _ h => by cases h⟩
    rw [Machine.create, List.map_map]
    exact List.map_id _
  | start _ h hm => exact start_placed hc hm h
  | run _ h hm => exact (run_placed hc hm h).1
  | next _ _ h hm =>
    have hstep := step_placed hc hm
    rw [h] at hstep
    exact hstep
  | fault _ _ h hm =>
    have hstep := step_placed hc hm
    rw [h] at hstep
    exact hstep.1
  | call _ _ h hm =>
    have hstep := step_placed hc hm
    rw [h] at hstep
    exact hstep.1
  | @receive m m₁ m₂ k v _ _ h h' hm =>
    have hstep := step_placed hc hm
    rw [h] at hstep
    obtain ⟨hm₁, i, -, hdest⟩ := hstep
    rcases receive_spec hm₁ k.ip v hdest with ⟨m', hreceive, hm'⟩ | ⟨f, hreceive, -⟩
    · rw [hreceive] at h'
      cases h'
      exact hm'
    · rw [hreceive] at h'
      cases h'
  | halt _ hm => exact placed_halt hm
  | selectContinue _ h hm => exact (adjusts_selectContinue h).placed hm
  | selectChoice _ h hm => exact selectChoice_placed hm h
  | setExtern _ h hm => exact (adjusts_setExtern h).placed hm
  | setFunction _ h hm => exact (adjusts_setFunction h).placed hm
  | subscribe _ h hm => exact (adjusts_subscribe h).placed hm
  | unsubscribe _ hm => exact (adjusts_unsubscribe _ _).placed hm
  | load _ hm => exact (adjusts_loadEntries _ _).placed hm
  | declareEnum _ hm => exact (adjusts_declareEnum _ _).placed hm
  | save _ hm => exact (adjusts_save _).placed hm
  | takeEvents _ hm => exact ⟨hm.container, hm.symbols, hm.ip, hm.pending⟩
  | takeDiagnostics _ hm => exact ⟨hm.container, hm.symbols, hm.ip, hm.pending⟩

/-- On a built container every machine stands at a boundary of the code, and so do the choices on
offer. A run faults at an instruction only, for a global that there is not, for an immutable global
that holds a value, or for want of a choice. -/
theorem boundary_of_reachable {version : FormatVersion} {calls : List Builder.Call} {bytes : Bytes}
    (hwithin : ∀ call ∈ calls, call.Within)
    (hcode : (Builder.run version calls).code.length < UInt32.size)
    (hsize : bytes.size < UInt64.size) (hbuild : (Builder.run version calls).build = .ok bytes)
    (hparse : Container.parse bytes = .ok c) (hm : Reachable c m) :
    c.Boundary m.ip ∧ (∀ o ∈ m.pending, c.Boundary o.target.toNat) ∧
      ∀ {σ : Type} (host : φ → List Value → σ → Option (HostResult × σ)) (fuel : Nat) (s s' : σ)
        (m' : Machine φ) (ip : Nat) (f : Fault),
        m.run host fuel s = some (.error (.fault ip f), m', s') →
          m'.container = c ∧ ∃ i, c.StandsAt ip i ∧ m'.Justifies i f := by
  have hc := Builder.closed_of_build hwithin hcode hsize hbuild hparse
  have hplaced := placed_of_reachable hc hm
  refine ⟨hplaced.ip, hplaced.pending, fun host fuel s s' m' ip f hrun => ?_⟩
  obtain ⟨hm', hexplained⟩ := run_placed hc hplaced hrun
  obtain ⟨_, _, i, ⟨⟩, hi, hf⟩ := hexplained ip f rfl
  rw [hm'.container] at hi
  exact ⟨hm'.container, i, hi, hf⟩

theorem boundary_greeting : ∃ (c : Container) (m : Machine Unit), Reachable c m ∧
    m.state = .waiting .choice ∧ m.ip = 21 ∧ c.Boundary m.ip ∧
      ∀ o ∈ m.pending, c.Boundary o.target.toNat := by
  obtain ⟨bytes, hbuild, hsize⟩ := Builder.build_greeting
  have hcode : (Builder.run .offset Builder.greeting).code.length < UInt32.size := by
    decide +kernel
  have hword : bytes.size < UInt64.size := by
    rw [hsize]
    decide
  have hparse := Builder.parse_run (by decide) (by decide) hcode (by decide) hword hbuild
  rw [hsize] at hparse
  let c := Builder.assembled .offset Builder.greeting 118
  let host : Unit → List Value → Unit → Option (HostResult × Unit) := fun _ _ _ => none
  have hrun : (((create c : Machine Unit).start "start").map fun m =>
      (m.run host 4 ()).map fun r => (r.2.1.state, r.2.1.ip)) =
        .ok (some (.waiting .choice, 21)) := by
    decide +kernel
  obtain ⟨m₁, hstart, hrun⟩ := Except.map_eq_ok_iff.1 hrun
  obtain ⟨⟨ended, m₂, s⟩, hm₂, hplace⟩ := Option.map_eq_some_iff.1 hrun.symm
  have hreachable : Reachable c m₂ := .run (.start .create hstart) hm₂
  obtain ⟨hip, hpending, -⟩ :=
    boundary_of_reachable Builder.within_greeting hcode hword hbuild hparse hreachable
  obtain ⟨hstate, h21⟩ := Prod.mk.inj hplace
  exact ⟨c, m₂, hreachable, hstate, h21, hip, hpending⟩

end Machine

end Dialogue
