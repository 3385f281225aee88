import Dialogue.Proofs.Machine.Globals

/-!
Two runs of the same script. Without tests and calls the way through the code depends on nothing but
the answers, and a constant is no obstacle as long as it is nil.
-/

namespace Dialogue

def Instruction.isStraight : Instruction → Bool
  | .jumpIfFalse .. | .call .. => false
  | _ => true

/-- Neither a test nor a call, and gives no constant a value. -/
def Instruction.Replays (symbols : List GlobalSymbol) : Instruction → Prop
  | .jumpIfFalse .. | .call .. => False
  | .set index v => ∀ s ∈ symbols, s.index = index → s.isMutable = true ∨ v.isNil = true
  | _ => True

instance (symbols : List GlobalSymbol) : (i : Instruction) → Decidable (i.Replays symbols)
  | .set _ _ => List.decidableBAll ..
  | .jumpIfFalse .. | .call .. => .isFalse id
  | .stop | .line .. | .choices _ | .jump _ => .isTrue trivial

/-- The places in the code that a script gets to from its entry, each with the answers that are left.
An answer out of range is skipped, and when no answers are left the first choice is taken. -/
inductive Container.Reaches (c : Container) (entry : Nat) (answers : List Nat) :
    Nat → List Nat → Prop
  | entry : c.Reaches entry answers entry answers
  | line {ip next as speaker content tags} (h : c.Reaches entry answers ip as)
    (hi : c.instruction ip = .ok (.line speaker content tags, next)) :
    c.Reaches entry answers next as
  | set {ip next as index v} (h : c.Reaches entry answers ip as)
    (hi : c.instruction ip = .ok (.set index v, next)) : c.Reaches entry answers next as
  | jump {ip next as target} (h : c.Reaches entry answers ip as)
    (hi : c.instruction ip = .ok (.jump target, next)) : c.Reaches entry answers target.toNat as
  | choose {ip next as options o} (h : c.Reaches entry answers ip as)
    (hi : c.instruction ip = .ok (.choices options, next)) (ho : options[as.headD 0]? = some o) :
    c.Reaches entry answers o.target.toNat as.tail
  | again {ip next as options} (h : c.Reaches entry answers ip as)
    (hi : c.instruction ip = .ok (.choices options, next)) (ho : options[as.headD 0]? = none) :
    c.Reaches entry answers ip as.tail

def Container.Along (c : Container) (P : Instruction → Prop) (entry : Nat) (answers : List Nat) :
    Prop :=
  ∀ ip as i next, c.Reaches entry answers ip as → c.instruction ip = .ok (i, next) → P i

abbrev Container.Replays (c : Container) (entry : Nat) (answers : List Nat) : Prop :=
  c.Along (·.Replays c.globals) entry answers

def Container.follow (c : Container) (p : Instruction → Bool) : Nat → Nat → List Nat → Bool
  | 0, _, _ => false
  | fuel + 1, ip, as =>
    match c.instruction ip with
    | .error _ => true
    | .ok (i, next) => p i && match i with
      | .line .. | .set .. => c.follow p fuel next as
      | .jump target => c.follow p fuel target.toNat as
      | .choices options =>
        match options[as.headD 0]? with
        | some o => c.follow p fuel o.target.toNat as.tail
        | none => c.follow p fuel ip as.tail
      | _ => true

theorem Container.along_of_follow {c : Container} {P : Instruction → Prop} {p : Instruction → Bool}
    (hp : ∀ i, p i = true → P i) {fuel entry : Nat} {answers : List Nat}
    (h : c.follow p fuel entry answers = true) : c.Along P entry answers := by
  have hfollow {ip : Nat} {as : List Nat} (hreach : c.Reaches entry answers ip as) :
      ∃ fuel, c.follow p (fuel + 1) ip as = true := by
    have hpos {fuel ip : Nat} {as : List Nat} (h : c.follow p fuel ip as = true) :
        ∃ fuel, c.follow p (fuel + 1) ip as = true := by
      cases fuel with
      | zero => cases h
      | succ fuel => exact ⟨fuel, h⟩
    induction hreach with
    | entry => exact hpos h
    | line _ hi ih | set _ hi ih | jump _ hi ih =>
      obtain ⟨fuel, ih⟩ := ih
      rw [follow, hi, Bool.and_eq_true] at ih
      exact hpos ih.2
    | choose _ hi ho ih | again _ hi ho ih =>
      obtain ⟨fuel, ih⟩ := ih
      rw [follow, hi, Bool.and_eq_true] at ih
      simp only [ho] at ih
      exact hpos ih.2
  intro ip as i next hreach hi
  obtain ⟨fuel, h⟩ := hfollow hreach
  rw [follow, hi, Bool.and_eq_true] at h
  exact hp i h.1

inductive Cue where
  | line (line : Line)
  | choices (count : Nat)

def Event.cue? : Event → Option Cue
  | .line l => some (.line l)
  | .choices cs => some (.choices cs.length)
  | .changed .. => none

structure Control where
  container : Container
  symbols : List GlobalSymbol
  state : MachineState
  ip : Nat
  targets : List UInt32

namespace Machine

variable {φ σ : Type} {m m' m₁ m₁' : Machine φ} {entry : Nat} {answers as : List Nat}

def control (m : Machine φ) : Control :=
  ⟨m.container, m.globals.map (·.symbol), m.state, m.ip, m.pending.map (·.target)⟩

def cues (m : Machine φ) : List Cue := m.events.filterMap Event.cue?

def SameConstants (m m' : Machine φ) : Prop :=
  ∀ g, g.symbol.isMutable = false → (g ∈ m'.globals ↔ g ∈ m.globals)

def Unset (m m' : Machine φ) : Prop :=
  ∀ g ∈ m.globals, g.symbol.isMutable = false → g.slot.current.isNil = true →
    ∀ g' ∈ m'.globals, g'.symbol = g.symbol → g'.slot.current.isNil = true

structure Parallel (m m' : Machine φ) : Prop where
  control : m'.control = m.control
  cues : m'.cues = m.cues
  unset : Unset m m'

theorem SameConstants.of_globals (h : m'.globals = m.globals) : SameConstants m m' :=
  fun g _ => by rw [h]

theorem SameConstants.trans (h : SameConstants m m') (h' : SameConstants m' m₁) :
    SameConstants m m₁ :=
  fun g hg => (h' g hg).trans (h g hg)

theorem Unset.congr (h : Unset m m') (hm : SameConstants m m₁) (hm' : SameConstants m' m₁') :
    Unset m₁ m₁' := by
  intro g hg hconstant hnil g' hg' hsymbol
  have hconstant' : g'.symbol.isMutable = false := hsymbol ▸ hconstant
  exact h g ((hm g hconstant).mp hg) hconstant hnil g' ((hm' g' hconstant').mp hg') hsymbol

theorem isNil_eq {v : Value} (h : v.isNil = true) : v = .nil := by
  cases v <;> first | rfl | cases h

theorem symbols_write (m : Machine φ) (index : UInt32) (slot : Slot φ) :
    (m.write index slot).globals.map (·.symbol) = m.globals.map (·.symbol) := by
  simpa [outlines, Function.comp_def] using
    congrArg (List.map Prod.fst) (outlines_write m index slot)

theorem sameConstants_write {g : Global φ} (hm : m.IsParsed) (hg : g ∈ m.globals)
    (hmutable : g.symbol.isMutable = true) (slot : Slot φ) :
    SameConstants m (m.write g.symbol.index slot) := by
  intro g' hconstant
  -- No constant has the index of the global that is written.
  have hother {g' : Global φ} (hg' : g' ∈ m.globals) (hconstant : g'.symbol.isMutable = false) :
      ¬(g'.symbol.index == g.symbol.index) = true := by
    rw [beq_iff_eq]
    intro heq
    rw [hm.eq_of_index hg' hg heq, hmutable] at hconstant
    cases hconstant
  rw [write, update, List.mem_map]
  constructor
  · rintro ⟨g₀, hg₀, rfl⟩
    split at hconstant
    · rename_i hat
      exact absurd hat (hother hg₀ hconstant)
    · rename_i hat
      rwa [if_neg hat]
  · intro hg'
    exact ⟨g', hg', if_neg (hother hg' hconstant)⟩

theorem assign_replays {index : UInt32} {v : Value} (hm : m.IsParsed)
    (hv : ∀ g ∈ m.globals, g.symbol.index = index → g.symbol.isMutable = true ∨ v.isNil = true)
    (h : m.assign index v = .ok m₁) :
    m₁.control = m.control ∧ m₁.cues = m.cues ∧ SameConstants m m₁ := by
  unfold assign at h
  split at h
  · cases h
  · rename_i g hg
    obtain ⟨hmem, rfl⟩ := slotAt?_mem hg
    simp only at h
    split at h
    · cases h
    · rename_i hassignable
      split at h
      · cases h
        exact ⟨rfl, rfl, .of_globals rfl⟩
      · split at h
        · cases h
          exact ⟨rfl, rfl, .of_globals rfl⟩
        · rename_i hchange
          -- A constant was nil here, and nil is no change.
          have hmutable : g.symbol.isMutable = true := by
            rcases hv g hmem rfl with hmutable | hnil
            · exact hmutable
            · by_contra hconstant
              rw [Bool.not_eq_true] at hconstant
              have hcurrent : g.slot.current = .nil := isNil_eq (by simpa [hconstant] using hassignable)
              rw [hcurrent, isNil_eq hnil] at hchange
              exact hchange rfl
          have hwrite : m₁.globals = (m.write g.symbol.index (.value v)).globals := by
            cases h
            split <;> rfl
          refine ⟨?_, ?_, fun g' hconstant => ?_⟩
          · rw [control, hwrite, symbols_write]
            cases h
            split <;> rfl
          · cases h
            split
            · simp [cues, write, update, Event.cue?]
            · rfl
          · rw [hwrite]
            exact sameConstants_write hm hmem hmutable _ g' hconstant

theorem assign_returns {index : UInt32} {g : Global φ} (hg : m.slotAt? index = some g)
    (hnil : g.symbol.isMutable = false → g.slot.current.isNil = true) (v : Value) :
    ∃ m₁, m.assign index v = .ok m₁ := by
  unfold assign
  rw [hg]
  simp only
  rw [if_neg]
  · split
    · exact ⟨_, rfl⟩
    · split <;> exact ⟨_, rfl⟩
  · cases hmutable : g.symbol.isMutable with
    | true => simp
    | false => simp [hnil hmutable]

theorem Parallel.assign {index : UInt32} {v : Value} (hp : Parallel m m') (hm : m.IsParsed)
    (hm' : m'.IsParsed)
    (hv : ∀ s ∈ m.container.globals, s.index = index → s.isMutable = true ∨ v.isNil = true)
    (h : m.assign index v = .ok m₁) :
    SameConstants m m₁ ∧ ∃ m₁', m'.assign index v = .ok m₁' ∧ Parallel m₁ m₁' := by
  have hsymbols : m'.globals.map (·.symbol) = m.globals.map (·.symbol) :=
    congrArg Control.symbols hp.control
  have hv₁ : ∀ g ∈ m.globals, g.symbol.index = index → g.symbol.isMutable = true ∨ v.isNil = true :=
    fun g hg => hv g.symbol (hm.symbols ▸ List.mem_map_of_mem hg)
  have hv₁' : ∀ g ∈ m'.globals, g.symbol.index = index →
      g.symbol.isMutable = true ∨ v.isNil = true :=
    fun g hg => hv g.symbol (hm.symbols ▸ hsymbols ▸ List.mem_map_of_mem hg)
  obtain ⟨hcontrol, hcues, hsame⟩ := assign_replays hm hv₁ h
  obtain ⟨g, hg⟩ : ∃ g, m.slotAt? index = some g := by
    cases hslot : m.slotAt? index with
    | none => simp [Machine.assign, hslot] at h
    | some g => exact ⟨g, rfl⟩
  obtain ⟨hmem, hindex⟩ := slotAt?_mem hg
  have hmem_symbol : g.symbol ∈ m'.globals.map (·.symbol) := hsymbols ▸ List.mem_map_of_mem hmem
  obtain ⟨g', hmem', hsymbol⟩ := List.mem_map.mp hmem_symbol
  have hg' : m'.slotAt? index = some g' := hm'.slotAt?_of_mem hmem' (by rw [hsymbol, hindex])
  have hnil' (hconstant : g'.symbol.isMutable = false) : g'.slot.current.isNil = true := by
    rw [hsymbol] at hconstant
    refine hp.unset g hmem hconstant ?_ g' hmem' hsymbol
    by_contra hset
    rw [Bool.not_eq_true] at hset
    simp [Machine.assign, hg, hconstant, hset] at h
  obtain ⟨m₁', hassign'⟩ := assign_returns hg' hnil' v
  obtain ⟨hcontrol', hcues', hsame'⟩ := assign_replays hm' hv₁' hassign'
  exact ⟨hsame, m₁', hassign', hcontrol'.trans (hp.control.trans hcontrol.symm),
    hcues'.trans (hp.cues.trans hcues.symm), hp.unset.congr hsame hsame'⟩

theorem Parallel.next (hp : Parallel m m') (m₁ m₁' : Machine φ) (hglobals : m₁.globals = m.globals)
    (hglobals' : m₁'.globals = m'.globals) (hcontrol : m₁'.control = m₁.control)
    (hcues : m₁'.cues = m₁.cues) : SameConstants m m₁ ∧ Parallel m₁ m₁' :=
  ⟨.of_globals hglobals, hcontrol, hcues,
    hp.unset.congr (.of_globals hglobals) (.of_globals hglobals')⟩

theorem Parallel.perform {ip : Nat} {i : Instruction} (hp : Parallel m m') (hm : m.IsParsed)
    (hm' : m'.IsParsed) (hi : i.Replays m.container.globals) (h : m.perform ip i = .next m₁) :
    SameConstants m m₁ ∧ ∃ m₁', m'.perform ip i = .next m₁' ∧ Parallel m₁ m₁' := by
  have hcontrol := hp.control
  simp only [Machine.control, Control.mk.injEq] at hcontrol
  obtain ⟨hcontainer, hsymbols, hstate, hip, htargets⟩ := hcontrol
  have hinside (target : UInt32) : m'.isInside target = m.isInside target := by
    rw [isInside, hcontainer, isInside]
  have hcues := hp.cues
  simp only [Machine.cues] at hcues
  cases i with
  | stop =>
    cases h
    obtain ⟨hsame, hnext⟩ := hp.next { m with state := .finished } { m' with state := .finished }
      rfl rfl
      (by simp [Machine.control, hcontainer, hsymbols, hip, htargets]) hcues
    exact ⟨hsame, _, rfl, hnext⟩
  | line speaker content tags =>
    cases h
    let e : Event := .line ⟨speaker, content, tags⟩
    obtain ⟨hsame, hnext⟩ := hp.next
      { m with events := m.events ++ [e], state := .waiting .continuation }
      { m' with events := m'.events ++ [e], state := .waiting .continuation } rfl rfl
      (by simp [Machine.control, hcontainer, hsymbols, hip, htargets]) (by simp [Machine.cues, hcues])
    exact ⟨hsame, _, rfl, hnext⟩
  | choices options =>
    rw [Machine.perform] at h
    split at h
    · cases h
    · rename_i hempty
      split at h
      · cases h
      · rename_i hfind
        cases h
        obtain ⟨hsame, hnext⟩ := hp.next (m.offer options) (m'.offer options) rfl rfl
          (by simp [Machine.control, offer, hcontainer, hsymbols, hip]) (by simp [Machine.cues, offer, hcues, Event.cue?])
        refine ⟨hsame, m'.offer options, ?_, hnext⟩
        rw [Machine.perform, if_neg hempty]
        simp only [hinside, hfind]
  | jump target =>
    rw [Machine.perform] at h
    split at h
    · rename_i hin
      cases h
      obtain ⟨hsame, hnext⟩ := hp.next { m with ip := target.toNat } { m' with ip := target.toNat }
        rfl rfl
        (by simp [Machine.control, hcontainer, hsymbols, hstate, htargets]) hcues
      exact ⟨hsame, _, by rw [Machine.perform, hinside, if_pos hin], hnext⟩
    · cases h
  | jumpIfFalse index target => exact hi.elim
  | set index v =>
    rw [Machine.perform, settle, receive] at h
    cases hassign : m.assign index v with
    | error f => simp [hassign, Except.mapError] at h
    | ok m₂ =>
      simp only [hassign, Except.mapError, Step.next.injEq] at h
      subst h
      obtain ⟨hsame, m₁', hassign', hnext⟩ := hp.assign hm hm' hi hassign
      refine ⟨hsame, m₁', ?_, hnext⟩
      simp [Machine.perform, settle, receive, hassign', Except.mapError]
  | call index args dest => exact hi.elim

def OnRoute (entry : Nat) (answers : List Nat) (m : Machine φ) (as : List Nat) : Prop :=
  match m.state with
  | .running | .waiting .continuation => m.container.Reaches entry answers m.ip as
  | .waiting .choice => ∃ ip options next, m.container.Reaches entry answers ip as ∧
      m.container.instruction ip = .ok (.choices options, next) ∧
        m.pending.map (·.target) = options.map (·.target)
  | _ => True

theorem onRoute_running (hstate : m.state = .running) :
    m.OnRoute entry answers as ↔ m.container.Reaches entry answers m.ip as := by
  rw [OnRoute, hstate]

def Announced (m : Machine φ) : Prop :=
  match m.state with
  | .waiting .continuation => ∃ l, m.cues = [.line l]
  | .waiting .choice => m.cues = [.choices m.pending.length]
  | _ => m.cues = []

theorem announced_running (hstate : m.state = .running) : m.Announced ↔ m.cues = [] := by
  rw [Announced, hstate]

theorem onRoute_perform {ip : Nat} {i : Instruction} (hm : m.IsParsed)
    (hstate : m.state = .running) (hannounced : m.Announced)
    (hreach : m.container.Reaches entry answers ip as)
    (hdecode : m.container.instruction ip = .ok (i, m.ip)) (hi : i.Replays m.container.globals)
    (h : m.perform ip i = .next m₁) : m₁.OnRoute entry answers as ∧ m₁.Announced := by
  have hcues : m.events.filterMap Event.cue? = [] := (announced_running hstate).mp hannounced
  cases i with
  | stop =>
    cases h
    exact ⟨trivial, hcues⟩
  | line speaker content tags =>
    cases h
    exact ⟨hreach.line hdecode, ⟨speaker, content, tags⟩, by simp [cues, hcues, Event.cue?]⟩
  | choices options =>
    rw [perform] at h
    split at h
    · cases h
    · split at h
      · cases h
      · cases h
        refine ⟨⟨ip, options, m.ip, hreach, hdecode, by simp [offer]⟩, ?_⟩
        simp [Announced, offer, cues, hcues, Event.cue?]
  | jump target =>
    rw [perform] at h
    split at h
    · cases h
      have hrunning : ({ m with ip := target.toNat } : Machine φ).state = .running := hstate
      exact ⟨(onRoute_running hrunning).mpr (hreach.jump hdecode),
        (announced_running hrunning).mpr hcues⟩
    · cases h
  | jumpIfFalse index target => exact hi.elim
  | set index v =>
    rw [perform, settle, receive] at h
    cases hassign : m.assign index v with
    | error f => simp [hassign, Except.mapError] at h
    | ok m₂ =>
      simp only [hassign, Except.mapError, Step.next.injEq] at h
      subst h
      obtain ⟨hcontrol, hsame, -⟩ := assign_replays hm
        (fun g hg => hi g.symbol (hm.symbols ▸ List.mem_map_of_mem hg)) hassign
      have hrunning : m₂.state = .running := (congrArg Control.state hcontrol).trans hstate
      have hip : m₂.ip = m.ip := congrArg Control.ip hcontrol
      have hcontainer : m₂.container = m.container := congrArg Control.container hcontrol
      rw [onRoute_running hrunning, announced_running hrunning, hip, hcontainer]
      exact ⟨hreach.set hdecode, hsame.trans hcues⟩
  | call index args dest => exact hi.elim

theorem perform_ne_call {ip : Nat} {i : Instruction} {c : HostCall φ}
    (hi : i.Replays m.container.globals) : m.perform ip i ≠ .call m₁ c := by
  intro h
  cases i with
  | stop | line => cases h
  | choices options =>
    rw [perform] at h
    split at h
    · cases h
    · split at h <;> cases h
  | jump target =>
    rw [perform] at h
    split at h <;> cases h
  | set index v => exact settle_ne_call h
  | jumpIfFalse | call => exact hi.elim

theorem step_ne_call {c : HostCall φ} (hstate : m.state = .running)
    (hroute : m.OnRoute entry answers as) (hreplays : m.container.Replays entry answers) :
    m.step ≠ .call m₁ c := by
  intro h
  unfold step at h
  split at h
  · cases h
  · split at h
    · cases h
    · rename_i i next hdecode
      exact perform_ne_call (m := { m with ip := next })
        (hreplays _ _ _ _ ((onRoute_running hstate).mp hroute) hdecode) h

theorem Parallel.step (hp : Parallel m m') (hm : m.IsParsed) (hm' : m'.IsParsed)
    (hstate : m.state = .running) (hroute : m.OnRoute entry answers as)
    (hannounced : m.Announced) (hreplays : m.container.Replays entry answers)
    (h : m.step = .next m₁) :
    SameConstants m m₁ ∧ (m₁.OnRoute entry answers as ∧ m₁.Announced) ∧
      ∃ m₁', m'.step = .next m₁' ∧ Parallel m₁ m₁' := by
  have hcontrol := hp.control
  simp only [Machine.control, Control.mk.injEq] at hcontrol
  obtain ⟨hcontainer, hsymbols, -, hip, htargets⟩ := hcontrol
  unfold Machine.step at h
  split at h
  · rename_i hend
    cases h
    have hend' : m'.container.code.size ≤ m'.ip := by rwa [hcontainer, hip]
    obtain ⟨hsame, hnext⟩ := hp.next { m with state := .finished } { m' with state := .finished }
      rfl rfl
      (by simp [Machine.control, hcontainer, hsymbols, hip, htargets]) hp.cues
    exact ⟨hsame, ⟨trivial, (announced_running hstate).mp hannounced⟩, _, if_pos hend', hnext⟩
  · rename_i hinside
    have hinside' : ¬m'.container.code.size ≤ m'.ip := by rwa [hcontainer, hip]
    split at h
    · cases h
    · rename_i i next hdecode
      have hreach := (onRoute_running hstate).mp hroute
      have hi := hreplays _ _ _ _ hreach hdecode
      have hstate' : m'.state = m.state := congrArg Control.state hp.control
      obtain ⟨-, hmoved⟩ := hp.next { m with ip := next } { m' with ip := next }
        rfl rfl (by simp [Machine.control, hcontainer, hsymbols, hstate', htargets]) hp.cues
      have hparsed : ({ m with ip := next } : Machine φ).IsParsed := hm.congr rfl rfl
      obtain ⟨hsame, m₁', hperform, hnext⟩ := hmoved.perform hparsed (hm'.congr rfl rfl) hi h
      have hdecode' : m'.container.instruction m'.ip = .ok (i, next) := by rwa [hcontainer, hip]
      have hnow : ({ m with ip := next } : Machine φ).Announced :=
        (announced_running (m := { m with ip := next }) hstate).mpr
          ((announced_running hstate).mp hannounced)
      refine ⟨hsame, onRoute_perform (m := { m with ip := next }) hparsed hstate hnow hreach hdecode
        hi h, m₁', ?_, hnext⟩
      rw [Machine.step, if_neg hinside', hdecode', hip]
      exact hperform

theorem isParsed_step (hm : m.IsParsed) (h : m.step = .next m₁) : m₁.IsParsed := by
  have hprogress := progress_step m
  rw [h] at hprogress
  exact hm.congr hprogress.container hprogress.symbols

variable {host : φ → List Value → σ → Option (HostResult × σ)}

theorem Parallel.steps {fuel : Nat} {s s₁ : σ} (hp : Parallel m m') (hm : m.IsParsed)
    (hm' : m'.IsParsed) (hroute : m.OnRoute entry answers as) (hannounced : m.Announced)
    (hreplays : m.container.Replays entry answers)
    (h : steps host fuel m s = some (.paused, m₁, s₁)) :
    s₁ = s ∧ SameConstants m m₁ ∧ m₁.state ≠ .running ∧
      (m₁.OnRoute entry answers as ∧ m₁.Announced) ∧
      ∃ m₁', Parallel m₁ m₁' ∧ ∀ (host' : φ → List Value → σ → Option (HostResult × σ)) (fuel' : Nat),
        fuel ≤ fuel' → ∀ s', Machine.steps host' fuel' m' s' = some (.paused, m₁', s') := by
  induction fuel generalizing m m' s with
  | zero => cases h
  | succ fuel ih =>
    rw [Machine.steps] at h
    have hstate' : m'.state = m.state := congrArg Control.state hp.control
    split at h
    · rename_i hstate
      cases hstep : m.step with
      | next m₂ =>
        rw [hstep] at h
        obtain ⟨hsame, hroute₂, m₂', hstep', hp₂⟩ := hp.step hm hm' hstate hroute hannounced hreplays hstep
        have hm₂ := isParsed_step hm hstep
        have hreplays₂ : m₂.container.Replays entry answers := by
          have hprogress := progress_step m
          rw [hstep] at hprogress
          have hcontainer : m₂.container = m.container := hprogress.container
          rwa [hcontainer]
        obtain ⟨hs, hsame', hrest, hroute₁, m₁', hp₁, hfollow⟩ :=
          ih hp₂ hm₂ (isParsed_step hm' hstep') hroute₂.1 hroute₂.2 hreplays₂ h
        refine ⟨hs, hsame.trans hsame', hrest, hroute₁, m₁', hp₁, fun host' fuel' hle s' => ?_⟩
        obtain ⟨fuel', rfl⟩ := Nat.exists_eq_add_of_lt (Nat.lt_of_succ_le hle)
        rw [Machine.steps, if_pos (hstate'.trans hstate), hstep']
        exact hfollow host' _ (by omega) s'
      | fault m₂ e =>
        rw [hstep] at h
        cases h
      | call m₂ c => exact absurd hstep (step_ne_call hstate hroute hreplays)
    · rename_i hstate
      cases h
      refine ⟨rfl, .of_globals rfl, hstate, ⟨hroute, hannounced⟩, m', hp, fun host' fuel' hle s' => ?_⟩
      obtain ⟨fuel', rfl⟩ := Nat.exists_eq_add_of_lt (Nat.lt_of_succ_le hle)
      rw [Machine.steps, if_neg (by rwa [hstate'])]

theorem Parallel.run {fuel : Nat} {s s₁ : σ} (hp : Parallel m m') (hm : m.IsParsed)
    (hm' : m'.IsParsed) (hstate : m.state = .running) (hroute : m.OnRoute entry answers as)
    (hannounced : m.Announced) (hreplays : m.container.Replays entry answers)
    (h : m.run host fuel s = some (.paused, m₁, s₁)) :
    s₁ = s ∧ SameConstants m m₁ ∧ m₁.state ≠ .running ∧
      (m₁.OnRoute entry answers as ∧ m₁.Announced) ∧
      ∃ m₁', Parallel m₁ m₁' ∧ ∀ (host' : φ → List Value → σ → Option (HostResult × σ)) (fuel' : Nat),
        fuel ≤ fuel' → ∀ s', m'.run host' fuel' s' = some (.paused, m₁', s') := by
  have hstate' : m'.state = m.state := congrArg Control.state hp.control
  unfold Machine.run at h ⊢
  rw [hstate', hstate] at *
  exact hp.steps hm hm' hroute hannounced hreplays h

structure Resumes (entry : Nat) (answers as : List Nat) (m m₁ : Machine φ) : Prop where
  running : m₁.state = .running
  container : m₁.container = m.container
  constants : SameConstants m m₁
  reaches : m.container.Reaches entry answers m₁.ip as

theorem Resumes.onRoute (h : Resumes entry answers as m m₁) : m₁.OnRoute entry answers as := by
  rw [onRoute_running h.running, h.container]
  exact h.reaches

theorem Parallel.selectContinue (hp : Parallel m m') (hroute : m.OnRoute entry answers as)
    (h : m.selectContinue = .ok m₁) : Resumes entry answers as m m₁ ∧
      ∃ m₁', m'.selectContinue = .ok m₁' ∧ Parallel m₁ m₁' := by
  have hcontrol := hp.control
  simp only [Machine.control, Control.mk.injEq] at hcontrol
  obtain ⟨hcontainer, hsymbols, hstate, hip, htargets⟩ := hcontrol
  unfold Machine.selectContinue at h ⊢
  rw [hstate]
  split at h
  · rename_i hwaiting
    cases h
    obtain ⟨hsame, hnext⟩ := hp.next { m with state := .running } { m' with state := .running }
      rfl rfl
      (by simp [Machine.control, hcontainer, hsymbols, hip, htargets]) hp.cues
    rw [OnRoute, hwaiting] at hroute
    exact ⟨⟨rfl, rfl, hsame, hroute⟩, _, rfl, hnext⟩
  · cases h

theorem Parallel.selectChoice (hp : Parallel m m') (hroute : m.OnRoute entry answers as)
    (h : m.selectChoice (as.headD 0) = .ok m₁) : Resumes entry answers as.tail m m₁ ∧
      ∃ m₁', m'.selectChoice (as.headD 0) = .ok m₁' ∧ Parallel m₁ m₁' := by
  have hcontrol := hp.control
  simp only [Machine.control, Control.mk.injEq] at hcontrol
  obtain ⟨hcontainer, hsymbols, hstate, hip, htargets⟩ := hcontrol
  unfold Machine.selectChoice at h ⊢
  rw [hstate]
  split at h
  · rename_i hwaiting
    split at h
    · rename_i c hc
      cases h
      have htarget : m'.pending[as.headD 0]?.map (·.target) = some c.target := by
        rw [← List.getElem?_map, htargets, List.getElem?_map, hc]
        rfl
      obtain ⟨c', hc', heq⟩ := Option.map_eq_some_iff.mp htarget
      obtain ⟨hsame, hnext⟩ := hp.next
        { m with
          visited := c.target :: m.visited
          pending := []
          ip := c.target.toNat
          state := .running }
        { m' with
          visited := c'.target :: m'.visited
          pending := []
          ip := c'.target.toNat
          state := .running }
        rfl rfl (by simp [Machine.control, hcontainer, hsymbols, heq]) hp.cues
      rw [OnRoute, hwaiting] at hroute
      obtain ⟨ip, options, next, hreach, hdecode, hoptions⟩ := hroute
      have hoption : options[as.headD 0]?.map (·.target) = some c.target := by
        rw [← List.getElem?_map, ← hoptions, List.getElem?_map, hc]
        rfl
      obtain ⟨o, ho, htarget⟩ := Option.map_eq_some_iff.mp hoption
      refine ⟨⟨rfl, rfl, hsame, ?_⟩, _, by rw [hc'], hnext⟩
      rw [← htarget]
      exact hreach.choose hdecode ho
    · cases h
  · cases h

theorem Parallel.selectContinue_error {e : MachineError} (hp : Parallel m m')
    (h : m.selectContinue = .error e) : ∃ e', m'.selectContinue = .error e' := by
  have hstate : m'.state = m.state := congrArg Control.state hp.control
  unfold Machine.selectContinue at h ⊢
  rw [hstate]
  split at h
  · cases h
  · exact ⟨_, rfl⟩

theorem Parallel.selectChoice_error {e : MachineError} (hp : Parallel m m')
    (hroute : m.OnRoute entry answers as) (hwaiting : m.state = .waiting .choice)
    (h : m.selectChoice (as.headD 0) = .error e) : m.OnRoute entry answers as.tail ∧
      ∃ e', m'.selectChoice (as.headD 0) = .error e' := by
  have hcontrol := hp.control
  simp only [Machine.control, Control.mk.injEq] at hcontrol
  obtain ⟨-, -, hstate, -, htargets⟩ := hcontrol
  unfold Machine.selectChoice at h ⊢
  rw [hwaiting] at h
  rw [hstate, hwaiting]
  cases hc : m.pending[as.headD 0]? with
  | some c =>
    simp only [hc] at h
    cases h
  | none =>
    have hrange := List.getElem?_eq_none_iff.mp hc
    have hlength := congrArg List.length htargets
    simp only [List.length_map] at hlength
    have hc' : m'.pending[as.headD 0]? = none := List.getElem?_eq_none (by omega)
    simp only [hc']
    refine ⟨?_, _, rfl⟩
    rw [OnRoute, hwaiting] at hroute ⊢
    obtain ⟨ip, options, next, hreach, hdecode, hoptions⟩ := hroute
    have hcount := congrArg List.length hoptions
    simp only [List.length_map] at hcount
    exact ⟨ip, options, next, hreach.again hdecode (List.getElem?_eq_none (by omega)), hdecode,
      hoptions⟩

end Machine

end Dialogue
