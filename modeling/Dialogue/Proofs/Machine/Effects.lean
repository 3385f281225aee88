import Dialogue.Machine
import Dialogue.Proofs.Reading

namespace Dialogue

namespace Machine

variable {φ : Type} {m m' m'' : Machine φ}

theorem start_eq_ok {bough : String} (h : m.start bough = .ok m') :
    ∃ b, m.container.bough? bough = some b ∧
      m' = { m with ip := b.entry.toNat, pending := [], state := .running } := by
  unfold start at h
  split at h
  case h_3 => cases h
  all_goals
    split at h
    · rename_i b hb
      cases h
      exact ⟨b, hb, rfl⟩
    · cases h

theorem selectContinue_eq_ok (h : m.selectContinue = .ok m') :
    m.state = .waiting .continuation ∧ m' = { m with state := .running } := by
  unfold selectContinue at h
  split at h
  · rename_i hstate
    cases h
    exact ⟨hstate, rfl⟩
  · cases h

theorem selectChoice_eq_ok {index : Nat} (h : m.selectChoice index = .ok m') :
    m.state = .waiting .choice ∧ ∃ o, m.pending[index]? = some o ∧
      m' = { m with
        visited := o.target :: m.visited
        pending := []
        ip := o.target.toNat
        state := .running } := by
  unfold selectChoice at h
  split at h
  · rename_i hstate
    split at h
    · rename_i o ho
      cases h
      exact ⟨hstate, o, ho, rfl⟩
    · cases h
  · cases h

theorem setExtern_eq_ok {name : String} {v : Value} (h : m.setExtern name v = .ok m') :
    ∃ g, m.global? name = some g ∧ m.domains.checkAssignment g.slot.current v = .ok () ∧
      m' = m.write g.symbol.index (.value v) := by
  unfold setExtern at h
  split at h
  · cases h
  · rename_i g hg
    split at h
    · split at h <;> cases h
      exact ⟨g, hg, ‹_›, rfl⟩
    · cases h

theorem setFunction_eq_ok {name : String} {arity : Nat} {body : φ}
    (h : m.setFunction name arity body = .ok m') : ∃ g, m.global? name = some g ∧
      m' = m.update g.symbol.index fun g =>
        { g with slot := .function arity body, observed := false } := by
  unfold setFunction at h
  split at h
  · cases h
  · rename_i g hg
    split at h <;> cases h
    exact ⟨g, hg, rfl⟩

theorem subscribe_eq_ok {name : String} (h : m.subscribe name = .ok m') :
    ∃ g, m.global? name = some g ∧ g.slot.isFunction = false ∧
      m' = m.update g.symbol.index fun g => { g with observed := true } := by
  unfold subscribe at h
  split at h
  · cases h
  · rename_i g hg
    split at h
    · cases h
    · rename_i hvalue
      cases h
      exact ⟨g, hg, by simpa using hvalue, rfl⟩

theorem unsubscribe_cases (m : Machine φ) (name : String) : m.unsubscribe name = m ∨
    ∃ g, m.global? name = some g ∧
      m.unsubscribe name = m.update g.symbol.index fun g => { g with observed := false } := by
  unfold unsubscribe
  split
  · rename_i g hg
    exact .inr ⟨g, hg, rfl⟩
  · exact .inl rfl

theorem loadEntry_cases (m : Machine φ) (name : String) (j : Json) :
    (m.loadEntry name j).1 = m ∨ (∃ e, (m.loadEntry name j).1 = m.diagnose e) ∨
      ∃ g v, m.global? name = some g ∧ m.domains.checkAssignment g.slot.current v = .ok () ∧
        (m.loadEntry name j).1 = m.write g.symbol.index (.value v) := by
  unfold loadEntry
  split
  · exact .inl rfl
  · rename_i g hg
    split
    · exact .inl rfl
    · simp only
      split
      · rename_i v hchecked
        obtain ⟨v', -, hchecked⟩ := Except.bind_eq_ok_iff.mp hchecked
        obtain ⟨_, hadmitted, hv⟩ := Except.bind_eq_ok_iff.mp hchecked
        cases hv
        exact .inr (.inr ⟨g, v, hg, hadmitted, rfl⟩)
      · exact .inr (.inl ⟨_, rfl⟩)

theorem assign_cases {index : UInt32} {v : Value} (h : m.assign index v = .ok m') :
    m' = m ∨ (∃ e, m' = m.diagnose e) ∨ ∃ g, m.slotAt? index = some g ∧
      m.domains.checkAssignment g.slot.current v = .ok () ∧ (g.slot.current == v) = false ∧
        m' = { m with
          events := m.events ++ if g.observed then [Event.changed g.symbol.name v] else [] }.write
            index (.value v) := by
  unfold assign at h
  split at h
  · cases h
  · rename_i g hg
    simp only at h
    split at h
    · cases h
    · split at h
      · cases h
        exact .inr (.inl ⟨_, rfl⟩)
      · rename_i hadmitted
        split at h
        · cases h
          exact .inl rfl
        · rename_i hfresh
          rw [Bool.not_eq_true] at hfresh
          cases h
          refine .inr (.inr ⟨g, hg, hadmitted, hfresh, ?_⟩)
          cases g.observed <;> simp

/-- Neither the place, the choices on offer nor the events differ, and diagnostics were appended at
most. -/
structure Adjusts (m m' : Machine φ) : Prop where
  container : m'.container = m.container
  symbols : m'.globals.map (·.symbol) = m.globals.map (·.symbol)
  ip : m'.ip = m.ip
  pending : m'.pending = m.pending
  events : m'.events = m.events
  diagnostics : m.diagnostics <+: m'.diagnostics

theorem Adjusts.refl (m : Machine φ) : Adjusts m m := ⟨rfl, rfl, rfl, rfl, rfl, List.prefix_rfl⟩

theorem Adjusts.trans (h : Adjusts m m') (h' : Adjusts m' m'') : Adjusts m m'' :=
  ⟨h'.container.trans h.container, h'.symbols.trans h.symbols, h'.ip.trans h.ip,
    h'.pending.trans h.pending, h'.events.trans h.events, h.diagnostics.trans h'.diagnostics⟩

theorem adjusts_update {index : UInt32} {f : Global φ → Global φ}
    (hf : ∀ g, (f g).symbol = g.symbol) : Adjusts m (m.update index f) := by
  refine ⟨rfl, ?_, rfl, rfl, rfl, List.prefix_rfl⟩
  simp only [update, List.map_map]
  apply List.map_congr_left
  intro g _
  change (ite _ (f g) g).symbol = g.symbol
  split
  · exact hf g
  · rfl

theorem adjusts_write (m : Machine φ) (index : UInt32) (slot : Slot φ) :
    Adjusts m (m.write index slot) :=
  adjusts_update fun _ => rfl

theorem adjusts_diagnose (m : Machine φ) (e : MachineError) : Adjusts m (m.diagnose e) :=
  ⟨rfl, rfl, rfl, rfl, rfl, List.prefix_append _ _⟩

theorem adjusts_selectContinue (h : m.selectContinue = .ok m') : Adjusts m m' := by
  obtain ⟨-, rfl⟩ := selectContinue_eq_ok h
  exact ⟨rfl, rfl, rfl, rfl, rfl, List.prefix_rfl⟩

theorem adjusts_setExtern {name : String} {v : Value} (h : m.setExtern name v = .ok m') :
    Adjusts m m' := by
  obtain ⟨g, -, -, rfl⟩ := setExtern_eq_ok h
  exact adjusts_write m _ _

theorem adjusts_setFunction {name : String} {arity : Nat} {body : φ}
    (h : m.setFunction name arity body = .ok m') : Adjusts m m' := by
  obtain ⟨g, -, rfl⟩ := setFunction_eq_ok h
  exact adjusts_update fun _ => rfl

theorem adjusts_subscribe {name : String} (h : m.subscribe name = .ok m') : Adjusts m m' := by
  obtain ⟨g, -, -, rfl⟩ := subscribe_eq_ok h
  exact adjusts_update fun _ => rfl

theorem adjusts_unsubscribe (m : Machine φ) (name : String) : Adjusts m (m.unsubscribe name) := by
  rcases unsubscribe_cases m name with h | ⟨g, -, h⟩ <;> rw [h]
  · exact .refl m
  · exact adjusts_update fun _ => rfl

theorem adjusts_declareEnum (m : Machine φ) (d : EnumDomain) : Adjusts m (m.declareEnum d) :=
  ⟨rfl, rfl, rfl, rfl, rfl, List.prefix_rfl⟩

theorem adjusts_save (m : Machine φ) : Adjusts m m.save.2 :=
  ⟨rfl, rfl, rfl, rfl, rfl, List.prefix_append _ _⟩

theorem adjusts_loadEntry (m : Machine φ) (name : String) (j : Json) :
    Adjusts m (m.loadEntry name j).1 := by
  rcases loadEntry_cases m name j with h | ⟨e, h⟩ | ⟨g, v, -, -, h⟩ <;> rw [h]
  · exact .refl m
  · exact adjusts_diagnose m e
  · exact adjusts_write m _ _

theorem adjusts_loadEntries (m : Machine φ) (entries : List (String × Json)) :
    Adjusts m (m.loadEntries entries).1 := by
  induction entries generalizing m with
  | nil => exact .refl m
  | cons entry entries ih => exact (adjusts_loadEntry m _ _).trans (ih _)

def SameQueues (m m' : Machine φ) : Prop :=
  m'.events = m.events ∧ m'.diagnostics = m.diagnostics

theorem sameQueues_start {bough : String} (h : m.start bough = .ok m') : SameQueues m m' := by
  obtain ⟨b, -, rfl⟩ := start_eq_ok h
  exact ⟨rfl, rfl⟩

theorem sameQueues_selectChoice {index : Nat} (h : m.selectChoice index = .ok m') :
    SameQueues m m' := by
  obtain ⟨-, o, -, rfl⟩ := selectChoice_eq_ok h
  exact ⟨rfl, rfl⟩

structure Grows (m m' : Machine φ) : Prop where
  events : m.events <+: m'.events
  diagnostics : m.diagnostics <+: m'.diagnostics

theorem Grows.refl (m : Machine φ) : Grows m m := ⟨List.prefix_rfl, List.prefix_rfl⟩

theorem Grows.trans (h : Grows m m') (h' : Grows m' m'') : Grows m m'' :=
  ⟨h.events.trans h'.events, h.diagnostics.trans h'.diagnostics⟩

theorem Adjusts.grows (h : Adjusts m m') : Grows m m' :=
  ⟨h.events ▸ List.prefix_rfl, h.diagnostics⟩

theorem grows_assign {index : UInt32} {v : Value} (h : m.assign index v = .ok m') :
    Grows m m' := by
  rcases assign_cases h with rfl | ⟨e, rfl⟩ | ⟨g, -, -, -, rfl⟩
  · exact .refl m'
  · exact (adjusts_diagnose m e).grows
  · exact ⟨List.prefix_append _ _, List.prefix_rfl⟩

theorem receive_cases {ip : Nat} {dest : Option UInt32} {v : Value}
    (h : m.receive ip dest v = .ok m') : m' = m ∨ ∃ index, m.assign index v = .ok m' := by
  cases dest with
  | none =>
    cases h
    exact .inl rfl
  | some index =>
    rw [receive] at h
    cases hassign : m.assign index v with
    | error f =>
      rw [hassign] at h
      cases h
    | ok m₁ =>
      rw [hassign] at h
      cases h
      exact .inr ⟨index, hassign⟩

theorem grows_receive {ip : Nat} {dest : Option UInt32} {v : Value}
    (h : m.receive ip dest v = .ok m') : Grows m m' := by
  rcases receive_cases h with rfl | ⟨index, hassign⟩
  · exact .refl m'
  · exact grows_assign hassign

end Machine

def Step.machine {φ : Type} : Step φ → Machine φ
  | .next m => m
  | .fault m _ => m
  | .call m _ => m

namespace Machine

variable {φ : Type} {m m' m'' : Machine φ}

inductive Settles (m : Machine φ) : Step φ → Prop
  | skip : Settles m (.next m)
  | assign {index : UInt32} {v : Value} {m' : Machine φ} (h : m.assign index v = .ok m') :
    Settles m (.next m')
  | fault (e : MachineError) : Settles m (.fault m e)

/-- What an instruction can come to: all that a run does to a machine is in this list. -/
inductive Performs (m : Machine φ) : Step φ → Prop
  | settle {s : Step φ} (h : Settles m s) : Performs m s
  | report {e : MachineError} {s : Step φ} (h : Settles (m.diagnose e) s) : Performs m s
  | stop : Performs m (.next { m with state := .finished })
  | line (l : Line) :
    Performs m (.next { m with events := m.events ++ [.line l], state := .waiting .continuation })
  | offer {options : List ChoiceOption} (some : options ≠ [])
    (inside : ∀ o ∈ options, m.isInside o.target = true) : Performs m (.next (m.offer options))
  | jump {target : UInt32} (inside : m.isInside target = true) :
    Performs m (.next { m with ip := target.toNat })
  | call {g : Global φ} {arity : Nat} {k : HostCall φ} (mem : g ∈ m.globals)
    (slot : g.slot = .function arity k.body) : Performs m (.call m k)

theorem settles (m : Machine φ) (ip : Nat) (dest : Option UInt32) (v : Value) :
    Settles m (m.settle ip dest v) := by
  unfold settle
  split
  · rename_i h
    rcases receive_cases h with rfl | ⟨index, hassign⟩
    · exact .skip
    · exact .assign hassign
  · exact .fault _

theorem performs (m : Machine φ) (ip : Nat) (i : Instruction) : Performs m (m.perform ip i) := by
  have hskip : Performs m (.next m) := .settle .skip
  have hfault (e : MachineError) : Performs m (.fault m e) := .settle (.fault e)
  cases i with
  | stop => exact .stop
  | line speaker content tags => exact .line ⟨speaker, content, tags⟩
  | choices options =>
    rw [perform]
    split
    · exact hfault _
    · rename_i hsome
      split
      · exact hfault _
      · rename_i hnone
        refine .offer (by simpa using hsome) fun o ho => ?_
        simpa using List.find?_eq_none.mp hnone o ho
  | jump target =>
    rw [perform]
    split
    · rename_i hinside
      exact .jump hinside
    · exact hfault _
  | jumpIfFalse index target =>
    rw [perform]
    split
    · rename_i hinside
      split
      · split
        · exact hskip
        · exact .jump hinside
      · exact hfault _
    · exact hfault _
  | set index v => exact .settle (settles m ip (some index) v)
  | call index args dest =>
    rw [perform]
    split
    · exact hfault _
    · rename_i g hg
      split
      · exact .report (settles _ ip dest .nil)
      · rename_i arity body hslot
        split
        · exact .call (List.mem_of_find?_eq_some hg) hslot
        · exact .report (settles _ ip dest .nil)

/-- A step performs an instruction behind which the machine stands then, unless it is at the end of
the code or reads none. -/
theorem step_cases (m : Machine φ) :
    Performs m m.step ∨ ∃ i next, m.container.instruction m.ip = .ok (i, next) ∧
      Performs { m with ip := next } m.step := by
  unfold step
  split
  · exact .inl .stop
  · split
    · exact .inl (.settle (.fault _))
    · rename_i i next hi
      exact .inr ⟨i, next, hi, performs _ _ _⟩

theorem Settles.grows {s : Step φ} (h : Settles m s) : Grows m s.machine := by
  cases h with
  | skip | fault => exact .refl m
  | assign h => exact grows_assign h

theorem Performs.grows {s : Step φ} (h : Performs m s) : Grows m s.machine := by
  cases h with
  | settle h => exact h.grows
  | report h => exact (adjusts_diagnose m _).grows.trans h.grows
  | line | offer => exact ⟨List.prefix_append _ _, List.prefix_rfl⟩
  | stop | jump | call => exact ⟨List.prefix_rfl, List.prefix_rfl⟩

theorem grows_step (m : Machine φ) : Grows m m.step.machine := by
  rcases step_cases m with h | ⟨i, next, -, h⟩
  · exact h.grows
  · exact ⟨h.grows.events, h.grows.diagnostics⟩

theorem grows_halt (m : Machine φ) : Grows m m.halt := ⟨List.prefix_rfl, List.prefix_rfl⟩

variable {σ : Type} {host : φ → List Value → σ → Option (HostResult × σ)}

theorem grows_steps {fuel : Nat} {s s' : σ} {ended : RunEnd}
    (h : steps host fuel m s = some (ended, m', s')) : Grows m m' := by
  induction fuel generalizing m s with
  | zero => cases h
  | succ fuel ih =>
    have hstep := grows_step m
    rw [steps] at h
    split at h
    · cases hs : m.step with
      | next m₁ =>
        rw [hs] at h hstep
        exact hstep.trans (ih h)
      | fault m₁ e =>
        rw [hs] at h hstep
        cases h
        exact hstep.trans (grows_halt m₁)
      | call m₁ c =>
        rw [hs] at h hstep
        simp only at h
        split at h
        · cases h
        · cases h
          exact hstep
        · split at h
          · rename_i hreceive
            exact hstep.trans ((grows_receive hreceive).trans (ih h))
          · cases h
            exact hstep.trans (grows_halt m₁)
    · cases h
      exact .refl _

theorem grows_run {fuel : Nat} {s s' : σ} {ended : RunEnd}
    (h : m.run host fuel s = some (ended, m', s')) : Grows m m' := by
  unfold run at h
  split at h
  · exact grows_steps h
  · cases h
    exact .refl _
  · cases h
    exact .refl _

theorem steps_induction {R : σ → σ → Prop} (hrefl : ∀ s, R s s)
    (htrans : ∀ {s s' s''}, R s s' → R s' s'' → R s s'')
    (hhost : ∀ {body args s r s'}, host body args s = some (r, s') → R s s') {fuel : Nat} {s s' : σ}
    {ended : RunEnd} (h : steps host fuel m s = some (ended, m', s')) : R s s' := by
  induction fuel generalizing m s with
  | zero => cases h
  | succ fuel ih =>
    rw [steps] at h
    split at h
    · split at h
      · exact ih h
      · cases h
        exact hrefl _
      · split at h
        · cases h
        · rename_i hcall
          cases h
          exact hhost hcall
        · rename_i hcall
          split at h
          · exact htrans (hhost hcall) (ih h)
          · cases h
            exact hhost hcall
    · cases h
      exact hrefl _

/-- What every host function does to the host, a whole run does. -/
theorem run_induction {R : σ → σ → Prop} (hrefl : ∀ s, R s s)
    (htrans : ∀ {s s' s''}, R s s' → R s' s'' → R s s'')
    (hhost : ∀ {body args s r s'}, host body args s = some (r, s') → R s s') {fuel : Nat} {s s' : σ}
    {ended : RunEnd} (h : m.run host fuel s = some (ended, m', s')) : R s s' := by
  unfold run at h
  split at h
  · exact steps_induction hrefl htrans hhost h
  · cases h
    exact hrefl _
  · cases h
    exact hrefl _

end Machine

end Dialogue
