import Dialogue.Proofs.Machine.Saving

namespace Dialogue

variable {φ ψ σ : Type} (f : φ → ψ)

def Slot.map : Slot φ → Slot ψ
  | value v => .value v
  | function arity body => .function arity (f body)

@[simp]
theorem Slot.current_map (slot : Slot φ) : (slot.map f).current = slot.current := by
  cases slot <;> rfl

@[simp]
theorem Slot.isTruthy_map (slot : Slot φ) : (slot.map f).isTruthy = slot.isTruthy := by
  cases slot <;> rfl

@[simp]
theorem Slot.isFunction_map (slot : Slot φ) : (slot.map f).isFunction = slot.isFunction := by
  cases slot <;> rfl

def Global.map (g : Global φ) : Global ψ := ⟨g.symbol, g.slot.map f, g.observed⟩

def HostCall.map (c : HostCall φ) : HostCall ψ := ⟨f c.body, c.args, c.ip, c.dest⟩

def Machine.map (m : Machine φ) : Machine ψ :=
  ⟨m.container, m.globals.map (.map f), m.state, m.ip, m.pending, m.visited, m.domains, m.events,
    m.diagnostics⟩

def Step.map : Step φ → Step ψ
  | next m => .next (m.map f)
  | fault m e => .fault (m.map f) e
  | call m c => .call (m.map f) (c.map f)

namespace Machine

variable (m : Machine φ)

@[simp]
theorem map_container : (m.map f).container = m.container := rfl

@[simp]
theorem map_state : (m.map f).state = m.state := rfl

@[simp]
theorem map_ip : (m.map f).ip = m.ip := rfl

@[simp]
theorem map_pending : (m.map f).pending = m.pending := rfl

@[simp]
theorem map_domains : (m.map f).domains = m.domains := rfl

@[simp]
theorem map_events : (m.map f).events = m.events := rfl

theorem create_map (c : Container) : (create c : Machine φ).map f = create c := by
  simp [create, map, Global.map, Slot.map]

theorem slotAt?_map (index : UInt32) :
    (m.map f).slotAt? index = (m.slotAt? index).map (Global.map f) :=
  List.find?_map ..

theorem global?_map (name : String) : (m.map f).global? name = (m.global? name).map (Global.map f) :=
  List.find?_map ..

theorem write_map (index : UInt32) (v : Value) :
    (m.map f).write index (.value v) = (m.write index (.value v)).map f := by
  simp only [write, update, map, List.map_map, Machine.mk.injEq, true_and, and_true]
  apply List.map_congr_left
  intro g _
  by_cases hat : (g.symbol.index == index) = true
  · simp only [Function.comp_apply, Global.map, hat, if_true, Slot.map]
  · simp only [Function.comp_apply, Global.map, hat, Bool.false_eq_true, if_false]

theorem assign_map (index : UInt32) (v : Value) :
    (m.map f).assign index v = (m.assign index v).map (map f) := by
  unfold assign
  rw [slotAt?_map]
  cases m.slotAt? index with
  | none => rfl
  | some g =>
    simp only [Option.map_some, Global.map, Slot.current_map, map_domains]
    split
    · rfl
    · cases m.domains.checkAssignment g.slot.current v with
      | error cause => rfl
      | ok _ =>
        simp only
        split
        · rfl
        · split
          · exact congrArg Except.ok
              (write_map f { m with events := m.events ++ [.changed g.symbol.name v] } index v)
          · exact congrArg Except.ok (write_map f m index v)

theorem receive_map (ip : Nat) (dest : Option UInt32) (v : Value) :
    (m.map f).receive ip dest v = (m.receive ip dest v).map (map f) := by
  cases dest with
  | none => rfl
  | some index =>
    rw [receive, receive, assign_map]
    cases m.assign index v <;> rfl

theorem settle_map (ip : Nat) (dest : Option UInt32) (v : Value) :
    (m.map f).settle ip dest v = (m.settle ip dest v).map f := by
  rw [settle, settle, receive_map]
  cases m.receive ip dest v <;> rfl

theorem perform_map (ip : Nat) (i : Instruction) :
    (m.map f).perform ip i = (m.perform ip i).map f := by
  have hinside (target : UInt32) : (m.map f).isInside target = m.isInside target := rfl
  cases i with
  | stop | line => rfl
  | choices options =>
    simp only [perform, hinside]
    split
    · rfl
    · split <;> rfl
  | jump target =>
    simp only [perform, hinside]
    split <;> rfl
  | jumpIfFalse index target =>
    simp only [perform, hinside, slotAt?_map]
    split
    · cases m.slotAt? index with
      | none => rfl
      | some g =>
        simp only [Option.map_some, Global.map, Slot.isTruthy_map]
        split <;> rfl
    · rfl
  | set index v => exact settle_map f m ip (some index) v
  | call index args dest =>
    simp only [perform, slotAt?_map]
    cases m.slotAt? index with
    | none => rfl
    | some g =>
      obtain ⟨symbol, slot, observed⟩ := g
      cases slot with
      | value v => exact settle_map f (m.diagnose (.unboundFunction symbol.name)) ip dest .nil
      | function arity body =>
        simp only [Option.map_some, Global.map, Slot.map]
        split
        · rfl
        · exact settle_map f (m.diagnose (.arityMismatch symbol.name arity args.length)) ip dest .nil

theorem step_map : (m.map f).step = m.step.map f := by
  simp only [step, map_container, map_ip]
  by_cases hend : m.container.code.size ≤ m.ip
  · simp only [hend, if_true]
    rfl
  · simp only [hend, if_false]
    cases m.container.instruction m.ip with
    | error cause => rfl
    | ok r => exact perform_map f { m with ip := r.2 } m.ip r.1

theorem start_map (bough : String) : (m.map f).start bough = (m.start bough).map (map f) := by
  simp only [start, map_state, map_container]
  cases m.state with
  | ready | finished => cases m.container.bough? bough <;> rfl
  | running | waiting | faulted => rfl

theorem selectContinue_map : (m.map f).selectContinue = m.selectContinue.map (map f) := by
  simp only [selectContinue, map_state]
  split <;> rfl

theorem selectChoice_map (index : Nat) :
    (m.map f).selectChoice index = (m.selectChoice index).map (map f) := by
  simp only [selectChoice, map_state, map_pending]
  split
  · cases m.pending[index]? <;> rfl
  · rfl

theorem saveGlobals_map (gs : List (Global φ)) (saved : Snapshot) (problems : List MachineError) :
    saveGlobals (gs.map (.map f)) saved problems = saveGlobals gs saved problems := by
  induction gs generalizing saved problems with
  | nil => rfl
  | cons g gs ih =>
    obtain ⟨symbol, slot, observed⟩ := g
    cases slot with
    | function arity body => exact ih saved problems
    | value v =>
      simp only [List.map_cons, saveGlobals, Global.map, Slot.map]
      split <;> exact ih ..

theorem save_map : (m.map f).save = (m.save.1, m.save.2.map f) := by
  simp only [save, map, saveGlobals_map]

theorem loadEntry_map (name : String) (j : Json) :
    (m.map f).loadEntry name j = ((m.loadEntry name j).1.map f, (m.loadEntry name j).2) := by
  unfold loadEntry
  rw [global?_map]
  cases m.global? name with
  | none => rfl
  | some g =>
    simp only [Option.map_some, Global.map, Slot.isFunction_map, Slot.current_map, map_domains]
    split
    · rfl
    · generalize (Value.ofJson j >>= fun v => _ : Except ValueError Value) = checked
      cases checked with
      | error cause => rfl
      | ok v => exact congrArg (·, true) (write_map f m g.symbol.index v)

theorem load_map (s : Snapshot) : (m.map f).load s = ((m.load s).1.map f, (m.load s).2) := by
  unfold load
  generalize s.entries = entries
  induction entries generalizing m with
  | nil => rfl
  | cons entry entries ih => simp only [loadEntries, loadEntry_map, ih]

abbrev hosted (m : Machine Empty) : Machine φ := m.map Empty.elim

def runAlone (fuel : Nat) (m : Machine Empty) : Option (RunEnd × Machine Empty) :=
  (m.run (fun body => body.elim) fuel ()).map fun r => (r.1, r.2.1)

variable {host : φ → List Value → σ → Option (HostResult × σ)}

theorem steps_hosted (fuel : Nat) (m : Machine Empty) (s : σ) : steps host fuel m.hosted s =
    (steps (fun body => body.elim) fuel m ()).map fun r => (r.1, r.2.1.hosted, s) := by
  induction fuel generalizing m with
  | zero => rfl
  | succ fuel ih =>
    simp only [steps, step_map, map_state]
    split
    · cases m.step with
      | next m₁ => exact ih m₁
      | fault m₁ e => rfl
      | call m₁ c => exact c.body.elim
    · rfl

theorem run_hosted (fuel : Nat) (m : Machine Empty) (s : σ) :
    m.hosted.run host fuel s = (m.runAlone fuel).map fun r => (r.1, r.2.hosted, s) := by
  simp only [runAlone, run, map_state, Option.map_map]
  cases m.state with
  | running => exact steps_hosted fuel m s
  | ready | waiting | finished | faulted => rfl

end Machine

def Event.asked : Option (List Choice) → Event → Option (List Choice)
  | _, .line _ => none
  | _, .choices cs => some cs
  | asked, .changed .. => asked

namespace Machine

variable {m m' : Machine φ} {asked : Option (List Choice)}

def Covered (asked : Option (List Choice)) (m : Machine φ) : Prop :=
  ∀ cs, m.events.foldl Event.asked asked = some cs → m.pending.length ≤ cs.length

theorem Covered.congr (h : m.Covered asked) (hevents : m'.events = m.events)
    (hpending : m'.pending = m.pending) : m'.Covered asked := by
  intro cs hcs
  rw [hpending]
  exact h cs (hevents ▸ hcs)

theorem Covered.assign {index : UInt32} {v : Value} (h : m.Covered asked)
    (hassign : m.assign index v = .ok m') : m'.Covered asked := by
  rcases assign_cases hassign with rfl | ⟨e, rfl⟩ | ⟨g, -, -, -, rfl⟩
  · exact h
  · exact h.congr rfl rfl
  · refine fun cs hcs => h cs ?_
    rw [← hcs]
    cases g.observed <;> simp [write, update, Event.asked]

theorem Settles.covered {s : Step φ} (hs : Settles m s) (h : m.Covered asked) :
    s.machine.Covered asked := by
  cases hs with
  | skip | fault => exact h
  | assign hassign => exact h.assign hassign

theorem Performs.covered {s : Step φ} (hs : Performs m s) (h : m.Covered asked) :
    s.machine.Covered asked := by
  cases hs with
  | settle hs => exact hs.covered h
  | report hs => exact hs.covered (h.congr rfl rfl)
  | stop | jump | call => exact h.congr rfl rfl
  | line l => intro cs hcs; simp [Step.machine, Event.asked] at hcs
  | offer =>
    intro cs hcs
    simp only [Step.machine, Machine.offer, List.foldl_append, List.foldl_cons, List.foldl_nil,
      Event.asked, Option.some.injEq] at hcs ⊢
    rw [hcs]

theorem Covered.step (h : m.Covered asked) : m.step.machine.Covered asked := by
  rcases step_cases m with hs | ⟨i, next, -, hs⟩
  · exact hs.covered h
  · exact hs.covered (h.congr rfl rfl)

theorem Covered.halt (m : Machine φ) : m.halt.Covered asked := fun _ _ => Nat.zero_le _

theorem Covered.steps {fuel : Nat} {m m' : Machine Empty} {ended : RunEnd} (h : m.Covered asked)
    (hsteps : Machine.steps (fun body => body.elim) fuel m () = some (ended, m', ())) :
    m'.Covered asked := by
  induction fuel generalizing m with
  | zero => cases hsteps
  | succ fuel ih =>
    have hstep := h.step
    rw [Machine.steps] at hsteps
    split at hsteps
    · cases hs : m.step with
      | next m₁ =>
        rw [hs] at hsteps hstep
        exact ih hstep hsteps
      | fault m₁ e =>
        rw [hs] at hsteps
        cases hsteps
        exact .halt m₁
      | call m₁ c => exact c.body.elim
    · cases hsteps
      exact h

def Unwatched (m : Machine φ) : Prop := ∀ o ∈ m.outlines, o.2 = false

theorem Progress.unwatched (h : Progress m m') (hm : m.Unwatched) :
    ∃ es, m'.events = m.events ++ es ∧ ∀ e ∈ es, e.isChange = false := by
  induction h with
  | refl => exact ⟨[], by simp, nofun⟩
  | @tail m₁ m₂ hprogress hstep ih =>
    obtain ⟨es, hes, hquiet⟩ := ih
    cases hstep with
    | move es' quiet _ _ _ hevents =>
      refine ⟨es ++ es', by rw [hevents, hes, List.append_assoc], fun e he => ?_⟩
      exact (List.mem_append.mp he).elim (hquiet e) (quiet e)
    | store index v g found _ _ _ _ _ hevents =>
      have houtline : (g.symbol, g.observed) ∈ m.outlines := by
        rw [← Progress.outlines hprogress]
        exact List.mem_map_of_mem (slotAt?_mem found).1
      have hobserved : g.observed = false := hm _ houtline
      exact ⟨es, by simp [hevents, hes, hobserved], hquiet⟩

theorem runAlone_spec {fuel : Nat} {m m' : Machine Empty} {ended : RunEnd}
    (h : m.runAlone fuel = some (ended, m')) (hcovered : m.Covered asked) (hm : m.Unwatched)
    (hevents : m.events = []) :
    m'.Covered asked ∧ m'.Unwatched ∧ ∀ e ∈ m'.events, e.isChange = false := by
  obtain ⟨⟨ended, m', u⟩, hrun, heq⟩ := Option.map_eq_some_iff.mp h
  cases heq
  have hprogress := progress_run hrun
  obtain ⟨es, hes, hquiet⟩ := hprogress.unwatched hm
  refine ⟨?_, ?_, by rwa [hes, hevents]⟩
  · unfold run at hrun
    split at hrun
    · exact hcovered.steps hrun
    · cases hrun
      exact hcovered
    · cases hrun
      exact hcovered
  · rw [Unwatched, hprogress.outlines]
    exact hm

end Machine

end Dialogue
