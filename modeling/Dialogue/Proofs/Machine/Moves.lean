import Dialogue.Proofs.Machine.Boundary
import Dialogue.Proofs.Machine.Sharing

/-!
Machines move by move. A move is an operation, an instruction of a run or an entry of a saved state
that is loaded; whole runs and loads are series of moves. One case analysis tells how a move changes
the place of a machine in its script.
-/

namespace Dialogue.Machine

variable {φ σ : Type} {allowed : EnumDomain → Prop} {c : Container}
  {m m' m'' : Machine φ}

/-- Domains are declared as far as they are allowed. A host function that panics leaves the machine
where the call is made. -/
inductive Moves (allowed : EnumDomain → Prop) : Machine φ → Machine φ → Prop
  | start {m m' : Machine φ} {bough : String} (h : m.start bough = .ok m') : Moves allowed m m'
  | step {m : Machine φ} (h : m.state = .running) : Moves allowed m m.step.machine
  | answer {m m₁ m' : Machine φ} {k : HostCall φ} {v : Value} (h : m.state = .running)
    (call : m.step = .call m₁ k) (result : m₁.receive k.ip k.dest v = .ok m') : Moves allowed m m'
  | halt {m : Machine φ} : Moves allowed m m.halt
  | selectContinue {m m' : Machine φ} (h : m.selectContinue = .ok m') : Moves allowed m m'
  | selectChoice {m m' : Machine φ} {index : Nat} (h : m.selectChoice index = .ok m') :
    Moves allowed m m'
  | setExtern {m m' : Machine φ} {name : String} {v : Value} (h : m.setExtern name v = .ok m') :
    Moves allowed m m'
  | setFunction {m m' : Machine φ} {name : String} {arity : Nat} {body : φ}
    (h : m.setFunction name arity body = .ok m') : Moves allowed m m'
  | subscribe {m m' : Machine φ} {name : String} (h : m.subscribe name = .ok m') :
    Moves allowed m m'
  | unsubscribe {m : Machine φ} {name : String} : Moves allowed m (m.unsubscribe name)
  | declareEnum {m : Machine φ} {d : EnumDomain} (h : allowed d) : Moves allowed m (m.declareEnum d)
  | save {m : Machine φ} : Moves allowed m m.save.2
  | loadEntry {m : Machine φ} {name : String} {j : Json} : Moves allowed m (m.loadEntry name j).1
  | takeEvents {m : Machine φ} : Moves allowed m m.takeEvents.2
  | takeDiagnostics {m : Machine φ} : Moves allowed m m.takeDiagnostics.2

abbrev Course (allowed : EnumDomain → Prop) : Machine φ → Machine φ → Prop :=
  Relation.ReflTransGen (Moves allowed)

theorem course_steps {host : φ → List Value → σ → Option (HostResult × σ)} {fuel : Nat} {s s' : σ}
    {ended : RunEnd} (h : steps host fuel m s = some (ended, m', s')) : Course allowed m m' := by
  induction fuel generalizing m s with
  | zero => cases h
  | succ fuel ih =>
    rw [steps] at h
    split at h
    · rename_i hstate
      have hstep : Moves allowed m m.step.machine := .step hstate
      cases hs : m.step with
      | next m₁ =>
        rw [hs] at h hstep
        exact .head hstep (ih h)
      | fault m₁ e =>
        rw [hs] at h hstep
        cases h
        exact .head hstep (.single .halt)
      | call m₁ k =>
        rw [hs] at h hstep
        simp only at h
        split at h
        · cases h
        · cases h
          exact .single hstep
        · split at h
          · rename_i hresult
            exact .head (.answer hstate hs hresult) (ih h)
          · cases h
            exact .head hstep (.single .halt)
    · cases h
      exact .refl

theorem course_run {host : φ → List Value → σ → Option (HostResult × σ)} {fuel : Nat} {s s' : σ}
    {ended : RunEnd} (h : m.run host fuel s = some (ended, m', s')) : Course allowed m m' := by
  unfold run at h
  split at h
  · exact course_steps h
  · cases h
    exact .refl
  · cases h
    exact .refl

theorem course_loadEntries (m : Machine φ) (entries : List (String × Json)) :
    Course allowed m (m.loadEntries entries).1 := by
  induction entries generalizing m with
  | nil => exact .refl
  | cons entry entries ih => exact .head .loadEntry (ih (m.loadEntry entry.1 entry.2).1)

theorem course_of_reachable (h : Reachable c m) : Course (fun _ => True) (create c) m := by
  induction h with
  | create => exact .refl
  | start _ h ih => exact ih.tail (.start h)
  | run _ h ih => exact ih.trans (course_run h)
  | next _ hstate h ih | fault _ hstate h ih | call _ hstate h ih =>
    have hstep : Moves (fun _ => True) _ _ := .step hstate
    rw [h] at hstep
    exact ih.tail hstep
  | receive _ hstate h h' ih => exact ih.tail (.answer hstate h h')
  | halt _ ih => exact ih.tail .halt
  | selectContinue _ h ih => exact ih.tail (.selectContinue h)
  | selectChoice _ h ih => exact ih.tail (.selectChoice h)
  | setExtern _ h ih => exact ih.tail (.setExtern h)
  | setFunction _ h ih => exact ih.tail (.setFunction h)
  | subscribe _ h ih => exact ih.tail (.subscribe h)
  | unsubscribe _ ih => exact ih.tail .unsubscribe
  | declareEnum _ ih => exact ih.tail (.declareEnum trivial)
  | save _ ih => exact ih.tail .save
  | load _ ih => exact ih.trans (course_loadEntries _ _)
  | takeEvents _ ih => exact ih.tail .takeEvents
  | takeDiagnostics _ ih => exact ih.tail .takeDiagnostics

inductive Act (φ : Type) where
  | start (bough : String)
  | run
  | halt
  | selectContinue
  | selectChoice (index : Nat)
  | setExtern (name : String) (v : Value)
  | setFunction (name : String) (arity : Nat) (body : φ)
  | subscribe (name : String)
  | unsubscribe (name : String)
  | value (name : String)
  | declareEnum (d : EnumDomain)
  | save
  | load (saved : Snapshot)
  | takeEvents
  | takeDiagnostics

def returns (m : Machine φ) (s : σ) :
    Except MachineError (Machine φ) → Option (RunEnd × Machine φ × σ)
  | .ok m' => some (.paused, m', s)
  | .error e => some (.error e, m, s)

def Act.perform (host : φ → List Value → σ → Option (HostResult × σ)) (fuel : Nat) (m : Machine φ)
    (s : σ) : Act φ → Option (RunEnd × Machine φ × σ)
  | start bough => m.returns s (m.start bough)
  | run => m.run host fuel s
  | halt => some (.paused, m.halt, s)
  | selectContinue => m.returns s m.selectContinue
  | selectChoice index => m.returns s (m.selectChoice index)
  | setExtern name v => m.returns s (m.setExtern name v)
  | setFunction name arity body => m.returns s (m.setFunction name arity body)
  | subscribe name => m.returns s (m.subscribe name)
  | unsubscribe name => some (.paused, m.unsubscribe name, s)
  | value name => m.returns s ((m.value name).map fun _ => m)
  | declareEnum d => some (.paused, m.declareEnum d, s)
  | save => some (.paused, m.save.2, s)
  | load saved => some (.paused, (m.load saved).1, s)
  | takeEvents => some (.paused, m.takeEvents.2, s)
  | takeDiagnostics => some (.paused, m.takeDiagnostics.2, s)

theorem returns_eq_some {s s' : σ} {r : Except MachineError (Machine φ)} {ended : RunEnd}
    (h : m.returns s r = some (ended, m', s')) :
    (r = .ok m' ∧ ended = .paused ∨ ∃ e, r = .error e ∧ ended = .error e ∧ m' = m) ∧ s' = s := by
  cases r with
  | ok m₁ =>
    cases h
    exact ⟨.inl ⟨rfl, rfl⟩, rfl⟩
  | error e =>
    cases h
    exact ⟨.inr ⟨e, rfl, rfl, rfl⟩, rfl⟩

theorem of_returns {P : Machine φ → Prop} {s s' : σ} {r : Except MachineError (Machine φ)}
    {ended : RunEnd} (hm : P m) (hok : ∀ m', r = .ok m' → P m')
    (h : m.returns s r = some (ended, m', s')) : P m' := by
  rcases (returns_eq_some h).1 with ⟨hr, -⟩ | ⟨_, -, -, rfl⟩
  · exact hok m' hr
  · exact hm

theorem course_perform {a : Act φ} {host : φ → List Value → σ → Option (HostResult × σ)}
    {fuel : Nat} {s s' : σ} {ended : RunEnd} (hallowed : ∀ d, a = .declareEnum d → allowed d)
    (h : a.perform host fuel m s = some (ended, m', s')) : Course allowed m m' := by
  cases a with
  | start bough => exact of_returns .refl (fun _ h => .single (.start h)) h
  | run => exact course_run h
  | halt =>
    cases h
    exact .single .halt
  | selectContinue => exact of_returns .refl (fun _ h => .single (.selectContinue h)) h
  | selectChoice index => exact of_returns .refl (fun _ h => .single (.selectChoice h)) h
  | setExtern name v => exact of_returns .refl (fun _ h => .single (.setExtern h)) h
  | setFunction name arity body => exact of_returns .refl (fun _ h => .single (.setFunction h)) h
  | subscribe name => exact of_returns .refl (fun _ h => .single (.subscribe h)) h
  | unsubscribe name =>
    cases h
    exact .single .unsubscribe
  | value name =>
    refine of_returns .refl (fun _ h => ?_) h
    obtain ⟨_, -, rfl⟩ := Except.map_eq_ok_iff.mp h
    exact .refl
  | declareEnum d =>
    cases h
    exact .single (.declareEnum (hallowed d rfl))
  | save =>
    cases h
    exact .single .save
  | load saved =>
    cases h
    exact course_loadEntries m saved.entries
  | takeEvents =>
    cases h
    exact .single .takeEvents
  | takeDiagnostics =>
    cases h
    exact .single .takeDiagnostics

structure SameFrame (m m' : Machine φ) : Prop where
  container : m'.container = m.container
  symbols : m'.globals.map (·.symbol) = m.globals.map (·.symbol)

theorem Adjusts.sameFrame (h : Adjusts m m') : SameFrame m m' := ⟨h.container, h.symbols⟩

theorem Progress.sameFrame (h : Progress m m') : SameFrame m m' := ⟨h.container, h.symbols⟩

theorem SameFrame.isParsed (h : SameFrame m m') (hm : m.IsParsed) : m'.IsParsed :=
  hm.congr h.container h.symbols

structure SameData (m m' : Machine φ) : Prop where
  container : m'.container = m.container
  globals : m'.globals = m.globals
  domains : m'.domains = m.domains

theorem SameData.sameFrame (h : SameData m m') : SameFrame m m' :=
  ⟨h.container, by rw [h.globals]⟩

theorem sameData_start {bough : String} (h : m.start bough = .ok m') : SameData m m' := by
  obtain ⟨b, -, rfl⟩ := start_eq_ok h
  exact ⟨rfl, rfl, rfl⟩

theorem sameData_selectContinue (h : m.selectContinue = .ok m') : SameData m m' := by
  obtain ⟨-, rfl⟩ := selectContinue_eq_ok h
  exact ⟨rfl, rfl, rfl⟩

theorem sameData_selectChoice {index : Nat} (h : m.selectChoice index = .ok m') :
    SameData m m' := by
  obtain ⟨-, o, -, rfl⟩ := selectChoice_eq_ok h
  exact ⟨rfl, rfl, rfl⟩

theorem progress_answer {k : HostCall φ} {v : Value} (hcall : m.step = .call m' k)
    (hresult : m'.receive k.ip k.dest v = .ok m'') : Progress m m'' := by
  have hstep := progress_step m
  rw [hcall] at hstep
  exact hstep.trans (progress_receive hresult)

theorem Moves.sameFrame (h : Moves allowed m m') : SameFrame m m' := by
  cases h with
  | start h => exact (sameData_start h).sameFrame
  | step => exact (progress_step m).sameFrame
  | answer _ hcall hresult => exact (progress_answer hcall hresult).sameFrame
  | halt => exact ⟨rfl, rfl⟩
  | selectContinue h => exact (sameData_selectContinue h).sameFrame
  | selectChoice h => exact (sameData_selectChoice h).sameFrame
  | setExtern h => exact (adjusts_setExtern h).sameFrame
  | setFunction h => exact (adjusts_setFunction h).sameFrame
  | subscribe h => exact (adjusts_subscribe h).sameFrame
  | unsubscribe => exact (adjusts_unsubscribe m _).sameFrame
  | declareEnum => exact ⟨rfl, rfl⟩
  | save => exact ⟨rfl, rfl⟩
  | loadEntry => exact (adjusts_loadEntry m _ _).sameFrame
  | takeEvents => exact ⟨rfl, rfl⟩
  | takeDiagnostics => exact ⟨rfl, rfl⟩

theorem Course.sameFrame (h : Course allowed m m') : SameFrame m m' := by
  induction h with
  | refl => exact ⟨rfl, rfl⟩
  | tail _ hmove ih =>
    exact ⟨hmove.sameFrame.container.trans ih.container, hmove.sameFrame.symbols.trans ih.symbols⟩

theorem isParsed_create {bytes : Bytes} (hparse : Container.parse bytes = .ok c) :
    (create c : Machine φ).IsParsed := by
  refine ⟨⟨bytes, hparse⟩, ?_⟩
  rw [create, List.map_map]
  exact List.map_id _

theorem isParsed_of_reachable {bytes : Bytes} (hparse : Container.parse bytes = .ok c)
    (h : Reachable c m) : m.container = c ∧ m.IsParsed := by
  have hframe := (course_of_reachable h).sameFrame
  exact ⟨hframe.container, hframe.isParsed (isParsed_create hparse)⟩

/-- The machine is in the same state at the same place, with the same choices on offer. -/
structure Stays (m m' : Machine φ) : Prop where
  state : m'.state = m.state
  ip : m'.ip = m.ip
  pending : m'.pending = m.pending

theorem Stays.refl : Stays m m := ⟨rfl, rfl, rfl⟩

theorem Stays.trans (h : Stays m m') (h' : Stays m' m'') : Stays m m'' :=
  ⟨h'.state.trans h.state, h'.ip.trans h.ip, h'.pending.trans h.pending⟩

theorem stays_of_standing (h : m'.standing = m.standing) : Stays m m' :=
  ⟨congrArg Standing.state h, congrArg Standing.ip h, congrArg Standing.pending h⟩

theorem stays_unsubscribe (m : Machine φ) (name : String) : Stays m (m.unsubscribe name) := by
  rcases unsubscribe_cases m name with h | ⟨g, -, h⟩ <;> rw [h] <;> exact ⟨rfl, rfl, rfl⟩

theorem stays_assign {index : UInt32} {v : Value} (h : m.assign index v = .ok m') :
    Stays m m' := by
  rcases assign_cases h with rfl | ⟨e, rfl⟩ | ⟨g, -, -, -, rfl⟩ <;> exact ⟨rfl, rfl, rfl⟩

theorem stays_receive {ip : Nat} {dest : Option UInt32} {v : Value}
    (h : m.receive ip dest v = .ok m') : Stays m m' := by
  rcases receive_cases h with rfl | ⟨index, hassign⟩
  · exact .refl
  · exact stays_assign hassign

theorem Settles.stays {s : Step φ} (h : Settles m s) : Stays m s.machine := by
  cases h with
  | skip | fault => exact .refl
  | assign h => exact stays_assign h

/-- What an instruction does to a running machine: it goes on inside the code, or it ends or waits
with nothing on offer, or it offers choices that lead into the code. -/
inductive Works (m m' : Machine φ) : Prop
  | go (inside : m.ip ≤ m.container.code.size → m'.ip ≤ m.container.code.size)
    (state : m'.state = .running ∨ m'.state = .finished ∨ m'.state = .waiting .continuation)
    (pending : m'.pending = m.pending)
  | offer (inside : m.ip ≤ m.container.code.size → m'.ip ≤ m.container.code.size)
    (state : m'.state = .waiting .choice) (some : m'.pending ≠ [])
    (targets : ∀ o ∈ m'.pending, o.target.toNat ≤ m.container.code.size)

theorem works_of_stays (hstate : m.state = .running) (h : Stays m m') : Works m m' :=
  .go (fun hip => h.ip ▸ hip) (.inl (h.state.trans hstate)) h.pending

theorem Performs.works {s : Step φ} (hstate : m.state = .running) (h : Performs m s) :
    Works m s.machine := by
  cases h with
  | settle h => exact works_of_stays hstate h.stays
  | report h =>
    have hdiagnose (e : MachineError) : Stays m (m.diagnose e) := ⟨rfl, rfl, rfl⟩
    exact works_of_stays hstate ((hdiagnose _).trans h.stays)
  | stop => exact .go id (.inr (.inl rfl)) rfl
  | line l => exact .go id (.inr (.inr rfl)) rfl
  | @offer options some inside =>
    refine .offer id rfl (by simpa [Step.machine, Machine.offer] using some) fun o ho => ?_
    obtain ⟨option, hoption, rfl⟩ := List.mem_map.mp ho
    exact of_decide_eq_true (inside option hoption)
  | jump inside => exact .go (fun _ => of_decide_eq_true inside) (.inl hstate) rfl
  | call => exact works_of_stays hstate .refl

theorem Works.stays (h : Works m m') (h' : Stays m' m'') : Works m m'' := by
  cases h with
  | go inside state pending =>
    rw [← h'.ip] at inside
    rw [← h'.state] at state
    exact .go inside state (h'.pending.trans pending)
  | offer inside state some targets =>
    rw [← h'.ip] at inside
    rw [← h'.pending] at some targets
    exact .offer inside (h'.state.trans state) some targets

theorem works_step (hstate : m.state = .running) : Works m m.step.machine := by
  rcases step_cases m with h | ⟨i, next, hi, h⟩
  · exact h.works hstate
  · have hnext : next ≤ m.container.code.size := Instruction.next_le_of_decode hi
    -- The machine that performs the instruction stands behind it, which is inside the code.
    cases Performs.works (m := { m with ip := next }) hstate h with
    | go inside state pending => exact .go (fun _ => inside hnext) state pending
    | offer inside state some targets => exact .offer (fun _ => inside hnext) state some targets

theorem works_answer {k : HostCall φ} {v : Value} (hstate : m.state = .running)
    (hcall : m.step = .call m' k) (hresult : m'.receive k.ip k.dest v = .ok m'') :
    Works m m'' := by
  have hstep := works_step hstate
  rw [hcall] at hstep
  exact hstep.stays (stays_receive hresult)

/-- How a move changes the state of a machine, its place and what it offers. -/
inductive Shift (m m' : Machine φ) : Prop
  | stay (stays : Stays m m')
  | enter (idle : m.state = .ready ∨ m.state = .finished) (b : Bough)
    (mem : b ∈ m.container.boughs) (ip : m'.ip = b.entry.toNat) (state : m'.state = .running)
    (pending : m'.pending = [])
  | work (running : m.state = .running) (works : Works m m')
  | resume (waiting : m.state = .waiting .continuation) (ip : m'.ip = m.ip)
    (state : m'.state = .running) (pending : m'.pending = m.pending)
  | choose (waiting : m.state = .waiting .choice) (o : Choice) (mem : o ∈ m.pending)
    (ip : m'.ip = o.target.toNat) (state : m'.state = .running) (pending : m'.pending = [])
  | halt (ip : m'.ip = m.ip) (state : m'.state = .faulted) (pending : m'.pending = [])

theorem state_of_start {bough : String} (h : m.start bough = .ok m') :
    m.state = .ready ∨ m.state = .finished := by
  unfold start at h
  split at h
  · exact .inl ‹_›
  · exact .inr ‹_›
  · cases h

theorem shift_start {bough : String} (h : m.start bough = .ok m') : Shift m m' := by
  obtain ⟨b, hb, rfl⟩ := start_eq_ok h
  exact .enter (state_of_start h) b (List.mem_of_find?_eq_some hb) rfl rfl rfl

theorem shift_selectContinue (h : m.selectContinue = .ok m') : Shift m m' := by
  obtain ⟨hstate, rfl⟩ := selectContinue_eq_ok h
  exact .resume hstate rfl rfl rfl

theorem shift_selectChoice {index : Nat} (h : m.selectChoice index = .ok m') : Shift m m' := by
  obtain ⟨hstate, o, ho, rfl⟩ := selectChoice_eq_ok h
  exact .choose hstate o (List.mem_of_getElem? ho) rfl rfl rfl

theorem Moves.shift (h : Moves allowed m m') : Shift m m' := by
  cases h with
  | start h => exact shift_start h
  | step h => exact .work h (works_step h)
  | answer h hcall hresult => exact .work h (works_answer h hcall hresult)
  | halt => exact .halt rfl rfl rfl
  | selectContinue h => exact shift_selectContinue h
  | selectChoice h => exact shift_selectChoice h
  | setExtern h => exact .stay (stays_of_standing (standing_setExtern h))
  | setFunction h => exact .stay (stays_of_standing (standing_setFunction h))
  | subscribe h => exact .stay (stays_of_standing (standing_subscribe h))
  | unsubscribe => exact .stay (stays_unsubscribe m _)
  | @loadEntry name j => exact .stay (stays_of_standing (standing_loadEntries m [(name, j)]))
  | declareEnum | save | takeEvents | takeDiagnostics => exact .stay ⟨rfl, rfl, rfl⟩

theorem Performs.ip_lt {s : Step φ} (h : Performs m s) (hm : m.ip < UInt32.size) :
    s.machine.ip < UInt32.size := by
  cases h with
  | settle h => exact h.stays.ip ▸ hm
  | report h => exact h.stays.ip ▸ hm
  | @jump target inside => exact target.toNat_lt
  | stop | line | offer | call => exact hm

theorem step_ip_lt (hm : m.ip < UInt32.size) : m.step.machine.ip < UInt32.size := by
  rcases step_cases m with h | ⟨i, next, hi, h⟩
  · exact h.ip_lt hm
  · exact h.ip_lt (Instruction.next_lt_of_decode hi)

theorem Moves.ip_lt (h : Moves allowed m m') (hm : m.ip < UInt32.size) : m'.ip < UInt32.size := by
  cases h with
  | step => exact step_ip_lt hm
  | answer _ hcall hresult =>
    have hstep := step_ip_lt hm
    rw [hcall] at hstep
    exact (stays_receive hresult).ip ▸ hstep
  | start h =>
    obtain ⟨b, -, rfl⟩ := start_eq_ok h
    exact b.entry.toNat_lt
  | selectContinue h =>
    obtain ⟨-, rfl⟩ := selectContinue_eq_ok h
    exact hm
  | selectChoice h =>
    obtain ⟨-, o, -, rfl⟩ := selectChoice_eq_ok h
    exact o.target.toNat_lt
  | setExtern h => exact (stays_of_standing (standing_setExtern h)).ip ▸ hm
  | setFunction h => exact (stays_of_standing (standing_setFunction h)).ip ▸ hm
  | subscribe h => exact (stays_of_standing (standing_subscribe h)).ip ▸ hm
  | unsubscribe => exact (stays_unsubscribe m _).ip ▸ hm
  | @loadEntry name j => exact (stays_of_standing (standing_loadEntries m [(name, j)])).ip ▸ hm
  | halt | declareEnum | save | takeEvents | takeDiagnostics => exact hm

theorem ip_lt_of_reachable (h : Reachable c m) : m.ip < UInt32.size := by
  have hcourse := course_of_reachable h
  clear h
  induction hcourse with
  | refl => exact Nat.zero_lt_of_lt (by decide : 1 < UInt32.size)
  | tail _ hmove ih => exact hmove.ip_lt ih

end Dialogue.Machine
