import Dialogue.Proofs.Machine.Moves

namespace Dialogue.Machine

variable {φ σ : Type} {allowed : EnumDomain → Prop} {m m' : Machine φ} {a : Act φ}
  {host : φ → List Value → σ → Option (HostResult × σ)} {fuel : Nat} {s s' : σ} {ended : RunEnd}

theorem isWaiting_iff : m.isWaiting = true ↔ ∃ kind, m.state = .waiting kind := by
  unfold isWaiting
  cases m.state <;> simp

def Alive (m : Machine φ) : Prop := m.state ≠ .ready ∧ m.state ≠ .faulted

theorem alive_of_running (h : m.state = .running) : m.Alive := by simp [Alive, h]

theorem Alive.settled (h : m.Alive) (hstate : m.state ≠ .running) :
    m.state = .finished ∨ m.isWaiting = true := by
  rw [isWaiting_iff]
  obtain ⟨hready, hfaulted⟩ := h
  cases hcase : m.state <;> simp_all

theorem Works.alive (h : Works m m') : m'.Alive := by
  cases h with
  | go _ state _ => rcases state with state | state | state <;> simp [Alive, state]
  | offer _ state _ _ => simp [Alive, state]

def Ends (m : Machine φ) : RunEnd → Prop
  | .paused => m.state = .finished ∨ m.isWaiting = true
  | .error _ => m.state = .faulted
  | .panic _ => True

theorem ends_steps (hm : m.Alive) (h : steps host fuel m s = some (ended, m', s')) :
    m'.Ends ended := by
  induction fuel generalizing m s with
  | zero => cases h
  | succ fuel ih =>
    rw [steps] at h
    split at h
    · rename_i hstate
      have hstep := works_step hstate
      cases hs : m.step with
      | next m₁ =>
        rw [hs] at h hstep
        exact ih hstep.alive h
      | fault m₁ e =>
        rw [hs] at h
        cases h
        exact rfl
      | call m₁ k =>
        rw [hs] at h
        simp only at h
        split at h
        · cases h
        · cases h
          exact trivial
        · split at h
          · rename_i hresult
            exact ih (works_answer hstate hs hresult).alive h
          · cases h
            exact rfl
    · rename_i hstate
      cases h
      exact hm.settled hstate

theorem Shift.ready (h : Shift m m') (hready : m'.state = .ready) : m.state = .ready := by
  cases h with
  | stay stays => rwa [← stays.state]
  | work _ works => exact absurd hready works.alive.1
  | enter _ _ _ _ state _ | resume _ _ state _ | choose _ _ _ _ state _ | halt _ state _ =>
    rw [state] at hready
    cases hready

theorem Shift.faulted (h : Shift m m') (hfaulted : m.state = .faulted) :
    m'.state = .faulted := by
  cases h with
  | stay stays => rwa [stays.state]
  | halt _ state _ => exact state
  | enter idle => simp [hfaulted] at idle
  | work running | resume running | choose running =>
    rw [hfaulted] at running
    cases running

theorem course_ready (h : Course allowed m m') (hready : m'.state = .ready) :
    m.state = .ready := by
  induction h with
  | refl => exact hready
  | tail _ hmove ih => exact ih (hmove.shift.ready hready)

theorem course_faulted (h : Course allowed m m') (hfaulted : m.state = .faulted) :
    m'.state = .faulted := by
  induction h with
  | refl => exact hfaulted
  | tail _ hmove ih => exact hmove.shift.faulted ih

def Act.steers : Act φ → Bool
  | start _ | run | halt | selectContinue | selectChoice _ => true
  | _ => false

/-- What an act may do that ends, without a panic or with one. -/
structure Act.Lawful (a : Act φ) (m : Machine φ) (s : σ) (ended : RunEnd) (m' : Machine φ)
    (s' : σ) : Prop where
  start : ∀ bough, a = .start bough → ended = .paused →
    (m.state = .ready ∨ m.state = .finished) ∧ m'.state = .running ∧
      ∃ b, m.container.bough? bough = some b ∧ m'.ip = b.entry.toNat
  run : a = .run → ended = .paused →
    m.state = .running ∧ (m'.state = .finished ∨ m'.isWaiting = true) ∨ m.isWaiting = true
  fault : a = .run → m.state = .running → ∀ e, ended = .error e → m'.state = .faulted
  /-- A run of a machine that waits does nothing at all. -/
  wait : a = .run → m.isWaiting = true → ended = .paused ∧ m' = m ∧ s' = s
  resume : a = .selectContinue → ended = .paused →
    m.state = .waiting .continuation ∧ m' = { m with state := .running }
  choose : ∀ index, a = .selectChoice index → ended = .paused →
    m.state = .waiting .choice ∧ m'.state = .running
  keep : a.steers = false → m'.state = m.state ∧ m'.ip = m.ip
  /-- All but a run that has begun leave everything as it was when they fail. -/
  error : ∀ e, ended = .error e → a = .run ∧ m.state = .running ∨ m' = m ∧ s' = s
  ready : m'.state = .ready → m.state = .ready
  faulted : m.state = .faulted → m'.state = .faulted

theorem stays_perform (hsteers : a.steers = false)
    (h : a.perform host fuel m s = some (ended, m', s')) : Stays m m' := by
  cases a with
  | start | run | halt | selectContinue | selectChoice => cases hsteers
  | setExtern name v =>
    exact of_returns .refl (fun _ h => stays_of_standing (standing_setExtern h)) h
  | setFunction name arity body =>
    exact of_returns .refl (fun _ h => stays_of_standing (standing_setFunction h)) h
  | subscribe name =>
    exact of_returns .refl (fun _ h => stays_of_standing (standing_subscribe h)) h
  | unsubscribe name =>
    cases h
    exact stays_unsubscribe m name
  | value name =>
    refine of_returns .refl (fun _ h => ?_) h
    obtain ⟨_, -, rfl⟩ := Except.map_eq_ok_iff.mp h
    exact .refl
  | load saved =>
    cases h
    exact stays_of_standing (standing_loadEntries m saved.entries)
  | declareEnum | save | takeEvents | takeDiagnostics =>
    cases h
    exact ⟨rfl, rfl, rfl⟩

theorem run_of_isWaiting (h : m.isWaiting = true) : m.run host fuel s = some (.paused, m, s) := by
  obtain ⟨kind, hstate⟩ := isWaiting_iff.mp h
  unfold run
  rw [hstate]

theorem run_of_idle (hrunning : m.state ≠ .running) (hwaiting : m.isWaiting = false) :
    m.run host fuel s = some (.error (.invalidState "run" m.state), m, s) := by
  unfold run
  cases hstate : m.state with
  | running => exact absurd hstate hrunning
  | waiting kind => simp [isWaiting, hstate] at hwaiting
  | _ => rfl

theorem run_of_running (h : m.state = .running) :
    m.run host fuel s = steps host fuel m s := by
  rw [run, h]

theorem eq_of_perform_error {e : MachineError}
    (h : a.perform host fuel m s = some (.error e, m', s')) :
    a = .run ∧ m.state = .running ∨ m' = m ∧ s' = s := by
  have hreturns {r : Except MachineError (Machine φ)}
      (h : m.returns s r = some (.error e, m', s')) : m' = m ∧ s' = s := by
    obtain ⟨⟨-, ⟨⟩⟩ | ⟨_, -, -, hm⟩, hs⟩ := returns_eq_some h
    exact ⟨hm, hs⟩
  cases a with
  | run =>
    by_cases hrunning : m.state = .running
    · -- A run that has begun may fail anywhere.
      exact .inl ⟨rfl, hrunning⟩
    · right
      change m.run host fuel s = _ at h
      cases hwaiting : m.isWaiting with
      | true =>
        rw [run_of_isWaiting hwaiting] at h
        cases h
      | false =>
        rw [run_of_idle hrunning hwaiting] at h
        cases h
        exact ⟨rfl, rfl⟩
  | start | selectContinue | selectChoice | setExtern | setFunction | subscribe | value =>
    exact .inr (hreturns h)
  | halt | unsubscribe | declareEnum | save | load | takeEvents | takeDiagnostics => cases h

theorem perform_start {bough : String}
    (h : (Act.start bough).perform host fuel m s = some (.paused, m', s')) :
    (m.state = .ready ∨ m.state = .finished) ∧ m'.state = .running ∧
      ∃ b, m.container.bough? bough = some b ∧ m'.ip = b.entry.toNat := by
  obtain ⟨⟨hstart, -⟩ | ⟨_, -, ⟨⟩, -⟩, -⟩ := returns_eq_some h
  obtain ⟨b, hb, rfl⟩ := start_eq_ok hstart
  exact ⟨state_of_start hstart, rfl, b, hb, rfl⟩

theorem perform_run (h : Act.run.perform host fuel m s = some (.paused, m', s')) :
    m.state = .running ∧ (m'.state = .finished ∨ m'.isWaiting = true) ∨ m.isWaiting = true := by
  change m.run host fuel s = _ at h
  cases hwaiting : m.isWaiting with
  | true => exact .inr rfl
  | false =>
    by_cases hrunning : m.state = .running
    · rw [run_of_running hrunning] at h
      exact .inl ⟨hrunning, ends_steps (alive_of_running hrunning) h⟩
    · rw [run_of_idle hrunning hwaiting] at h
      cases h

theorem lawful_perform (h : a.perform host fuel m s = some (ended, m', s')) :
    a.Lawful m s ended m' s' where
  start := by
    rintro bough rfl rfl
    exact perform_start h
  run := by
    rintro rfl rfl
    exact perform_run h
  fault := by
    rintro rfl hrunning e rfl
    change m.run host fuel s = _ at h
    rw [run_of_running hrunning] at h
    exact ends_steps (alive_of_running hrunning) h
  wait := by
    rintro rfl hwaiting
    change m.run host fuel s = _ at h
    rw [run_of_isWaiting hwaiting] at h
    cases h
    exact ⟨rfl, rfl, rfl⟩
  resume := by
    rintro rfl rfl
    obtain ⟨⟨hselect, -⟩ | ⟨_, -, ⟨⟩, -⟩, -⟩ := returns_eq_some h
    exact selectContinue_eq_ok hselect
  choose := by
    rintro index rfl rfl
    obtain ⟨⟨hselect, -⟩ | ⟨_, -, ⟨⟩, -⟩, -⟩ := returns_eq_some h
    obtain ⟨hstate, o, -, rfl⟩ := selectChoice_eq_ok hselect
    exact ⟨hstate, rfl⟩
  keep := by
    intro hsteers
    have hstays := stays_perform hsteers h
    exact ⟨hstays.state, hstays.ip⟩
  error := by
    rintro e rfl
    exact eq_of_perform_error h
  ready := course_ready (course_perform (fun _ _ => trivial) h)
  faulted := course_faulted (course_perform (fun _ _ => trivial) h)

theorem isOk_start_iff (m : Machine φ) (bough : String) : (∃ m', m.start bough = .ok m') ↔
    (m.state = .ready ∨ m.state = .finished) ∧ ∃ b, m.container.bough? bough = some b := by
  constructor
  · rintro ⟨m', h⟩
    obtain ⟨b, hb, -⟩ := start_eq_ok h
    exact ⟨state_of_start h, b, hb⟩
  · rintro ⟨hstate | hstate, b, hb⟩ <;> exact ⟨_, by simp only [start, hstate, hb]; rfl⟩

theorem isOk_selectContinue_iff (m : Machine φ) :
    (∃ m', m.selectContinue = .ok m') ↔ m.state = .waiting .continuation := by
  constructor
  · rintro ⟨m', h⟩
    exact (selectContinue_eq_ok h).1
  · intro hstate
    exact ⟨_, by simp only [selectContinue, hstate]; rfl⟩

theorem exists_perform (hidle : a = .run → m.state ≠ .running) :
    ∃ r, a.perform host fuel m s = some r := by
  have hreturns (r : Except MachineError (Machine φ)) : ∃ r', m.returns s r = some r' := by
    cases r <;> exact ⟨_, rfl⟩
  cases a with
  | run =>
    cases hwaiting : m.isWaiting with
    | true => exact ⟨_, run_of_isWaiting hwaiting⟩
    | false => exact ⟨_, run_of_idle (hidle rfl) hwaiting⟩
  | start | selectContinue | selectChoice | setExtern | setFunction | subscribe | value =>
    exact hreturns _
  | halt | unsubscribe | declareEnum | save | load | takeEvents | takeDiagnostics => exact ⟨_, rfl⟩

/-- The rules for everything that can be done with a machine. -/
structure Governed (m : Machine φ) : Prop where
  act : ∀ {σ : Type} {a : Act φ} {host : φ → List Value → σ → Option (HostResult × σ)} {fuel : Nat}
    {s s' : σ} {ended : RunEnd} {m' : Machine φ},
    a.perform host fuel m s = some (ended, m', s') → a.Lawful m s ended m' s'
  /-- All acts come to an end, but a run need not that has begun. -/
  ends : ∀ {σ : Type} {a : Act φ} {host : φ → List Value → σ → Option (HostResult × σ)}
    {fuel : Nat} {s : σ}, (a = .run → m.state ≠ .running) →
    ∃ r, a.perform host fuel m s = some r
  start : ∀ bough, (∃ m', m.start bough = .ok m') ↔
    (m.state = .ready ∨ m.state = .finished) ∧ ∃ b, m.container.bough? bough = some b
  resume : (∃ m', m.selectContinue = .ok m') ↔ m.state = .waiting .continuation
  /-- However long the history. -/
  ready : ∀ {m'}, Course (fun _ => True) m m' → m'.state = .ready → m.state = .ready
  faulted : ∀ {m'}, Course (fun _ => True) m m' → m.state = .faulted → m'.state = .faulted

/-- Starts, runs and selections lead along the states and nothing else does, what has been left is
not entered again and what is final is not left, and what fails changes nothing. -/
theorem governed (m : Machine φ) : m.Governed where
  act := lawful_perform
  ends := exists_perform
  start := isOk_start_iff m
  resume := isOk_selectContinue_iff m
  ready := course_ready
  faulted := course_faulted

end Dialogue.Machine
