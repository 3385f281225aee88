import Dialogue.Proofs.Machine.Transition

namespace Dialogue.Machine

variable {φ σ : Type} {m m' : Machine φ}

inductive Announces (m : Machine φ) : Prop
  | changes (idle : m.isWaiting = false) (events : ∀ e ∈ m.events, e.isChange = true)
  | line (state : m.state = .waiting .continuation) (es : List Event)
    (changes : ∀ e ∈ es, e.isChange = true) (l : Line) (events : m.events = es ++ [.line l])
  | choices (state : m.state = .waiting .choice) (es : List Event)
    (changes : ∀ e ∈ es, e.isChange = true) (events : m.events = es ++ [.choices m.pending])

theorem isWaiting_of_running (h : m.state = .running) : m.isWaiting = false := by
  rw [isWaiting, h]

theorem announces_of_running (hstate : m.state = .running)
    (hevents : ∀ e ∈ m.events, e.isChange = true) : m.Announces :=
  .changes (isWaiting_of_running hstate) hevents

theorem Announces.of_idle (h : m.Announces) (hidle : m.isWaiting = false) :
    ∀ e ∈ m.events, e.isChange = true := by
  cases h with
  | changes _ events => exact events
  | line state | choices state => simp [isWaiting, state] at hidle

theorem Announces.halt (h : m.Announces) (hidle : m.isWaiting = false) : m.halt.Announces :=
  .changes rfl (h.of_idle hidle)

theorem changes_assign {index : UInt32} {v : Value} (hevents : ∀ e ∈ m.events, e.isChange = true)
    (h : m.assign index v = .ok m') : ∀ e ∈ m'.events, e.isChange = true := by
  rcases assign_cases h with rfl | ⟨e, rfl⟩ | ⟨g, -, -, -, rfl⟩
  · exact hevents
  · exact hevents
  · intro e he
    rcases List.mem_append.mp he with he | he
    · exact hevents e he
    · split at he
      · rw [List.mem_singleton.mp he]
        rfl
      · cases he

theorem announces_receive {ip : Nat} {dest : Option UInt32} {v : Value}
    (hstate : m.state = .running) (hevents : ∀ e ∈ m.events, e.isChange = true)
    (h : m.receive ip dest v = .ok m') : m'.Announces := by
  refine announces_of_running ((stays_receive h).state.trans hstate) ?_
  rcases receive_cases h with rfl | ⟨index, hassign⟩
  · exact hevents
  · exact changes_assign hevents hassign

theorem Settles.announces {s : Step φ} (hstate : m.state = .running)
    (hevents : ∀ e ∈ m.events, e.isChange = true) (h : Settles m s) :
    s.machine.Announces ∧ s.machine.state = .running := by
  cases h with
  | skip | fault => exact ⟨announces_of_running hstate hevents, hstate⟩
  | assign h =>
    have hrunning := (stays_assign h).state.trans hstate
    exact ⟨announces_of_running hrunning (changes_assign hevents h), hrunning⟩

theorem Performs.announces {s : Step φ} (hstate : m.state = .running)
    (hevents : ∀ e ∈ m.events, e.isChange = true) (h : Performs m s) :
    s.machine.Announces ∧ ((∃ m₁, s = .next m₁) ∨ s.machine.state = .running) := by
  cases h with
  | settle h =>
    obtain ⟨hannounces, hrunning⟩ := h.announces hstate hevents
    exact ⟨hannounces, .inr hrunning⟩
  | report h =>
    obtain ⟨hannounces, hrunning⟩ := Settles.announces (m := m.diagnose _) hstate hevents h
    exact ⟨hannounces, .inr hrunning⟩
  | stop => exact ⟨.changes rfl hevents, .inl ⟨_, rfl⟩⟩
  | line l => exact ⟨.line rfl m.events hevents l rfl, .inl ⟨_, rfl⟩⟩
  | offer => exact ⟨.choices rfl m.events hevents rfl, .inl ⟨_, rfl⟩⟩
  | jump => exact ⟨announces_of_running hstate hevents, .inr hstate⟩
  | call => exact ⟨announces_of_running hstate hevents, .inr hstate⟩

theorem announces_step (hstate : m.state = .running) (hevents : ∀ e ∈ m.events, e.isChange = true) :
    m.step.machine.Announces ∧ ((∃ m₁, m.step = .next m₁) ∨ m.step.machine.state = .running) := by
  rcases step_cases m with h | ⟨i, next, -, h⟩
  · exact h.announces hstate hevents
  · exact Performs.announces (m := { m with ip := next }) hstate hevents h

variable {host : φ → List Value → σ → Option (HostResult × σ)} {fuel : Nat} {s s' : σ}
  {ended : RunEnd}

theorem announces_steps (hm : m.Announces) (h : steps host fuel m s = some (ended, m', s')) :
    m'.Announces ∧ (ended = .paused ∨ m'.isWaiting = false) := by
  induction fuel generalizing m s with
  | zero => cases h
  | succ fuel ih =>
    rw [steps] at h
    split at h
    · rename_i hstate
      obtain ⟨hannounces, hnext⟩ :=
        announces_step hstate (hm.of_idle (isWaiting_of_running hstate))
      cases hs : m.step with
      | next m₁ =>
        rw [hs] at h hannounces
        exact ih hannounces h
      | fault m₁ e =>
        rw [hs] at h hannounces hnext
        cases h
        have hrunning : m₁.state = .running := hnext.resolve_left (by simp)
        exact ⟨hannounces.halt (isWaiting_of_running hrunning), .inr rfl⟩
      | call m₁ k =>
        rw [hs] at h hannounces hnext
        have hrunning : m₁.state = .running := hnext.resolve_left (by simp)
        have hidle := isWaiting_of_running hrunning
        simp only at h
        split at h
        · cases h
        · cases h
          exact ⟨hannounces, .inr hidle⟩
        · split at h
          · rename_i hresult
            exact ih (announces_receive hrunning (hannounces.of_idle hidle) hresult) h
          · cases h
            exact ⟨hannounces.halt hidle, .inr rfl⟩
    · cases h
      exact ⟨hm, .inl rfl⟩

theorem announces_run (hstate : m.state = .running) (hevents : m.events = [])
    (h : m.run host fuel s = some (ended, m', s')) :
    m'.Announces ∧ (ended = .paused ∨ m'.isWaiting = false) := by
  rw [run_of_running hstate] at h
  exact announces_steps (announces_of_running hstate (by simp [hevents])) h

end Dialogue.Machine
