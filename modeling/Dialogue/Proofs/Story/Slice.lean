import Dialogue.Proofs.Host.Rest
import Dialogue.Proofs.Story.Telling

namespace Dialogue.Telling

open World

variable {δ β : Type} {w w' : World (Story δ)} {fuel i : Nat} {h : Handle} {c : Conversation δ}

theorem machineState_bind {f : MachineState → Telling δ β} {r : Except StoryError β}
    (hw : w.AtRest) (hr : (machineState fuel h >>= f).Yields w r w') :
    (∃ m, w.machine? h = some m ∧ (f m.state).Yields w r w') ∨
      w.machine? h = none ∧ (∃ a, exec fuel (.state h) w = some (a, w')) ∧
        r = .error (.destroyed h) := by
  unfold machineState at hr
  rw [bind_assoc] at hr
  obtain ⟨a, w₁, hexec, hr⟩ := yields_perform_bind.mp hr
  split at hr
  · obtain ⟨rfl, m, hm, rfl⟩ := hw.state_eq hexec
    exact .inl ⟨m, hm, hr⟩
  · rename_i hstate
    obtain ⟨rfl, rfl⟩ := yields_throw_bind.mp hr
    refine .inr ⟨?_, ⟨a, hexec⟩, rfl⟩
    cases hm : w.machine? h with
    | none => rfl
    | some m =>
      rcases fuel with _ | fuel
      · cases hexec
      · rw [hw.exec_state hm, Option.some.injEq, Prod.mk.injEq] at hexec
        exact absurd hexec.1.symm (hstate m.state)

inductive Ran (fuel i : Nat) (h : Handle) (a : Reply) (w : World (Story δ))
    (r : Except StoryError Slice) (w' : World (Story δ)) : Prop
  | waits {m : HostMachine (Story δ)} {kind : WaitKind} (hyes : a.isYes = true)
    (hm : w.machine? h = some m) (hstate : m.state = .waiting kind)
    (hr : (pending i).Yields w r w')
  | ends {m : HostMachine (Story δ)} (hyes : a.isYes = true) (hm : w.machine? h = some m)
    (hstate : m.state = .finished) (hr : (finishSlice fuel i).Yields w r w')
  | goesOn {m : HostMachine (Story δ)} (hyes : a.isYes = true) (hm : w.machine? h = some m)
    (hstate : m.state = .ready ∨ m.state = .running) (hr : r = .ok .running) (hw : w' = w)
  | fails {m : HostMachine (Story δ)} {e : StoryError} (hm : w.machine? h = some m)
    (hcause : m.state = .faulted ∨ a.isYes = false) (hr : r = .error e) (hw : w' = w)
  | lost {b : Reply} (hm : w.machine? h = none) (hexec : exec fuel (.state h) w = some (b, w'))
    (hr : r = .error (.destroyed h))

inductive Ticked (fuel i : Nat) (h : Handle) (w : World (Story δ)) (r : Except StoryError Slice)
    (w' : World (Story δ)) : Prop
  | refused {m : HostMachine (Story δ)} {e : StoryError} (hm : w.machine? h = some m)
    (hstate : m.state = .ready ∨ m.state = .faulted) (hr : r = .error e) (hw : w' = w)
  | ended {m : HostMachine (Story δ)} (hm : w.machine? h = some m) (hstate : m.state = .finished)
    (hr : (finishSlice fuel i).Yields w r w')
  | waiting {m : HostMachine (Story δ)} {kind : WaitKind} (hm : w.machine? h = some m)
    (hstate : m.state = .waiting kind) (hr : (pending i).Yields w r w')
  | ran {m : HostMachine (Story δ)} {a : Reply} {w₁ : World (Story δ)} (hm : w.machine? h = some m)
    (hstate : m.state = .running)
    (hexec : exec fuel (.run h) { w with host := w.host.clearPending i } = some (a, w₁))
    (hran : Ran fuel i h a w₁ r w')
  | lost {b : Reply} (hm : w.machine? h = none) (hexec : exec fuel (.state h) w = some (b, w'))
    (hr : r = .error (.destroyed h))

variable {r : Except StoryError Slice}

theorem runSlice_cases (hw : w.AtRest) (hr : (runSlice fuel i h).Yields w r w') :
    ∃ a w₁, exec fuel (.run h) w = some (a, w₁) ∧ Ran fuel i h a w₁ r w' := by
  obtain ⟨a, w₁, hexec, hr⟩ := yields_performFlag_bind.mp hr
  refine ⟨a, w₁, hexec, ?_⟩
  rcases machineState_bind (atRest_exec hw hexec) hr with ⟨m, hm, hr⟩ | ⟨hm, ⟨b, hexec⟩, hr⟩
  · split at hr
    · rename_i hstate
      obtain ⟨rfl, rfl⟩ := yields_throw.mp hr
      exact .fails hm (.inl hstate) rfl rfl
    · rename_i hfaulted
      cases hyes : a.isYes with
      | false =>
        rw [hyes] at hr
        obtain ⟨rfl, rfl⟩ := yields_throw_bind.mp hr
        exact .fails hm (.inr hyes) rfl rfl
      | true =>
        rw [hyes] at hr
        simp only [Bool.not_true, Bool.false_eq_true, if_false] at hr
        split at hr
        · rename_i hstate
          exact .waits hyes hm hstate hr
        · rename_i hstate
          exact .ends hyes hm hstate hr
        · rename_i hwaiting hfinished
          obtain ⟨rfl, rfl⟩ := yields_pure.mp hr
          refine .goesOn hyes hm ?_ rfl rfl
          cases hstate : m.state with
          | ready => exact .inl rfl
          | running => exact .inr rfl
          | waiting kind => exact absurd hstate (hwaiting kind)
          | finished => exact absurd hstate hfinished
          | faulted => exact absurd hstate hfaulted
  · exact .lost hm hexec hr

theorem tick_cases (hw : w.AtRest) (hc : w.host.conversations[i]? = some c)
    (hphase : c.phase ≠ .destroyed) (hr : (tick fuel i).Yields w r w') :
    Ticked fuel i c.handle w r w' := by
  unfold tick at hr
  rw [yields_alive_bind hc hphase] at hr
  rcases machineState_bind hw hr with ⟨m, hm, hr⟩ | ⟨hm, ⟨b, hexec⟩, hr⟩
  · cases hstate : m.state with
    | ready =>
      rw [hstate] at hr
      obtain ⟨rfl, rfl⟩ := yields_throw.mp hr
      exact .refused hm (.inl hstate) rfl rfl
    | faulted =>
      rw [hstate] at hr
      obtain ⟨rfl, rfl⟩ := yields_throw.mp hr
      exact .refused hm (.inr hstate) rfl rfl
    | finished =>
      rw [hstate] at hr
      exact .ended hm hstate hr
    | waiting kind =>
      rw [hstate] at hr
      exact .waiting hm hstate hr
    | running =>
      rw [hstate] at hr
      have hcleared : AtRest { w with host := w.host.clearPending i } := hw.congr rfl rfl
      obtain ⟨a, w₁, hexec, hran⟩ := runSlice_cases hcleared (yields_update_bind.mp hr)
      exact .ran hm hstate hexec hran
  · exact .lost hm hexec hr

theorem tick_outcome (hw : w.AtRest) (hr : (tick fuel i).Yields w r w') :
    (∃ c, w.host.conversations[i]? = some c ∧ c.phase ≠ .destroyed ∧
      Ticked fuel i c.handle w r w') ∨
    ((∀ c, w.host.conversations[i]? = some c → c.phase = .destroyed) ∧
      (∃ h, r = .error (.destroyed h)) ∧ w' = w) := by
  rcases alive_bind hr with ⟨c, hc, hphase, -⟩ | hdead
  · exact .inl ⟨c, hc, hphase, tick_cases hw hc hphase hr⟩
  · exact .inr hdead

end Dialogue.Telling
