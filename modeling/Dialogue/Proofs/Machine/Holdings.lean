import Dialogue.Proofs.Machine.Globals
import Dialogue.Proofs.Value.Proper

namespace Dialogue

def Event.Proper : Event → Prop
  | .changed _ v => v.Proper
  | _ => True

namespace Machine

variable {φ : Type} {m m' : Machine φ}

structure Proper (m : Machine φ) : Prop where
  values : ∀ g ∈ m.globals, ∀ v, g.slot = .value v → v.Proper
  events : ∀ e ∈ m.events, e.Proper

theorem proper_create (c : Container) : (create c : Machine φ).Proper := by
  refine ⟨fun g hg v hv => ?_, nofun⟩
  obtain ⟨symbol, -, rfl⟩ := List.mem_map.mp hg
  cases hv
  exact Value.proper_nil

theorem Proper.of_value (hm : m.Proper) {name : String} {v : Value} (h : m.value name = .ok v) :
    v.Proper := by
  obtain ⟨g, hg, hslot⟩ := value_eq_ok h
  exact hm.values g (global?_mem hg).1 v hslot

theorem Proper.congr (hm : m.Proper) (hglobals : m'.globals = m.globals)
    (hevents : m'.events = m.events) : m'.Proper :=
  ⟨hglobals ▸ hm.values, hevents ▸ hm.events⟩

theorem Proper.emit {es : List Event} (hm : m.Proper) (hes : ∀ e ∈ es, e.Proper)
    (hglobals : m'.globals = m.globals) (hevents : m'.events = m.events ++ es) : m'.Proper := by
  refine ⟨hglobals ▸ hm.values, fun e he => ?_⟩
  rw [hevents, List.mem_append] at he
  exact he.elim (hm.events e) (hes e)

theorem Proper.update {index : UInt32} {f : Global φ → Global φ} (hm : m.Proper)
    (hf : ∀ g v, (f g).slot = .value v → g.slot = .value v ∨ v.Proper) :
    (m.update index f).Proper := by
  refine ⟨fun g hg v hv => ?_, hm.events⟩
  obtain ⟨g₀, hg₀, rfl⟩ := List.mem_map.mp hg
  split at hv
  · exact (hf g₀ v hv).elim (hm.values g₀ hg₀ v) id
  · exact hm.values g₀ hg₀ v hv

theorem Proper.write {index : UInt32} {v : Value} (hm : m.Proper) (hv : v.Proper) :
    (m.write index (.value v)).Proper :=
  hm.update fun _ _ hslot => by
    cases hslot
    exact .inr hv

theorem Proper.assign {index : UInt32} {v : Value} (hm : m.Proper) (hv : v.Proper)
    (h : m.assign index v = .ok m') : m'.Proper := by
  rcases assign_cases h with rfl | ⟨e, rfl⟩ | ⟨g, -, -, -, rfl⟩
  · exact hm
  · exact hm.congr rfl rfl
  · refine Proper.write (hm.emit ?_ rfl rfl) hv
    split
    · intro e he
      rw [List.mem_singleton.mp he]
      exact hv
    · exact nofun

theorem Proper.receive {ip : Nat} {dest : Option UInt32} {v : Value} (hm : m.Proper)
    (hv : v.Proper) (h : m.receive ip dest v = .ok m') : m'.Proper := by
  rcases receive_cases h with rfl | ⟨index, hassign⟩
  · exact hm
  · exact hm.assign hv hassign

structure Step.Proper (s : Step φ) : Prop where
  machine : s.machine.Proper
  args : ∀ {m k}, s = .call m k → ∀ v ∈ k.args, v.Proper

theorem Proper.step_of_ne_call {s : Step φ} (h : s.machine.Proper) (hs : ∀ m k, s ≠ .call m k) :
    Step.Proper s :=
  ⟨h, fun heq => absurd heq (hs _ _)⟩

theorem Proper.settle {ip : Nat} {dest : Option UInt32} {v : Value} (hm : m.Proper)
    (hv : v.Proper) : Step.Proper (m.settle ip dest v) := by
  refine Proper.step_of_ne_call ?_ fun _ _ => settle_ne_call
  unfold Machine.settle
  split
  · rename_i h
    exact hm.receive hv h
  · exact hm

theorem Proper.perform {i : Instruction} (hm : m.Proper) (hi : i.Storable) (ip : Nat) :
    Step.Proper (m.perform ip i) := by
  have hsame {m' : Machine φ} (hglobals : m'.globals = m.globals) (hevents : m'.events = m.events) :
      Step.Proper (.next m') := Proper.step_of_ne_call (hm.congr hglobals hevents) nofun
  have hemit {m' : Machine φ} (e : Event) (he : e.Proper) (hglobals : m'.globals = m.globals)
      (hevents : m'.events = m.events ++ [e]) : Step.Proper (.next m') :=
    Proper.step_of_ne_call (hm.emit (by simpa using he) hglobals hevents) nofun
  have hfault (e : MachineError) : Step.Proper (.fault m e) :=
    Proper.step_of_ne_call hm nofun
  have hreport (e : MachineError) (dest : Option UInt32) :
      Step.Proper ((m.diagnose e).settle ip dest .nil) :=
    (hm.congr rfl rfl : (m.diagnose e).Proper).settle Value.proper_nil
  cases i with
  | stop => exact hsame rfl rfl
  | line speaker content tags => exact hemit (.line ⟨speaker, content, tags⟩) trivial rfl rfl
  | choices options =>
    rw [Machine.perform]
    split
    · exact hfault _
    · split
      · exact hfault _
      · exact hemit (.choices _) trivial rfl rfl
  | jump target =>
    rw [Machine.perform]
    split
    · exact hsame rfl rfl
    · exact hfault _
  | jumpIfFalse index target =>
    rw [Machine.perform]
    split
    · split
      · split
        · exact hsame rfl rfl
        · exact hsame rfl rfl
      · exact hfault _
    · exact hfault _
  | set index v => exact hm.settle (Value.Storable.proper hi)
  | call index args dest =>
    have hargs : ∀ v ∈ args, v.Proper := fun v hv => Value.Storable.proper (hi.1 v hv)
    rw [Machine.perform]
    split
    · exact hfault _
    · split
      · exact hreport _ _
      · split
        · refine ⟨hm, fun heq => ?_⟩
          cases heq
          exact hargs
        · exact hreport _ _

theorem Proper.step (hm : m.Proper) : Step.Proper m.step := by
  unfold Machine.step
  split
  · exact Proper.step_of_ne_call (hm.congr rfl rfl) nofun
  · split
    · exact Proper.step_of_ne_call hm nofun
    · rename_i i next hi
      have hnext : Proper { m with ip := next } := hm.congr rfl rfl
      exact hnext.perform (Instruction.decode_eq_ok_iff.mp hi).1 m.ip

section Run

variable {σ : Type} {host : φ → List Value → σ → Option (HostResult × σ)} {B : φ → Prop}
  {I : σ → Prop}

def Provides (host : φ → List Value → σ → Option (HostResult × σ)) (B : φ → Prop)
    (I : σ → Prop) : Prop :=
  ∀ body args s r s', B body → (∀ v ∈ args, v.Proper) → I s → host body args s = some (r, s') →
    I s' ∧ ∀ v, r = .value v → v.Proper

theorem Proper.steps (hhost : Provides host B I) {fuel : Nat} {s s' : σ} {ended : RunEnd}
    (hm : m.Proper) (hbodies : m.Bodies B) (hs : I s)
    (h : steps host fuel m s = some (ended, m', s')) : m'.Proper ∧ I s' := by
  induction fuel generalizing m s with
  | zero => cases h
  | succ fuel ih =>
    have hstep := hm.step
    have hbodies' := (progress_step m).bodies hbodies
    rw [Machine.steps] at h
    split at h
    · cases hnext : m.step with
      | next m₁ =>
        rw [hnext] at h hstep hbodies'
        exact ih hstep.machine hbodies' hs h
      | fault m₁ e =>
        rw [hnext] at h hstep
        cases h
        exact ⟨hstep.machine.congr rfl rfl, hs⟩
      | call m₁ k =>
        have hbody := body_of_step hbodies hnext
        rw [hnext] at h hstep hbodies'
        simp only at h
        split at h
        · cases h
        · rename_i hcall
          cases h
          exact ⟨hstep.machine, (hhost _ _ _ _ _ hbody (hstep.args rfl) hs hcall).1⟩
        · rename_i hcall
          obtain ⟨hs₁, hv⟩ := hhost _ _ _ _ _ hbody (hstep.args rfl) hs hcall
          split at h
          · rename_i hreceive
            exact ih (Proper.receive hstep.machine (hv _ rfl) hreceive)
              ((progress_receive hreceive).bodies hbodies') hs₁ h
          · cases h
            exact ⟨hstep.machine.congr rfl rfl, hs₁⟩
    · cases h
      exact ⟨hm, hs⟩

theorem Proper.run (hhost : Provides host B I) {fuel : Nat} {s s' : σ} {ended : RunEnd}
    (hm : m.Proper) (hbodies : m.Bodies B) (hs : I s)
    (h : m.run host fuel s = some (ended, m', s')) : m'.Proper ∧ I s' := by
  unfold Machine.run at h
  split at h
  · exact hm.steps hhost hbodies hs h
  · cases h
    exact ⟨hm, hs⟩
  · cases h
    exact ⟨hm, hs⟩

end Run

theorem Proper.setExtern {name : String} {v : Value} (hm : m.Proper) (hv : v.Proper)
    (h : m.setExtern name v = .ok m') : m'.Proper := by
  obtain ⟨g, -, -, rfl⟩ := setExtern_eq_ok h
  exact hm.write hv

theorem Proper.loadEntry (hm : m.Proper) (name : String) (j : Json) :
    (m.loadEntry name j).1.Proper := by
  unfold Machine.loadEntry
  split
  · exact hm
  · split
    · exact hm
    · simp only
      split
      · rename_i v hchecked
        obtain ⟨u, hu, hchecked⟩ := Except.bind_eq_ok_iff.mp hchecked
        obtain ⟨-, -, heq⟩ := Except.bind_eq_ok_iff.mp hchecked
        cases heq
        exact hm.write (Value.proper_of_ofJson hu)
      · exact hm.congr rfl rfl

theorem Proper.loadEntries (hm : m.Proper) (entries : List (String × Json)) :
    (m.loadEntries entries).1.Proper := by
  induction entries generalizing m with
  | nil => exact hm
  | cons entry entries ih => exact ih (hm.loadEntry entry.1 entry.2)

end Machine

end Dialogue
