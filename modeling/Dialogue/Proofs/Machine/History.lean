import Dialogue.Proofs.Machine.Transition
import Mathlib.Data.List.Induction

/-!
Histories of machines: what the host does with a machine, act by act, and what the script does in
between, step by step.
-/

namespace Dialogue.Machine

variable {φ σ : Type} {c : Container} {m m' m'' m₀ : Machine φ}

/-- An act of the host, or a step of the script. A step that calls a host function may be followed
by its answer, and then the two are one. -/
inductive Move (φ : Type) where
  | act (a : Act φ)
  | step
  | answer (v : Value)

namespace Move

def isScript : Move φ → Bool
  | act _ => false
  | step | answer _ => true

/-- The machines that a move leads to. Acts include those that fail; a run that has begun is no act
but the steps of the script. -/
def Leads (m m' : Machine φ) : Move φ → Prop
  | act a => ∃ ended, a.perform (fun _ _ _ => none) 0 m () = some (ended, m', ())
  | step => m.state = .running ∧ m' = m.step.machine
  | answer v => m.state = .running ∧
    ∃ m₁ k, m.step = .call m₁ k ∧ m₁.receive k.ip k.dest v = .ok m'

end Move

structure Entry (φ : Type) where
  before : Machine φ
  move : Move φ
  after : Machine φ

inductive History (m₀ : Machine φ) : List (Entry φ) → Machine φ → Prop
  | nil : History m₀ [] m₀
  | snoc {es : List (Entry φ)} {m m' : Machine φ} {move : Move φ} (prior : History m₀ es m)
    (leads : move.Leads m m') : History m₀ (es ++ [⟨m, move, m'⟩]) m'

variable {es es' : List (Entry φ)} {e : Entry φ} {move : Move φ}

theorem History.single (h : move.Leads m m') : History m [⟨m, move, m'⟩] m' := .snoc .nil h

theorem History.append (h : History m₀ es m) (h' : History m es' m') :
    History m₀ (es ++ es') m' := by
  induction h' with
  | nil => rwa [List.append_nil]
  | snoc _ leads ih =>
    rw [← List.append_assoc]
    exact .snoc ih leads

theorem History.cons (h : move.Leads m m') (h' : History m' es m'') :
    History m (⟨m, move, m'⟩ :: es) m'' :=
  (History.single h).append h'

theorem History.of_append (h : History m₀ (es ++ es') m) :
    ∃ m₁, History m₀ es m₁ ∧ History m₁ es' m := by
  induction es' using List.reverseRecOn generalizing m with
  | nil => exact ⟨m, List.append_nil es ▸ h, .nil⟩
  | append_singleton es' e ih =>
    rw [← List.append_assoc] at h
    generalize hall : es ++ es' ++ [e] = all at h
    cases h with
    | nil => simp at hall
    | snoc prior leads =>
      obtain ⟨rfl, hlast⟩ := List.append_inj' hall rfl
      cases hlast
      obtain ⟨m₁, hbefore, hafter⟩ := ih prior
      exact ⟨m₁, hbefore, .snoc hafter leads⟩

theorem History.of_nil (h : History m₀ [] m) : m = m₀ := by
  generalize hes : [] = es at h
  cases h with
  | nil => rfl
  | snoc => simp at hes

theorem History.of_cons (h : History m₀ (e :: es) m) :
    e.before = m₀ ∧ e.move.Leads e.before e.after ∧ History e.after es m := by
  have happend : History m₀ ([e] ++ es) m := h
  obtain ⟨m₁, hfirst, hrest⟩ := happend.of_append
  generalize hall : [e] = all at hfirst
  cases hfirst with
  | nil => cases hall
  | @snoc prior m₂ m₁ move hprior leads =>
    have hsnoc : [] ++ [e] = prior ++ [⟨m₂, move, m₁⟩] := hall
    obtain ⟨hnil, hlast⟩ := List.append_inj' hsnoc rfl
    cases hlast
    rw [← hnil] at hprior
    cases hprior.of_nil
    exact ⟨rfl, leads, hrest⟩

theorem History.split (h : History m₀ (es ++ e :: es') m) :
    History m₀ es e.before ∧ e.move.Leads e.before e.after := by
  obtain ⟨m₁, hbefore, hafter⟩ := h.of_append
  obtain ⟨rfl, hleads, -⟩ := hafter.of_cons
  exact ⟨hbefore, hleads⟩

theorem Move.Leads.course (h : move.Leads m m') : Course (fun _ => True) m m' := by
  cases move with
  | act a =>
    obtain ⟨ended, hperform⟩ := h
    exact course_perform (fun _ _ => trivial) hperform
  | step =>
    obtain ⟨hstate, rfl⟩ := h
    exact .single (.step hstate)
  | answer v =>
    obtain ⟨hstate, m₁, k, hcall, hresult⟩ := h
    exact .single (.answer hstate hcall hresult)

theorem History.course (h : History m₀ es m) : Course (fun _ => True) m₀ m := by
  induction h with
  | nil => exact .refl
  | snoc _ leads ih => exact ih.trans leads.course

theorem Move.Leads.eq_of_run (h : (Move.act .run).Leads m m') : m' = m := by
  obtain ⟨ended, h⟩ := h
  change m.run _ 0 () = _ at h
  unfold run at h
  split at h <;> cases h <;> rfl

theorem leads_halt (m : Machine φ) : (Move.act .halt).Leads m m.halt := ⟨.paused, rfl⟩

variable {host : φ → List Value → σ → Option (HostResult × σ)} {fuel : Nat} {s s' : σ}
  {ended : RunEnd} {a : Act φ}

/-- What a run that has begun consists of; a run that faults stops the machine. -/
def Move.ofRun : Move φ → Prop
  | act a => a = .halt
  | step | answer _ => True

theorem exists_history_steps (h : steps host fuel m s = some (ended, m', s')) :
    ∃ es, History m es m' ∧ ∀ e ∈ es, e.move.ofRun := by
  induction fuel generalizing m s with
  | zero => cases h
  | succ fuel ih =>
    rw [steps] at h
    split at h
    · rename_i hstate
      have hstep : Move.step.Leads m m.step.machine := ⟨hstate, rfl⟩
      cases hs : m.step with
      | next m₁ =>
        rw [hs] at h hstep
        obtain ⟨es, hes, hmoves⟩ := ih h
        exact ⟨_, .cons hstep hes, List.forall_mem_cons.mpr ⟨trivial, hmoves⟩⟩
      | fault m₁ e =>
        rw [hs] at h hstep
        cases h
        exact ⟨_, .cons hstep (.single (leads_halt m₁)), by simp [Move.ofRun]⟩
      | call m₁ k =>
        rw [hs] at h hstep
        simp only at h
        split at h
        · cases h
        · cases h
          exact ⟨_, .single hstep, by simp [Move.ofRun]⟩
        · rename_i v _ _
          split at h
          · rename_i m₂ hresult
            have hanswer : (Move.answer v).Leads m m₂ := ⟨hstate, m₁, k, hs, hresult⟩
            obtain ⟨es, hes, hmoves⟩ := ih h
            exact ⟨_, .cons hanswer hes, List.forall_mem_cons.mpr ⟨trivial, hmoves⟩⟩
          · cases h
            exact ⟨_, .cons hstep (.single (leads_halt m₁)), by simp [Move.ofRun]⟩
    · cases h
      exact ⟨[], .nil, by simp⟩

theorem exists_history_perform (h : a.perform host fuel m s = some (ended, m', s')) :
    (Move.act a).Leads m m' ∨
      a = .run ∧ m.state = .running ∧ ∃ es, History m es m' ∧ ∀ e ∈ es, e.move.ofRun := by
  have hreturns {r : Except MachineError (Machine φ)} (h : m.returns s r = some (ended, m', s')) :
      m.returns () r = some (ended, m', ()) := by
    cases r <;> cases h <;> rfl
  cases a with
  | run =>
    by_cases hrunning : m.state = .running
    · change m.run host fuel s = _ at h
      rw [run_of_running hrunning] at h
      exact .inr ⟨rfl, hrunning, exists_history_steps h⟩
    · refine .inl ⟨ended, ?_⟩
      change m.run host fuel s = _ at h
      change m.run _ 0 () = _
      cases hwaiting : m.isWaiting with
      | true =>
        rw [run_of_isWaiting hwaiting] at h ⊢
        cases h
        rfl
      | false =>
        rw [run_of_idle hrunning hwaiting] at h ⊢
        cases h
        rfl
  | start | selectContinue | selectChoice | setExtern | setFunction | subscribe | value =>
    exact .inl ⟨ended, hreturns h⟩
  | halt | unsubscribe | declareEnum | save | load | takeEvents | takeDiagnostics =>
    cases h
    exact .inl ⟨_, rfl⟩

end Dialogue.Machine
