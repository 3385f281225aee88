import Dialogue.Proofs.Machine.Effects
import Mathlib.Logic.Relation

namespace Dialogue

def Event.isChange : Event → Bool
  | .changed .. => true
  | _ => false

namespace Machine

variable {φ : Type} {m m' m'' : Machine φ}

inductive Proceeds (m m' : Machine φ) : Prop
  | move (es : List Event) (quiet : ∀ e ∈ es, e.isChange = false)
    (container : m'.container = m.container) (domains : m'.domains = m.domains)
    (globals : m'.globals = m.globals) (events : m'.events = m.events ++ es)
  | store (index : UInt32) (v : Value) (g : Global φ) (found : m.slotAt? index = some g)
    (admitted : m.domains.checkAssignment g.slot.current v = .ok ())
    (fresh : (g.slot.current == v) = false) (container : m'.container = m.container)
    (domains : m'.domains = m.domains) (globals : m'.globals = (m.write index (.value v)).globals)
    (events : m'.events = m.events ++ if g.observed then [.changed g.symbol.name v] else [])

abbrev Progress : Machine φ → Machine φ → Prop := Relation.ReflTransGen Proceeds

theorem progress_move (hcontainer : m'.container = m.container) (hdomains : m'.domains = m.domains)
    (hglobals : m'.globals = m.globals) (hevents : m'.events = m.events) : Progress m m' :=
  .single (.move [] nofun hcontainer hdomains hglobals (by simpa using hevents))

theorem progress_emit {e : Event} (hquiet : e.isChange = false)
    (hcontainer : m'.container = m.container) (hdomains : m'.domains = m.domains)
    (hglobals : m'.globals = m.globals) (hevents : m'.events = m.events ++ [e]) : Progress m m' :=
  .single (.move [e] (by simpa using hquiet) hcontainer hdomains hglobals hevents)

theorem progress_diagnose (m : Machine φ) (e : MachineError) : Progress m (m.diagnose e) :=
  progress_move rfl rfl rfl rfl

theorem progress_halt (m : Machine φ) : Progress m m.halt := progress_move rfl rfl rfl rfl

theorem progress_assign {index : UInt32} {v : Value} (h : m.assign index v = .ok m') :
    Progress m m' := by
  rcases assign_cases h with rfl | ⟨e, rfl⟩ | ⟨g, hg, hadmitted, hfresh, rfl⟩
  · exact .refl
  · exact progress_diagnose m e
  · exact .single (.store index v g hg hadmitted hfresh rfl rfl rfl rfl)

theorem progress_receive {ip : Nat} {dest : Option UInt32} {v : Value}
    (h : m.receive ip dest v = .ok m') : Progress m m' := by
  rcases receive_cases h with rfl | ⟨index, hassign⟩
  · exact .refl
  · exact progress_assign hassign

theorem Settles.progress {s : Step φ} (h : Settles m s) : Progress m s.machine := by
  cases h with
  | skip | fault => exact .refl
  | assign h => exact progress_assign h

theorem Performs.progress {s : Step φ} (h : Performs m s) : Progress m s.machine := by
  cases h with
  | settle h => exact h.progress
  | report h => exact (progress_diagnose m _).trans h.progress
  | line | offer => exact progress_emit rfl rfl rfl rfl rfl
  | stop | jump => exact progress_move rfl rfl rfl rfl
  | call => exact .refl

theorem progress_step (m : Machine φ) : Progress m m.step.machine := by
  rcases step_cases m with h | ⟨i, next, -, h⟩
  · exact h.progress
  · exact (progress_move rfl rfl rfl rfl : Progress m { m with ip := next }).trans h.progress

variable {σ : Type} {host : φ → List Value → σ → Option (HostResult × σ)}

theorem progress_steps {fuel : Nat} {s s' : σ} {ended : RunEnd}
    (h : steps host fuel m s = some (ended, m', s')) : Progress m m' := by
  induction fuel generalizing m s with
  | zero => cases h
  | succ fuel ih =>
    have hstep := progress_step m
    rw [steps] at h
    split at h
    · cases hs : m.step with
      | next m₁ =>
        rw [hs] at h hstep
        exact hstep.trans (ih h)
      | fault m₁ e =>
        rw [hs] at h hstep
        cases h
        exact hstep.trans (progress_halt m₁)
      | call m₁ c =>
        rw [hs] at h hstep
        simp only at h
        split at h
        · cases h
        · cases h
          exact hstep
        · split at h
          · rename_i hreceive
            exact hstep.trans ((progress_receive hreceive).trans (ih h))
          · cases h
            exact hstep.trans (progress_halt m₁)
    · cases h
      exact .refl

theorem progress_run {fuel : Nat} {s s' : σ} {ended : RunEnd}
    (h : m.run host fuel s = some (ended, m', s')) : Progress m m' := by
  unfold run at h
  split at h
  · exact progress_steps h
  · cases h
    exact .refl
  · cases h
    exact .refl

theorem Progress.container (h : Progress m m') : m'.container = m.container := by
  induction h with
  | refl => rfl
  | tail _ hstep ih => cases hstep <;> simp_all

theorem Progress.domains (h : Progress m m') : m'.domains = m.domains := by
  induction h with
  | refl => rfl
  | tail _ hstep ih => cases hstep <;> simp_all

def outlines (m : Machine φ) : List (GlobalSymbol × Bool) :=
  m.globals.map fun g => (g.symbol, g.observed)

theorem outlines_write (m : Machine φ) (index : UInt32) (slot : Slot φ) :
    (m.write index slot).outlines = m.outlines := by
  simp only [outlines, write, update, List.map_map]
  apply List.map_congr_left
  intro g _
  simp only [Function.comp_apply]
  split <;> rfl

theorem outlines_congr (h : m'.globals = m.globals) : m'.outlines = m.outlines := by
  rw [outlines, outlines, h]

theorem outlines_loadEntries (m : Machine φ) (entries : List (String × Json)) :
    (m.loadEntries entries).1.outlines = m.outlines := by
  induction entries generalizing m with
  | nil => rfl
  | cons entry entries ih =>
    refine (ih (m.loadEntry entry.1 entry.2).1).trans ?_
    rcases loadEntry_cases m entry.1 entry.2 with h | ⟨e, h⟩ | ⟨g, v, -, -, h⟩ <;> rw [h]
    · rfl
    · exact outlines_write ..

theorem Progress.outlines (h : Progress m m') : m'.outlines = m.outlines := by
  induction h with
  | refl => rfl
  | @tail m₁ m₂ _ hstep ih =>
    rw [← ih]
    cases hstep with
    | move _ _ _ _ hglobals => exact outlines_congr hglobals
    | store index v _ _ _ _ _ _ hglobals =>
      rw [← outlines_write m₁ index (.value v)]
      exact outlines_congr hglobals

theorem Progress.symbols (h : Progress m m') :
    m'.globals.map (·.symbol) = m.globals.map (·.symbol) := by
  have houtlines := congrArg (List.map Prod.fst) h.outlines
  simpa [Machine.outlines, Function.comp_def] using houtlines

def Bodies (P : φ → Prop) (m : Machine φ) : Prop :=
  ∀ g ∈ m.globals, ∀ arity body, g.slot = .function arity body → P body

theorem bodies_update {P : φ → Prop} {index : UInt32} {f : Global φ → Global φ}
    (hf : ∀ g arity body, (f g).slot = .function arity body → g.slot = .function arity body ∨ P body)
    (h : m.Bodies P) : (m.update index f).Bodies P := by
  intro g hg arity body hslot
  obtain ⟨g₀, hg₀, rfl⟩ := List.mem_map.mp hg
  split at hslot
  · rcases hf g₀ arity body hslot with hsame | hbody
    · exact h g₀ hg₀ arity body hsame
    · exact hbody
  · exact h g₀ hg₀ arity body hslot

theorem bodies_write {P : φ → Prop} (h : m.Bodies P) (index : UInt32) (v : Value) :
    (m.write index (.value v)).Bodies P :=
  bodies_update (fun _ _ _ hslot => by cases hslot) h

theorem bodies_congr {P : φ → Prop} (hglobals : m'.globals = m.globals) (h : m.Bodies P) :
    m'.Bodies P := by
  intro g hg
  exact h g (hglobals ▸ hg)

theorem Progress.bodies {P : φ → Prop} (hprogress : Progress m m') (h : m.Bodies P) :
    m'.Bodies P := by
  induction hprogress with
  | refl => exact h
  | tail _ hstep ih =>
    cases hstep with
    | move _ _ _ _ hglobals => exact bodies_congr hglobals ih
    | store index v _ _ _ _ _ _ hglobals => exact bodies_congr hglobals (bodies_write ih index v)

theorem bodies_setExtern {P : φ → Prop} {name : String} {v : Value} (h : m.Bodies P)
    (hset : m.setExtern name v = .ok m') : m'.Bodies P := by
  obtain ⟨g, -, -, rfl⟩ := setExtern_eq_ok hset
  exact bodies_write h _ v

theorem bodies_setFunction {P : φ → Prop} {name : String} {arity : Nat} {body : φ} (h : m.Bodies P)
    (hbody : P body) (hset : m.setFunction name arity body = .ok m') : m'.Bodies P := by
  obtain ⟨g, -, rfl⟩ := setFunction_eq_ok hset
  refine bodies_update (fun g arity' body' hslot => .inr ?_) h
  cases hslot
  exact hbody

theorem bodies_subscribe {P : φ → Prop} {name : String} (h : m.Bodies P)
    (hsubscribe : m.subscribe name = .ok m') : m'.Bodies P := by
  obtain ⟨g, -, -, rfl⟩ := subscribe_eq_ok hsubscribe
  exact bodies_update (fun _ _ _ hslot => .inl hslot) h

theorem bodies_unsubscribe {P : φ → Prop} (name : String) (h : m.Bodies P) :
    (m.unsubscribe name).Bodies P := by
  rcases unsubscribe_cases m name with heq | ⟨g, -, heq⟩ <;> rw [heq]
  · exact h
  · exact bodies_update (fun _ _ _ hslot => .inl hslot) h

theorem bodies_loadEntries {P : φ → Prop} (entries : List (String × Json)) (h : m.Bodies P) :
    (m.loadEntries entries).1.Bodies P := by
  induction entries generalizing m with
  | nil => exact h
  | cons entry entries ih =>
    refine ih (m := (m.loadEntry entry.1 entry.2).1) ?_
    rcases loadEntry_cases m entry.1 entry.2 with heq | ⟨e, heq⟩ | ⟨g, v, -, -, heq⟩ <;> rw [heq]
    · exact h
    · exact h
    · exact bodies_write h _ v

theorem settle_ne_call {ip : Nat} {dest : Option UInt32} {v : Value} {m₁ : Machine φ}
    {c : HostCall φ} : m.settle ip dest v ≠ .call m₁ c := by
  unfold settle
  split <;> exact nofun

theorem Performs.body {P : φ → Prop} {c : HostCall φ} (hm : m.Bodies P)
    (h : Performs m (.call m' c)) : P c.body := by
  cases h with
  | settle h | report h => cases h
  | call mem slot => exact hm _ mem _ _ slot

theorem body_of_step {P : φ → Prop} {c : HostCall φ} (hm : m.Bodies P) (h : m.step = .call m' c) :
    P c.body := by
  rcases step_cases m with hstep | ⟨i, next, -, hstep⟩
  · exact (h ▸ hstep).body hm
  · exact Performs.body (m := { m with ip := next }) hm (h ▸ hstep)

theorem steps_induction_of_bodies {P : φ → Prop} {R : σ → σ → Prop} (hrefl : ∀ s, R s s)
    (htrans : ∀ {s s' s''}, R s s' → R s' s'' → R s s'')
    (hhost : ∀ {body args s r s'}, P body → host body args s = some (r, s') → R s s') {fuel : Nat}
    {s s' : σ} {ended : RunEnd} (hm : m.Bodies P)
    (h : steps host fuel m s = some (ended, m', s')) : R s s' := by
  induction fuel generalizing m s with
  | zero => cases h
  | succ fuel ih =>
    have hstep := (progress_step m).bodies hm
    rw [steps] at h
    split at h
    · cases hs : m.step with
      | next m₁ =>
        rw [hs] at h hstep
        exact ih hstep h
      | fault m₁ e =>
        rw [hs] at h
        cases h
        exact hrefl _
      | call m₁ c =>
        have hbody := body_of_step hm hs
        rw [hs] at h hstep
        simp only at h
        split at h
        · cases h
        · rename_i hcall
          cases h
          exact hhost hbody hcall
        · rename_i hcall
          split at h
          · rename_i hreceive
            exact htrans (hhost hbody hcall) (ih ((progress_receive hreceive).bodies hstep) h)
          · cases h
            exact hhost hbody hcall
    · cases h
      exact hrefl _

theorem run_induction_of_bodies {P : φ → Prop} {R : σ → σ → Prop} (hrefl : ∀ s, R s s)
    (htrans : ∀ {s s' s''}, R s s' → R s' s'' → R s s'')
    (hhost : ∀ {body args s r s'}, P body → host body args s = some (r, s') → R s s') {fuel : Nat}
    {s s' : σ} {ended : RunEnd} (hm : m.Bodies P)
    (h : m.run host fuel s = some (ended, m', s')) : R s s' := by
  unfold run at h
  split at h
  · exact steps_induction_of_bodies hrefl htrans hhost hm h
  · cases h
    exact hrefl _
  · cases h
    exact hrefl _

end Machine

end Dialogue
