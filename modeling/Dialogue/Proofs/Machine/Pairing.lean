import Dialogue.Proofs.Machine.Functionless
import Dialogue.Proofs.Machine.Progress

namespace Dialogue

abbrev Coincide {α σ τ : Type} (S : σ → τ → Prop) : Option (α × σ) → Option (α × τ) → Prop :=
  Option.Rel fun x y => x.1 = y.1 ∧ S x.2 y.2

theorem Coincide.cases {α σ τ : Type} {S : σ → τ → Prop} {x : Option (α × σ)} {y : Option (α × τ)}
    (h : Coincide S x y) :
    (x = none ∧ y = none) ∨ ∃ a s t, x = some (a, s) ∧ y = some (a, t) ∧ S s t := by
  rcases h with @⟨⟨a, s⟩, ⟨a', t⟩, rfl, hs⟩ | _
  · exact .inr ⟨a, s, t, rfl, rfl, hs⟩
  · exact .inl ⟨rfl, rfl⟩

theorem Coincide.mono {α σ τ : Type} {S S' : σ → τ → Prop} {x : Option (α × σ)} {y : Option (α × τ)}
    (h : Coincide S x y) (hS : ∀ s t, S s t → S' s t) : Coincide S' x y := by
  rcases h.cases with ⟨rfl, rfl⟩ | ⟨a, s, t, rfl, rfl, hs⟩
  · exact .none
  · exact .some ⟨rfl, hS s t hs⟩

namespace Machine

variable {φ ψ χ σ τ : Type}

section Map

variable (f : φ → ψ) (m : Machine φ)

theorem map_map (g : ψ → χ) : (m.map f).map g = m.map (g ∘ f) := by
  have hglobal (x : Global φ) : (x.map f).map g = x.map (g ∘ f) := by
    obtain ⟨symbol, slot, observed⟩ := x
    cases slot <;> rfl
  simp only [map, List.map_map, Machine.mk.injEq, true_and, and_true]
  exact List.map_congr_left fun x _ => hglobal x

theorem map_id : m.map id = m := by
  have hglobal (x : Global φ) : x.map id = x := by
    obtain ⟨symbol, slot, observed⟩ := x
    cases slot <;> rfl
  simp only [map, funext hglobal, List.map_id']

theorem update_map {g : Global φ → Global φ} {g' : Global ψ → Global ψ}
    (hg : ∀ x, g' (x.map f) = (g x).map f) (index : UInt32) :
    (m.map f).update index g' = (m.update index g).map f := by
  simp only [update, map, List.map_map, Machine.mk.injEq, true_and, and_true]
  refine List.map_congr_left fun x _ => ?_
  by_cases hat : (x.symbol.index == index) = true
  · simp only [Function.comp_apply, hat, if_true, ← hg]
    exact if_pos hat
  · simp only [Function.comp_apply, hat, if_false, Bool.false_eq_true]
    exact if_neg hat

theorem setExtern_map (name : String) (v : Value) :
    (m.map f).setExtern name v = (m.setExtern name v).map (map f) := by
  unfold setExtern
  rw [global?_map]
  cases m.global? name with
  | none => rfl
  | some g =>
    simp only [Option.map_some, Global.map, Slot.current_map, map_domains]
    split
    · cases m.domains.checkAssignment g.slot.current v with
      | ok _ => exact congrArg Except.ok (write_map f m _ v)
      | error cause => rfl
    · rfl

theorem setFunction_map (name : String) (arity : Nat) (body : φ) :
    (m.map f).setFunction name arity (f body) = (m.setFunction name arity body).map (map f) := by
  unfold setFunction
  rw [global?_map]
  cases m.global? name with
  | none => rfl
  | some g =>
    simp only [Option.map_some, Global.map]
    split
    · refine congrArg Except.ok (update_map f m (fun x => ?_) _)
      rfl
    · rfl

theorem subscribe_map (name : String) :
    (m.map f).subscribe name = (m.subscribe name).map (map f) := by
  unfold subscribe
  rw [global?_map]
  cases m.global? name with
  | none => rfl
  | some g =>
    simp only [Option.map_some, Global.map, Slot.isFunction_map]
    split
    · rfl
    · exact congrArg Except.ok (update_map f m (fun _ => rfl) _)

theorem isSubscribed_map (name : String) : (m.map f).isSubscribed name = m.isSubscribed name := by
  unfold isSubscribed
  rw [global?_map]
  cases m.global? name <;> rfl

theorem unsubscribe_map (name : String) :
    (m.map f).unsubscribe name = (m.unsubscribe name).map f := by
  unfold unsubscribe
  rw [global?_map]
  cases m.global? name with
  | none => rfl
  | some g => exact update_map f m (fun _ => rfl) _

theorem value_map (name : String) : (m.map f).value name = m.value name := by
  unfold value
  rw [global?_map]
  cases m.global? name with
  | none => rfl
  | some g =>
    obtain ⟨symbol, slot, observed⟩ := g
    cases slot <;> rfl

variable {host : ψ → List Value → σ → Option (HostResult × σ)}

theorem steps_map (fuel : Nat) (s : σ) : steps host fuel (m.map f) s =
    (steps (fun body => host (f body)) fuel m s).map fun r => (r.1, r.2.1.map f, r.2.2) := by
  induction fuel generalizing m s with
  | zero => rfl
  | succ fuel ih =>
    simp only [steps, step_map, map_state]
    split
    · cases m.step with
      | next m₁ => exact ih m₁ s
      | fault m₁ e => rfl
      | call m₁ c =>
        simp only [Step.map, HostCall.map, receive_map]
        cases host (f c.body) c.args s with
        | none => rfl
        | some r =>
          obtain ⟨v | message, s⟩ := r
          · simp only
            cases m₁.receive c.ip c.dest v with
            | ok m₂ => exact ih m₂ s
            | error e => rfl
          · rfl
    · rfl

theorem map_run (fuel : Nat) (s : σ) : (m.map f).run host fuel s =
    (m.run (fun body => host (f body)) fuel s).map fun r => (r.1, r.2.1.map f, r.2.2) := by
  simp only [run, map_state]
  cases m.state with
  | running => exact steps_map f m fuel s
  | ready | waiting | finished | faulted => rfl

end Map

section Agreement

variable {S : σ → τ → Prop} {host : φ → List Value → σ → Option (HostResult × σ)}
variable {host' : φ → List Value → τ → Option (HostResult × τ)}

theorem steps_coincide
    (h : ∀ body args s t, S s t → Coincide S (host body args s) (host' body args t)) (fuel : Nat)
    (m : Machine φ) {s : σ} {t : τ} (hs : S s t) :
    Coincide (fun x y => x.1 = y.1 ∧ S x.2 y.2) (steps host fuel m s) (steps host' fuel m t) := by
  induction fuel generalizing m s t with
  | zero => exact .none
  | succ fuel ih =>
    rw [steps, steps]
    split
    · cases m.step with
      | next m₁ => exact ih m₁ hs
      | fault m₁ e => exact .some ⟨rfl, rfl, hs⟩
      | call m₁ c =>
        rcases (h c.body c.args s t hs).cases with ⟨hx, hy⟩ | ⟨r, s, t, hx, hy, hs⟩
        · simp only [hx, hy]
          exact .none
        · simp only [hx, hy]
          cases r with
          | panic message => exact .some ⟨rfl, rfl, hs⟩
          | value v =>
            simp only
            cases m₁.receive c.ip c.dest v with
            | ok m₂ => exact ih m₂ hs
            | error e => exact .some ⟨rfl, rfl, hs⟩
    · exact .some ⟨rfl, rfl, hs⟩

theorem run_coincide {fuel : Nat}
    (h : fuel ≠ 0 → ∀ body args s t, S s t → Coincide S (host body args s) (host' body args t))
    (m : Machine φ) {s : σ} {t : τ} (hs : S s t) :
    Coincide (fun x y => x.1 = y.1 ∧ S x.2 y.2) (m.run host fuel s) (m.run host' fuel t) := by
  rw [run, run]
  cases m.state with
  | running =>
    cases fuel with
    | zero => exact .none
    | succ fuel => exact steps_coincide (h (Nat.succ_ne_zero fuel)) (fuel + 1) m hs
  | ready | waiting | finished | faulted => exact .some ⟨rfl, rfl, hs⟩

end Agreement

def Paired (R : φ → φ → Prop) (m m' : Machine φ) : Prop :=
  ∃ p : Machine { x : φ × φ // R x.1 x.2 }, p.map (·.1.1) = m ∧ p.map (·.1.2) = m'

theorem exists_map_of_bodies {P : φ → Prop} {m : Machine φ} (hm : m.Bodies P) :
    ∃ p : Machine { body // P body }, p.map (·.1) = m := by
  have hglobals (gs : List (Global φ)) (hgs : ∀ g ∈ gs, ∀ arity body,
      g.slot = .function arity body → P body) :
      ∃ ps : List (Global { body // P body }), ps.map (.map (·.1)) = gs := by
    induction gs with
    | nil => exact ⟨[], rfl⟩
    | cons g gs ih =>
      obtain ⟨ps, rfl⟩ := ih fun g hg => hgs g (List.mem_cons_of_mem _ hg)
      obtain ⟨symbol, slot, observed⟩ := g
      cases slot with
      | value v => exact ⟨⟨symbol, .value v, observed⟩ :: ps, rfl⟩
      | function arity body =>
        have hbody := hgs _ List.mem_cons_self arity body rfl
        exact ⟨⟨symbol, .function arity ⟨body, hbody⟩, observed⟩ :: ps, rfl⟩
  obtain ⟨ps, hps⟩ := hglobals m.globals hm
  refine ⟨⟨m.container, ps, m.state, m.ip, m.pending, m.visited, m.domains, m.events,
    m.diagnostics⟩, ?_⟩
  simp only [map, hps]

namespace Paired

variable {R R' : φ → φ → Prop} {m m' : Machine φ}

theorem of_bodies {P : φ → Prop} {f : φ → φ} (hm : m.Bodies P) (hf : ∀ body, P body → R body (f body)) :
    Paired R m (m.map f) := by
  obtain ⟨p, rfl⟩ := exists_map_of_bodies hm
  refine ⟨p.map fun body => ⟨(body.1, f body.1), hf body.1 body.2⟩, ?_, ?_⟩
  · rw [map_map]
    rfl
  · rw [map_map, map_map]
    rfl

theorem refl (hm : m.Bodies fun body => R body body) : Paired R m m := by
  have hpaired := of_bodies (f := id) hm fun _ hbody => hbody
  rwa [map_id] at hpaired

theorem bodies (h : Paired R m m') : m.Bodies fun body => ∃ body', R body body' := by
  obtain ⟨p, rfl, -⟩ := h
  intro g hg arity body hslot
  obtain ⟨g₀, -, rfl⟩ := List.mem_map.mp hg
  obtain ⟨symbol, slot, observed⟩ := g₀
  cases slot with
  | value v => cases hslot
  | function arity' x =>
    cases hslot
    exact ⟨x.1.2, x.2⟩

theorem mono (h : Paired R m m') (hR : ∀ b b', R b b' → R' b b') : Paired R' m m' := by
  obtain ⟨p, rfl, rfl⟩ := h
  refine ⟨p.map fun x => ⟨x.1, hR _ _ x.2⟩, ?_, ?_⟩ <;>
  · rw [map_map]
    rfl

theorem same (h : Paired R m m') : m.map (fun _ => ()) = m'.map fun _ => () := by
  obtain ⟨p, rfl, rfl⟩ := h
  rw [map_map, map_map]
  rfl

theorem eq (h : Paired R m m') (hR : ∀ b b', R b b' → b' = b) : m' = m := by
  obtain ⟨p, rfl, rfl⟩ := h
  exact congrArg p.map (funext fun x => hR _ _ x.2)

theorem state (h : Paired R m m') : m'.state = m.state := by
  obtain ⟨p, rfl, rfl⟩ := h
  rfl

theorem ip (h : Paired R m m') : m'.ip = m.ip := by
  obtain ⟨p, rfl, rfl⟩ := h
  rfl

theorem container (h : Paired R m m') : m'.container = m.container := by
  obtain ⟨p, rfl, rfl⟩ := h
  rfl

theorem events (h : Paired R m m') : m'.events = m.events := by
  obtain ⟨p, rfl, rfl⟩ := h
  rfl

theorem diagnostics (h : Paired R m m') : m'.diagnostics = m.diagnostics := by
  obtain ⟨p, rfl, rfl⟩ := h
  rfl

theorem value (h : Paired R m m') (name : String) : m'.value name = m.value name := by
  obtain ⟨p, rfl, rfl⟩ := h
  rw [value_map, value_map]

theorem create (c : Container) : Paired R (.create c) (.create c) :=
  ⟨.create c, create_map _ c, create_map _ c⟩

theorem halt (h : Paired R m m') : Paired R m.halt m'.halt := by
  obtain ⟨p, rfl, rfl⟩ := h
  exact ⟨p.halt, rfl, rfl⟩

theorem takeEvents (h : Paired R m m') : Paired R m.takeEvents.2 m'.takeEvents.2 := by
  obtain ⟨p, rfl, rfl⟩ := h
  exact ⟨p.takeEvents.2, rfl, rfl⟩

theorem takeDiagnostics (h : Paired R m m') :
    Paired R m.takeDiagnostics.2 m'.takeDiagnostics.2 := by
  obtain ⟨p, rfl, rfl⟩ := h
  exact ⟨p.takeDiagnostics.2, rfl, rfl⟩

theorem transform {x y : Except MachineError (Machine φ)}
    {q : Except MachineError (Machine { x : φ × φ // R x.1 x.2 })}
    (hx : x = q.map (map (·.1.1))) (hy : y = q.map (map (·.1.2))) :
    (∃ e, x = .error e ∧ y = .error e) ∨ ∃ m m', x = .ok m ∧ y = .ok m' ∧ Paired R m m' := by
  subst hx hy
  cases q with
  | error e => exact .inl ⟨e, rfl, rfl⟩
  | ok q => exact .inr ⟨_, _, rfl, rfl, q, rfl, rfl⟩

theorem start (h : Paired R m m') (bough : String) :
    (∃ e, m.start bough = .error e ∧ m'.start bough = .error e) ∨
      ∃ m₁ m₁', m.start bough = .ok m₁ ∧ m'.start bough = .ok m₁' ∧ Paired R m₁ m₁' := by
  obtain ⟨p, rfl, rfl⟩ := h
  exact transform (start_map _ p bough) (start_map _ p bough)

theorem run {S : σ → τ → Prop} {host : φ → List Value → σ → Option (HostResult × σ)}
    {host' : φ → List Value → τ → Option (HostResult × τ)} {fuel : Nat} {s : σ} {t : τ}
    (h : Paired R m m') (hs : S s t) (hhost : fuel ≠ 0 → ∀ b b' args s t, R b b' → S s t →
      Coincide S (host b args s) (host' b' args t)) :
    Coincide (fun x y => Paired R x.1 y.1 ∧ S x.2 y.2) (m.run host fuel s) (m'.run host' fuel t) := by
  obtain ⟨p, rfl, rfl⟩ := h
  rw [map_run, map_run]
  have hrun := p.run_coincide
    (fun hfuel (b : { x : φ × φ // R x.1 x.2 }) args s t =>
      hhost hfuel b.1.1 b.1.2 args s t b.2) hs
  rcases hrun.cases with ⟨hx, hy⟩ | ⟨ended, ⟨q, s⟩, ⟨q', t⟩, hx, hy, rfl, hs⟩
  · rw [hx, hy]
    exact .none
  · rw [hx, hy]
    exact .some ⟨rfl, ⟨q, rfl, rfl⟩, hs⟩

end Paired

end Machine

end Dialogue
