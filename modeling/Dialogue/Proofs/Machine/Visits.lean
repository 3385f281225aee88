import Dialogue.Proofs.Machine.History
import Dialogue.Proofs.Machine.Sequence

namespace Dialogue.Machine

variable {φ σ : Type} {c : Container} {m m' m₀ : Machine φ} {es es' : List (Entry φ)} {e : Entry φ}
  {move : Move φ}

def Entry.selected? (e : Entry φ) : Option UInt32 :=
  match e.move with
  | .act (.selectChoice index) =>
    match e.before.selectChoice index with
    | .ok _ => e.before.pending[index]?.map (·.target)
    | .error _ => none
  | _ => none

def selections (es : List (Entry φ)) : List UInt32 := es.filterMap Entry.selected?

def Entry.Offers (choices : List Choice) (e : Entry φ) : Prop :=
  e.after.events = e.before.events ++ [.choices choices]

structure Tally where
  visited : List UInt32
  pending : List Choice
  events : List Event

def tally (m : Machine φ) : Tally := ⟨m.visited, m.pending, m.events⟩

theorem tally_of_standing (h : m'.standing = m.standing) : m'.tally = m.tally := by
  rw [tally, tally, show m'.visited = m.visited from congrArg Standing.visited h,
    show m'.pending = m.pending from congrArg Standing.pending h,
    show m'.events = m.events from congrArg Standing.events h]

inductive Reckons : Option UInt32 → Tally → Tally → Prop
  | keep {t t' : Tally} (visited : t'.visited = t.visited)
    (pending : t'.pending = t.pending ∨ t'.pending = [])
    (events : t'.events = t.events ∨ t'.events = [] ∨
      ∃ event, (∀ cs, event ≠ .choices cs) ∧ t'.events = t.events ++ [event]) : Reckons none t t'
  | offer {t : Tally} (cs : List Choice) (counted : ∀ o ∈ cs, o.visits = t.visited.count o.target) :
    Reckons none t ⟨t.visited, cs, t.events ++ [.choices cs]⟩
  | select {t : Tally} (target : UInt32) :
    Reckons (some target) t ⟨target :: t.visited, [], t.events⟩

variable {selected : Option UInt32} {t t' : Tally} {cs : List Choice}

theorem Reckons.visited_eq (h : Reckons selected t t') :
    t'.visited = selected.toList ++ t.visited := by
  cases h with
  | keep visited => exact visited
  | offer | select => rfl

theorem Reckons.counted (h : Reckons selected t t') (hcs : t'.events = t.events ++ [.choices cs]) :
    ∀ o ∈ cs, o.visits = t.visited.count o.target := by
  cases h with
  | keep _ _ events =>
    rcases events with hsame | hnone | ⟨event, hquiet, hevent⟩
    · simp [hsame] at hcs
    · simp [hnone] at hcs
    · rw [hevent] at hcs
      have hlast := List.append_cancel_left hcs
      exact absurd (List.cons_eq_cons.mp hlast).1 (hquiet cs)
  | offer cs' counted =>
    cases List.append_cancel_left hcs
    exact counted
  | select target => simp at hcs

theorem Reckons.queued (h : Reckons selected t t') (hcs : Event.choices cs ∈ t'.events) :
    Event.choices cs ∈ t.events ∨ t'.events = t.events ++ [.choices cs] := by
  cases h with
  | keep _ _ events =>
    left
    rcases events with hsame | hnone | ⟨event, hquiet, hevent⟩
    · rwa [hsame] at hcs
    · simp [hnone] at hcs
    · rw [hevent, List.mem_append, List.mem_singleton] at hcs
      exact hcs.resolve_right fun heq => hquiet cs heq.symm
  | offer cs' counted =>
    refine (List.mem_append.mp hcs).imp_right fun hlast => ?_
    rw [List.mem_singleton.mp hlast]
  | select target => exact .inl hcs

theorem Reckons.pending_counted (h : Reckons selected t t')
    (hpending : ∀ o ∈ t.pending, o.visits = t.visited.count o.target) :
    ∀ o ∈ t'.pending, o.visits = t'.visited.count o.target := by
  cases h with
  | keep visited pending =>
    rcases pending with hsame | hnone
    · rwa [hsame, visited]
    · simp [hnone]
  | offer cs' counted => exact counted
  | select target => nofun

theorem Reckons.refl (t : Tally) : Reckons none t t := .keep rfl (.inl rfl) (.inl rfl)

theorem reckons_of_tally (h : m'.tally = m.tally) : Reckons none m.tally m'.tally := by
  rw [h]
  exact .refl _

theorem reckons_assign {index : UInt32} {v : Value} (h : m.assign index v = .ok m') :
    Reckons none m.tally m'.tally := by
  rcases assign_cases h with rfl | ⟨e, rfl⟩ | ⟨g, -, -, -, rfl⟩
  · exact .refl _
  · exact .refl _
  · refine .keep rfl (.inl rfl) ?_
    cases hobserved : g.observed with
    | true => exact .inr (.inr ⟨.changed g.symbol.name v, nofun, rfl⟩)
    | false => exact .inl (List.append_nil _)

theorem reckons_receive {ip : Nat} {dest : Option UInt32} {v : Value}
    (h : m.receive ip dest v = .ok m') : Reckons none m.tally m'.tally := by
  rcases receive_cases h with rfl | ⟨index, hassign⟩
  · exact .refl _
  · exact reckons_assign hassign

theorem Settles.reckons {s : Step φ} (h : Settles m s) :
    Reckons none m.tally s.machine.tally := by
  cases h with
  | skip | fault => exact .refl _
  | assign h => exact reckons_assign h

theorem Performs.reckons {s : Step φ} (h : Performs m s) :
    Reckons none m.tally s.machine.tally := by
  cases h with
  | settle h | report h => exact h.reckons
  | stop | jump | call => exact .refl _
  | line l => exact .keep rfl (.inl rfl) (.inr (.inr ⟨.line l, nofun, rfl⟩))
  | offer =>
    refine .offer _ fun o ho => ?_
    obtain ⟨option, -, rfl⟩ := List.mem_map.mp ho
    rfl

theorem reckons_step (m : Machine φ) : Reckons none m.tally m.step.machine.tally := by
  rcases step_cases m with h | ⟨i, next, -, h⟩
  · exact h.reckons
  · exact h.reckons

theorem reckons_answer {m₁ : Machine φ} {k : HostCall φ} {v : Value} (hcall : m.step = .call m₁ k)
    (hresult : m₁.receive k.ip k.dest v = .ok m') : Reckons none m.tally m'.tally := by
  obtain ⟨ip, rfl⟩ := exists_of_step_call hcall
  have hreckons := reckons_receive hresult
  exact hreckons

theorem reckons_selectChoice {index : Nat} (h : (Move.act (.selectChoice index)).Leads m m') :
    Reckons (Entry.selected? ⟨m, .act (.selectChoice index), m'⟩) m.tally m'.tally := by
  obtain ⟨ended, h⟩ := h
  rcases (returns_eq_some h).1 with ⟨hselect, -⟩ | ⟨cause, hrefused, -, rfl⟩
  · obtain ⟨-, o, ho, hm'⟩ := selectChoice_eq_ok hselect
    simp only [Entry.selected?, hselect, ho, Option.map_some]
    rw [hm']
    exact .select o.target
  · simp only [Entry.selected?, hrefused]
    exact .refl _

theorem Move.Leads.reckons (h : move.Leads m m') :
    Reckons (Entry.selected? ⟨m, move, m'⟩) m.tally m'.tally := by
  cases move with
  | step =>
    obtain ⟨-, rfl⟩ := h
    exact reckons_step m
  | answer v =>
    obtain ⟨-, m₁, k, hcall, hresult⟩ := h
    exact reckons_answer hcall hresult
  | act a =>
    have hreturns {r : Except MachineError (Machine φ)} {ended : RunEnd}
        (hok : ∀ m', r = .ok m' → Reckons none m.tally m'.tally)
        (h : m.returns () r = some (ended, m', ())) : Reckons none m.tally m'.tally :=
      of_returns (P := fun m' => Reckons none m.tally m'.tally) (.refl _) hok h
    cases a with
    | selectChoice index => exact reckons_selectChoice h
    | run =>
      cases h.eq_of_run
      exact .refl _
    | start bough =>
      obtain ⟨ended, h⟩ := h
      refine hreturns (fun m' h => ?_) h
      obtain ⟨b, -, rfl⟩ := start_eq_ok h
      exact .keep rfl (.inr rfl) (.inl rfl)
    | selectContinue =>
      obtain ⟨ended, h⟩ := h
      refine hreturns (fun m' h => ?_) h
      obtain ⟨-, rfl⟩ := selectContinue_eq_ok h
      exact .refl _
    | setExtern name v =>
      obtain ⟨ended, h⟩ := h
      exact hreturns (fun _ h => reckons_of_tally (tally_of_standing (standing_setExtern h))) h
    | setFunction name arity body =>
      obtain ⟨ended, h⟩ := h
      exact hreturns (fun _ h => reckons_of_tally (tally_of_standing (standing_setFunction h))) h
    | subscribe name =>
      obtain ⟨ended, h⟩ := h
      exact hreturns (fun _ h => reckons_of_tally (tally_of_standing (standing_subscribe h))) h
    | value name =>
      obtain ⟨ended, h⟩ := h
      refine hreturns (fun _ h => ?_) h
      obtain ⟨_, -, rfl⟩ := Except.map_eq_ok_iff.mp h
      exact .refl _
    | unsubscribe name =>
      obtain ⟨ended, h⟩ := h
      cases h
      rcases unsubscribe_cases m name with h | ⟨g, -, h⟩ <;> rw [h] <;> exact .refl _
    | load saved =>
      obtain ⟨ended, h⟩ := h
      cases h
      exact reckons_of_tally (tally_of_standing (standing_loadEntries m saved.entries))
    | halt =>
      obtain ⟨ended, h⟩ := h
      cases h
      exact .keep rfl (.inr rfl) (.inl rfl)
    | takeEvents =>
      obtain ⟨ended, h⟩ := h
      cases h
      exact .keep rfl (.inl rfl) (.inr (.inl rfl))
    | declareEnum | save | takeDiagnostics =>
      obtain ⟨ended, h⟩ := h
      cases h
      exact .refl _

theorem History.visited (h : History m₀ es m) :
    m.visited = (selections es).reverse ++ m₀.visited := by
  induction h with
  | nil => rfl
  | @snoc es m m' move _ leads ih =>
    have hvisited : m'.visited = _ ++ m.visited := leads.reckons.visited_eq
    rw [hvisited, ih, selections, selections, List.filterMap_append, List.filterMap_cons]
    cases Entry.selected? ⟨m, move, m'⟩ <;> simp

theorem History.count (h : History (create c) es m) (target : UInt32) :
    m.visited.count target = (selections es).count target := by
  rw [h.visited, List.count_append, List.count_reverse]
  rfl

theorem History.queued {cs : List Choice} (h : History (create c) es m)
    (hcs : Event.choices cs ∈ m.events) : ∃ e ∈ es, e.Offers cs := by
  induction h with
  | nil => cases hcs
  | @snoc es m m' move _ leads ih =>
    rcases leads.reckons.queued hcs with hearlier | hoffer
    · obtain ⟨e, he, hoffers⟩ := ih hearlier
      exact ⟨e, List.mem_append_left _ he, hoffers⟩
    · exact ⟨⟨m, move, m'⟩, List.mem_append_right _ (List.mem_singleton_self _), hoffer⟩

theorem History.pending_counted (h : History (create c) es m) :
    ∀ o ∈ m.pending, o.visits = m.visited.count o.target := by
  induction h with
  | nil => nofun
  | snoc _ leads ih => exact leads.reckons.pending_counted ih

structure Counted (es : List (Entry φ)) (m : Machine φ) : Prop where
  offered : ∀ {es₁ e es₂ cs}, es = es₁ ++ e :: es₂ → e.Offers cs →
    ∀ o ∈ cs, o.visits = (selections es₁).count o.target ∧ o.visits < UInt32.size
  /-- The host hears of no other choices. -/
  queued : ∀ {cs}, Event.choices cs ∈ m.events → ∃ e ∈ es, e.Offers cs
  /-- What is on offer was offered after the last selection. -/
  pending : ∀ o ∈ m.pending, o.visits = (selections es).count o.target ∧ o.visits < UInt32.size
  /-- Whatever is done but to select an option changes no count, nor does a selection that the
  machine refuses. -/
  kept : ∀ e ∈ es, e.selected? = none → e.after.visited = e.before.visited
  /-- The history goes on with all that is done with the machine. -/
  acts : ∀ {σ : Type} {host : φ → List Value → σ → Option (HostResult × σ)} {fuel : Nat} {s s' : σ}
    {a : Act φ} {ended : RunEnd} {m'}, a.perform host fuel m s = some (ended, m', s') →
    (Move.act a).Leads m m' ∨
      a = .run ∧ m.state = .running ∧ ∃ es', History m es' m' ∧ ∀ e ∈ es', e.move.ofRun

theorem counted_of_history (h : History (create c) es m)
    (hfew : (selections es).length < UInt32.size) : Counted es m := by
  refine ⟨?_, h.queued, fun o ho => ?_, fun e he hnone => ?_, exists_history_perform⟩
  · rintro es₁ e es₂ cs rfl hoffers o ho
    obtain ⟨hbefore, hleads⟩ := h.split
    have hvisits : o.visits = e.before.visited.count o.target :=
      hleads.reckons.counted hoffers o ho
    rw [hbefore.count] at hvisits
    have hcount : (selections es₁).count o.target ≤ (selections es₁).length :=
      List.count_le_length
    have hlength : (selections es₁).length ≤ (selections (es₁ ++ e :: es₂)).length := by
      rw [selections, selections, List.filterMap_append, List.length_append]
      exact Nat.le_add_right _ _
    exact ⟨hvisits, by omega⟩
  · have hvisits := h.pending_counted o ho
    rw [h.count] at hvisits
    have hcount : (selections es).count o.target ≤ (selections es).length := List.count_le_length
    exact ⟨hvisits, by omega⟩
  · obtain ⟨es₁, es₂, rfl⟩ := List.append_of_mem he
    have hvisited := h.split.2.reckons.visited_eq
    rw [show Entry.selected? ⟨e.before, e.move, e.after⟩ = none from hnone] at hvisited
    exact hvisited

def round : List Builder.Call :=
  [.bough "main", .label, .label, .bind 0, .choices [("Again", 0), ("Enough", 1)], .bind 1, .stop]

theorem counted_round : ∃ (c : Container) (es : List (Entry Unit)) (m : Machine Unit),
    History (create c) es m ∧ (selections es).length < UInt32.size ∧ Counted es m ∧
      ∃ again enough, m.pending = [again, enough] ∧ again.visits = 1 ∧
        (selections es).count again.target = 1 ∧ (selections es).count enough.target = 0 := by
  let c := Builder.assembled .offset round 86
  have hplay : ((create c : Machine Unit).start "main").bind (fun m =>
      (m.step.machine.selectChoice 0).map fun m' =>
        (m.state, m'.state, m'.step.machine.pending.map fun o => (o.content, o.visits))) =
          .ok (.running, .running, [("Again", 1), ("Enough", 0)]) := by
    decide +kernel
  obtain ⟨m₁, hstart, hplay⟩ := Except.bind_eq_ok_iff.mp hplay
  obtain ⟨m₂, hselect, hplay⟩ := Except.map_eq_ok_iff.mp hplay
  simp only [Prod.mk.injEq] at hplay
  obtain ⟨hrunning, hrunning', hpending⟩ := hplay
  let es : List (Entry Unit) := [⟨create c, .act (.start "main"), m₁⟩, ⟨m₁, .step, m₁.step.machine⟩,
    ⟨m₁.step.machine, .act (.selectChoice 0), m₂⟩, ⟨m₂, .step, m₂.step.machine⟩]
  have hhistory : History (create c) es m₂.step.machine := by
    refine .cons ⟨.paused, ?_⟩ (.cons ⟨hrunning.symm, rfl⟩
      (.cons ⟨.paused, ?_⟩ (.single ⟨hrunning'.symm, rfl⟩)))
    · rw [Act.perform, hstart]
      rfl
    · rw [Act.perform, hselect]
      rfl
  have hlength : (selections es).length ≤ 4 := List.length_filterMap_le _ _
  have hfew : (selections es).length < UInt32.size := Nat.lt_of_le_of_lt hlength (by decide)
  have hcounted := counted_of_history hhistory hfew
  obtain ⟨again, rest, hcons, hagain, hrest⟩ := List.map_eq_cons_iff.mp hpending.symm
  obtain ⟨enough, rest, rfl, henough, hrest⟩ := List.map_eq_cons_iff.mp hrest
  cases List.map_eq_nil_iff.mp hrest
  simp only [Prod.mk.injEq] at hagain henough
  have hcount := (hcounted.pending again (by simp [hcons])).1
  have hcount' := (hcounted.pending enough (by simp [hcons])).1
  refine ⟨c, es, _, hhistory, hfew, hcounted, again, enough, hcons, hagain.2, ?_, ?_⟩
  · rw [← hcount, hagain.2]
  · rw [← hcount', henough.2]

end Dialogue.Machine
