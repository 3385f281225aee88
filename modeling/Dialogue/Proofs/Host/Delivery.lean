import Dialogue.Proofs.Host.Account

namespace Dialogue

namespace Recorded

open Trace

variable {ε : Type} {i j : Nat} {h : Handle} {s s' s'' : Recorded ε}

structure Advances (s s' : Recorded ε) : Prop where
  grows : s.trace <+: s'.trace
  sound : Sound none s → Calm s'.trace → Sound none s'
  keeps : Sound none s → Calm s'.trace → Keeps s s'

theorem Advances.refl (s : Recorded ε) : Advances s s :=
  ⟨List.prefix_rfl, fun hs _ => hs, fun _ _ => .refl s⟩

theorem Advances.trans (h : Advances s s') (h' : Advances s' s'') : Advances s s'' := by
  refine ⟨h.grows.trans h'.grows, ?_, ?_⟩
  · intro hs hcalm
    exact h'.sound (h.sound hs (hcalm.mono h'.grows)) hcalm
  · intro hs hcalm
    have hcalm' := hcalm.mono h'.grows
    exact (h.keeps hs hcalm').trans (h'.keeps (h.sound hs hcalm') hcalm)

structure Unmoved (s s' : Recorded ε) : Prop extends World.Still s.world s'.world where
  trace : s'.trace = s.trace

namespace Unmoved

theorem status (h : Unmoved s s') (i : Nat) : s'.world.status i = s.world.status i :=
  World.status_congr (by rw [h.instances])

theorem touches (h : Unmoved s s') (i : Nat) : Touches i s s' := by
  refine ⟨h.arena, by rw [h.instances], fun j _ => h.status j, [], ?_⟩
  simp [h.trace]

theorem keeps (h : Unmoved s s') : Keeps s s' := by
  refine ⟨Nat.le_of_eq (by rw [h.instances]), fun i => ?_⟩
  have hstatus := h.status i
  refine ⟨by rw [hstatus], by rw [hstatus], ?_, ?_⟩ <;> simp [h.trace]

theorem sound (h : Unmoved s s') (hs : Sound none s) : Sound none s' := by
  have hstatus := h.status 0
  have haccount : Account 0 (s'.world.status 0) s'.trace := by
    rw [hstatus, h.trace]
    exact hs.accounts 0
  have htaken := hs.taken 0 nofun
  exact ((h.touches 0).sound (hs.open 0) haccount).close (by rw [hstatus, htaken.1])
    (by rw [hstatus, htaken.2])

theorem advances (h : Unmoved s s') : Advances s s' :=
  ⟨h.trace ▸ List.prefix_rfl, fun hs _ => h.sound hs, fun _ _ => h.keeps⟩

end Unmoved

theorem unmoved_answerFlag (s : Recorded ε) (r : Except LibraryError Bool) :
    Unmoved s (s.answerFlag r).2 :=
  ⟨World.still_answer s.world r, rfl⟩

theorem advances_perform {exec : Operation ε → Recorded ε → Option (Reply × Recorded ε)}
    (hexec : ∀ {op s r s'}, exec op s = some (r, s') → Advances s s') {x : HostResult} :
    ∀ (r : Reaction ε) (s : Recorded ε), perform exec r s = some (x, s') → Advances s s'
  | .done v, s => by
    intro hr
    rw [perform] at hr
    cases hr
    exact .refl _
  | .panic message, s => by
    intro hr
    rw [perform] at hr
    cases hr
    exact .refl _
  | .update f next, s => by
    intro hr
    rw [perform] at hr
    have hupdate : Unmoved s (s.update fun w => { w with host := f w.host }) :=
      ⟨⟨rfl, fun _ _ => id⟩, rfl⟩
    exact hupdate.advances.trans (advances_perform hexec next _ hr)
  | .inspect next, s => by
    intro hr
    rw [perform] at hr
    exact advances_perform hexec (next s.world.host) s hr
  | .call op next, s => by
    intro hr
    rw [perform] at hr
    split at hr
    · rename_i r s₁ hop
      exact (hexec hop).trans (advances_perform hexec (next r) s₁ hr)
    · cases hr

theorem touches_note {os : List (Occurrence ε)} (hos : ∀ o ∈ os, o.subject? = some i)
    (hentered : ∀ h j e, .entered j h e ∈ os → .created h j ∈ s.trace) :
    Touches i s (s.note os) :=
  ⟨fun _ _ => id, rfl, fun _ _ => rfl, os, rfl, hos, hentered⟩

theorem sound_note {os : List (Occurrence ε)} (hs : Sound none s)
    (hdispatching : (s.world.status i).dispatching = true) (htouches : Touches i s (s.note os))
    (hdiagnosed : diagnosed i os = []) (hreported : reported i os = []) :
    Sound none (s.note os) := by
  have haccount := hs.accounts i
  have htaken := hs.taken i nofun
  refine (htouches.sound (hs.open i) ?_).close htaken.1 htaken.2
  rw [note_world, note_trace]
  constructor
  · rw [diagnosed_append, reported_append, hdiagnosed, hreported, List.append_nil,
      List.append_nil]
    exact haccount.reports
  · intro hfalse
    rw [hdispatching] at hfalse
    cases hfalse
  · intro hfalse
    rw [hdispatching] at hfalse
    cases hfalse
  · exact haccount.waiting

theorem touches_dispatch (s : Recorded ε) (i : Nat) (b : Bool) :
    Touches i s (s.update (·.dispatch i b)) := by
  refine ⟨fun _ _ => id, by simp [update, World.dispatch, World.modifyInstance], ?_, [], ?_⟩
  · intro j hj
    exact World.status_modifyInstance_ne hj
  · simp [update]

section

variable {inst : Instance ε} (hs : Sound (some i) s) (hinst : s.world.instances[i]? = some inst)

theorem events_collect (s : Recorded ε) (i : Nat) (inst : Instance ε) :
    (s.collect i inst).1 = if inst.dispatching then [] else inst.machine.events := by
  rw [collect_eq, World.collect_events]

theorem world_collect (s : Recorded ε) (i : Nat) (inst : Instance ε) :
    (s.collect i inst).2.world = (s.world.collect i inst).2 := by
  rw [collect_eq]

theorem trace_collect (s : Recorded ε) (i : Nat) (inst : Instance ε) :
    (s.collect i inst).2.trace = s.trace ++ inst.machine.diagnostics.map (.reported i) := by
  rw [collect_eq]

theorem touches_collect (s : Recorded ε) (i : Nat) (inst : Instance ε) :
    Touches i s (s.collect i inst).2 := by
  refine ⟨?_, ?_, ?_, _, trace_collect s i inst, ?_, ?_⟩
  · intro hd j hj
    rwa [world_collect, World.collect_arena] at hj
  · rw [world_collect, World.collect_instances]
    exact List.length_set
  · intro j hj
    rw [world_collect]
    exact World.status_collect_ne hj
  · simp [Occurrence.subject?]
  · simp

include hs hinst

theorem status_collect : (s.collect i inst).2.world.status i =
    ⟨[], [], inst.busy, inst.dispatching⟩ := by
  have hwaiting := (hs.accounts i).waiting
  rw [World.status_of_getElem? hinst] at hwaiting
  rw [world_collect, World.status_collect_self hinst]
  cases hd : inst.dispatching with
  | false => simp [Instance.status, Instance.drained, hd]
  | true =>
    have hevents : inst.machine.events = [] := hwaiting hd
    simp [Instance.status, Instance.drained, hd, hevents]

theorem reports_collect : diagnosed i (s.collect i inst).2.trace =
    reported i (s.collect i inst).2.trace := by
  have hreports := (hs.accounts i).reports
  rw [World.status_of_getElem? hinst, Instance.status] at hreports
  simp [trace_collect, hreports, projections_reported]

theorem outside_collect (hd : inst.dispatching = false) : ¬Inside i (s.collect i inst).2.trace := by
  have houtside := (hs.accounts i).outside
  rw [World.status_of_getElem? hinst] at houtside
  intro hinside
  rw [trace_collect] at hinside
  rcases inside_append hinside with ⟨hinside, -⟩ | ⟨hd, e, hmem⟩
  · exact houtside hd hinside
  · simp at hmem

theorem queued_collect (hd : inst.dispatching = false) : queued i (s.collect i inst).2.trace =
    delivered i (s.collect i inst).2.trace ++ (s.collect i inst).1 := by
  have hdeliveries := (hs.accounts i).deliveries
  rw [World.status_of_getElem? hinst] at hdeliveries
  rw [events_collect, hd]
  simp [trace_collect, hdeliveries hd, projections_reported, delivered, Instance.status]

theorem sound_collect (hempty : (s.collect i inst).1 = []) : Sound none (s.collect i inst).2 := by
  have hstatus := status_collect hs hinst
  refine ((touches_collect s i inst).sound hs ?_).close (by rw [hstatus]) (by rw [hstatus])
  rw [hstatus]
  constructor
  · rw [List.append_nil]
    exact reports_collect hs hinst
  · intro hd
    rw [queued_collect hs hinst hd, hempty]
  · intro hd
    exact outside_collect hs hinst hd
  · exact fun _ => rfl

theorem status_dispatch : ((s.collect i inst).2.update (·.dispatch i true)).world.status i =
    ⟨[], [], inst.busy, true⟩ := by
  have hlength := (touches_collect s i inst).length
  obtain ⟨hi, -⟩ := List.getElem?_eq_some_iff.mp hinst
  change ((s.collect i inst).2.world.dispatch i true).status i = _
  rw [World.status_dispatch_self (by omega), status_collect hs hinst]

theorem sound_dispatch : Sound none ((s.collect i inst).2.update (·.dispatch i true)) := by
  have hstatus := status_dispatch hs hinst
  have htouches := (touches_collect s i inst).trans (touches_dispatch _ i true)
  refine (htouches.sound hs ?_).close (by rw [hstatus]) (by rw [hstatus])
  rw [hstatus]
  constructor
  · rw [List.append_nil]
    exact reports_collect hs hinst
  · exact nofun
  · exact nofun
  · exact fun _ => rfl

theorem keeps_collect : Keeps s (s.collect i inst).2 := by
  have hstatus := status_collect hs hinst
  have hbefore := World.status_of_getElem? hinst
  refine (touches_collect s i inst).keeps ⟨by rw [hstatus, hbefore]; rfl,
    by rw [hstatus, hbefore]; rfl, ?_, ?_⟩
  · simp [trace_collect, projections_reported]
  · simp [trace_collect, projections_reported]

end

structure Delivers (i : Nat) (s s' : Recorded ε) : Prop where
  sound : Sound none s'
  length : s.world.instances.length ≤ s'.world.instances.length
  others : ∀ j, j ≠ i → KeepsAt j s s'
  busy : (s'.world.status i).busy = (s.world.status i).busy
  dispatching : (s'.world.status i).dispatching = true
  all : queued i s'.trace = delivered i s'.trace
  outside : ¬Inside i s'.trace

theorem sound_finish (hd : Delivers i s s') : Sound none (s'.update (·.dispatch i false)) := by
  have hi := World.lt_of_dispatching hd.dispatching
  have haccount := hd.sound.accounts i
  obtain ⟨hevents, hdiagnostics⟩ := hd.sound.taken i nofun
  have hstatus : (s'.update (·.dispatch i false)).world.status i =
      ⟨[], [], (s'.world.status i).busy, false⟩ := by
    rw [← hevents, ← hdiagnostics]
    exact World.status_dispatch_self hi
  have hsound := hd.sound.open i
  refine ((touches_dispatch s' i false).sound hsound ?_).close (by rw [hstatus]) (by rw [hstatus])
  rw [hstatus]
  have hreports := haccount.reports
  rw [hdiagnostics] at hreports
  refine ⟨hreports, ?_, fun _ => hd.outside, fun _ => rfl⟩
  intro _
  rw [List.append_nil]
  exact hd.all

theorem keeps_batch {inst : Instance ε} (hs : Sound (some i) s)
    (hinst : s.world.instances[i]? = some inst) (hd : inst.dispatching = false)
    (hdelivers : Delivers i ((s.collect i inst).2.update (·.dispatch i true)) s') :
    Keeps s (s'.update (·.dispatch i false)) := by
  have hstart := (touches_collect s i inst).trans (touches_dispatch _ i true)
  have hend := touches_dispatch s' i false
  refine ⟨?_, fun j => ?_⟩
  · have hlength := hdelivers.length
    have hlength₁ := hstart.length
    have hlength₂ := hend.length
    omega
  · by_cases hj : j = i
    · subst hj
      have hbefore := World.status_of_getElem? hinst
      have hafter : (s'.update (·.dispatch j false)).world.status j =
          { s'.world.status j with dispatching := false } :=
        World.status_dispatch_self (World.lt_of_dispatching hdelivers.dispatching)
      have hbusy := hdelivers.busy
      rw [status_dispatch hs hinst] at hbusy
      have hidle : (s.world.status j).dispatching = false := by
        rw [hbefore]
        exact hd
      refine .of_idle ?_ hidle (by rw [hafter])
      rw [hafter, hbefore]
      exact hbusy
    · exact (hstart.keepsAt hj).trans ((hdelivers.others j hj).trans (hend.keepsAt hj))

section

variable {perform : Reaction ε → Recorded ε → Option (HostResult × Recorded ε)}

theorem flush_cases {fuel : Nat} (hf : flush perform h i (fuel + 1) s = some s') :
    (s' = s ∧ ∀ inst, s.world.instances[i]? = some inst → inst.busy = true) ∨
    ∃ inst, s.world.instances[i]? = some inst ∧ inst.busy = false ∧
      (((s.collect i inst).1 = [] ∧ s' = (s.collect i inst).2) ∨
        (inst.dispatching = false ∧ ∃ x s₁,
          deliver perform i h (inst.callbacks h) (s.collect i inst).1
            ((s.collect i inst).2.update (·.dispatch i true)) = some (x, s₁) ∧
          ((x = none ∧ flush perform h i fuel (s₁.update (·.dispatch i false)) = some s') ∨
            ∃ message, x = some message ∧
              s' = s₁.update fun w => (w.dispatch i false).abandon h i message))) := by
  rw [flush] at hf
  split at hf
  · rename_i hinst
    cases hf
    exact .inl ⟨rfl, by simp [hinst]⟩
  · rename_i inst hinst
    split at hf
    · rename_i hbusy
      cases hf
      exact .inl ⟨rfl, by simp [hinst, hbusy]⟩
    · rename_i hbusy
      refine .inr ⟨inst, hinst, Bool.eq_false_iff.mpr hbusy, ?_⟩
      have hheld (hd : inst.dispatching = true) : (s.collect i inst).1 = [] := by
        rw [events_collect, hd]
        rfl
      generalize s.collect i inst = taken at hf hheld ⊢
      obtain ⟨events, s₀⟩ := taken
      dsimp only at hf hheld ⊢
      split at hf
      · rename_i hempty
        cases hf
        exact .inl ⟨List.isEmpty_iff.mp hempty, rfl⟩
      · rename_i hne
        have hdispatching : inst.dispatching = false :=
          Bool.eq_false_iff.mpr fun hd => hne (List.isEmpty_iff.mpr (hheld hd))
        refine .inr ⟨hdispatching, ?_⟩
        split at hf
        · cases hf
        · rename_i s₁ hdeliver
          exact ⟨none, s₁, hdeliver, .inl ⟨rfl, hf⟩⟩
        · rename_i message s₁ hdeliver
          cases hf
          exact ⟨some message, s₁, hdeliver, .inr ⟨message, rfl, rfl⟩⟩

variable (hperform : ∀ {r s x s'}, perform r s = some (x, s') → Advances s s')

include hperform

theorem deliver_grows {callback : Event → Reaction ε} {events : List Event}
    {x : Option (Option String)} (hd : deliver perform i h callback events s = some (x, s')) :
    s.trace <+: s'.trace := by
  induction events generalizing s with
  | nil =>
    cases hd
    exact List.prefix_rfl
  | cons e events ih =>
    have hnote : s.trace <+: (s.note [.entered i h e]).trace := List.prefix_append _ _
    rw [deliver] at hd
    split at hd
    · rename_i s₁ hcallback
      have hleft : s₁.trace <+: (s₁.note [.left i]).trace := List.prefix_append _ _
      exact hnote.trans ((hperform hcallback).grows.trans (hleft.trans (ih hd)))
    · rename_i s₁ hcallback
      cases hd
      exact hnote.trans ((hperform hcallback).grows.trans (List.prefix_append _ _))
    · cases hd

theorem deliver_spec {callback : Event → Reaction ε} {events : List Event}
    {x : Option (Option String)} (hd : deliver perform i h callback events s = some (x, s'))
    (hs : Sound none s) (hdispatching : (s.world.status i).dispatching = true)
    (hcreated : .created h i ∈ s.trace) (hqueued : queued i s.trace = delivered i s.trace ++ events)
    (houtside : ¬Inside i s.trace) (hcalm : Calm s'.trace) : x = none ∧ Delivers i s s' := by
  -- What is left of the batch is the invariant: no callback queues anything for the instance.
  induction events generalizing s with
  | nil =>
    cases hd
    rw [List.append_nil] at hqueued
    exact ⟨rfl, hs, Nat.le_refl _, fun j _ => .refl j _, rfl, hdispatching, hqueued, houtside⟩
  | cons e events ih =>
    rw [deliver] at hd
    split at hd
    · rename_i v s₁ hcallback
      have hadvances := hperform hcallback
      have hgrows : (s₁.note [.left i]).trace <+: s'.trace := deliver_grows hperform hd
      have hcalm₁ : Calm s₁.trace := by
        apply hcalm.mono
        exact (List.prefix_append _ _).trans hgrows
      have hentered : Touches i s (s.note [.entered i h e]) := by
        apply touches_note
        · simp [Occurrence.subject?]
        · intro h' j e' hmem
          cases List.mem_singleton.mp hmem
          exact hcreated
      have hs₀ : Sound none (s.note [.entered i h e]) :=
        sound_note hs hdispatching hentered rfl rfl
      have hs₁ := hadvances.sound hs₀ hcalm₁
      have hkeeps := hadvances.keeps hs₀ hcalm₁
      have hdispatching₁ := (hkeeps.each i).dispatching.trans hdispatching
      have hleft : Touches i s₁ (s₁.note [.left i]) := by
        apply touches_note <;> simp [Occurrence.subject?]
      have hs₂ : Sound none (s₁.note [.left i]) := sound_note hs₁ hdispatching₁ hleft rfl rfl
      have hqueued₁ : queued i (s₁.note [.left i]).trace =
          delivered i (s₁.note [.left i]).trace ++ events := by
        have hqueued₀ := (hkeeps.each i).queued hdispatching
        have hinvocations₀ := (hkeeps.each i).invocations hdispatching
        rw [note_trace, queued_append] at hqueued₀
        rw [note_trace, invocations_append] at hinvocations₀
        rw [note_trace, delivered, queued_append, invocations_append, hqueued₀, hinvocations₀,
          hqueued]
        simp [projections_entered, projections_left, delivered]
      have hmem : .created h i ∈ (s₁.note [.left i]).trace := by
        apply List.mem_append_left
        exact hadvances.grows.subset (List.mem_append_left _ hcreated)
      obtain ⟨hx, hrest⟩ := ih hd hs₂ hdispatching₁ hmem hqueued₁ not_inside_left
      refine ⟨hx, hrest.sound, ?_, ?_, ?_, hrest.dispatching, hrest.all, hrest.outside⟩
      · exact Nat.le_trans hkeeps.length hrest.length
      · intro j hj
        have hthere := (hentered.keepsAt hj).trans (hkeeps.each j)
        exact hthere.trans ((hleft.keepsAt hj).trans (hrest.others j hj))
      · exact hrest.busy.trans (hkeeps.each i).busy
    · cases hd
      have hpanic := hcalm (.panicked i) (List.mem_append_right _ (List.mem_singleton_self _))
      cases hpanic
    · cases hd

theorem flush_grows {fuel : Nat} (hf : flush perform h i fuel s = some s') :
    s.trace <+: s'.trace := by
  induction fuel generalizing s with
  | zero => cases hf
  | succ fuel ih =>
    rcases flush_cases hf with ⟨rfl, -⟩ | ⟨inst, -, -, hrest⟩
    · exact List.prefix_rfl
    · rcases hrest with ⟨-, rfl⟩ | ⟨-, x, s₁, hdeliver, hrest⟩
      · exact (touches_collect s i inst).grows
      · have hstart := ((touches_collect s i inst).trans (touches_dispatch _ i true)).grows
        have hbatch := hstart.trans (deliver_grows hperform hdeliver)
        rcases hrest with ⟨-, hf⟩ | ⟨message, -, rfl⟩
        · exact hbatch.trans ((touches_dispatch s₁ i false).grows.trans (ih hf))
        · exact hbatch

theorem flush_spec {fuel : Nat} (hf : flush perform h i fuel s = some s') (hs : Sound (some i) s)
    (hcreated : .created h i ∈ s.trace) (hbusy : (s.world.status i).busy = false)
    (hcalm : Calm s'.trace) : Sound none s' ∧ Keeps s s' := by
  induction fuel generalizing s with
  | zero => cases hf
  | succ fuel ih =>
    rcases flush_cases hf with
      ⟨rfl, hgone⟩ | ⟨inst, hinst, -, ⟨hempty, rfl⟩ | ⟨hd, x, s₁, hbatch⟩⟩
    · have hnone : s'.world.instances[i]? = none := by
        by_contra hne
        obtain ⟨inst, hinst⟩ := Option.ne_none_iff_exists'.mp hne
        rw [World.status_of_getElem? hinst, Instance.status, hgone inst hinst] at hbusy
        cases hbusy
      have hidle : s'.world.status i = .idle := by simp [World.status, hnone]
      exact ⟨hs.close (by rw [hidle]; rfl) (by rw [hidle]; rfl), .refl s'⟩
    · exact ⟨sound_collect hs hinst hempty, keeps_collect hs hinst⟩
    · -- One batch, after which the accounts are sound with the rest of the rounds to come.
      obtain ⟨hdeliver, hrest⟩ := hbatch
      have hend := (touches_dispatch s₁ i false).grows
      have hcalm₁ : Calm s₁.trace := by
        rcases hrest with ⟨-, hf⟩ | ⟨message, -, rfl⟩
        · exact hcalm.mono (hend.trans (flush_grows hperform hf))
        · exact hcalm
      have hstatus := status_dispatch hs hinst
      have hcreated₁ := (touches_collect s i inst).grows.subset hcreated
      obtain ⟨hx, hdelivers⟩ := deliver_spec hperform hdeliver (sound_dispatch hs hinst)
        (by rw [hstatus]) hcreated₁ (queued_collect hs hinst hd) (outside_collect hs hinst hd) hcalm₁
      rcases hrest with ⟨-, hf⟩ | ⟨message, hsome, -⟩
      · have hkeeps := keeps_batch hs hinst hd hdelivers
        have hcreated₂ := (deliver_grows hperform hdeliver).subset hcreated₁
        obtain ⟨hsound, hkeeps'⟩ := ih hf ((sound_finish hdelivers).open i) hcreated₂
          ((hkeeps.each i).busy.trans hbusy)
        exact ⟨hsound, hkeeps.trans hkeeps'⟩
      · cases hx.symm.trans hsome

end

end Recorded

end Dialogue
