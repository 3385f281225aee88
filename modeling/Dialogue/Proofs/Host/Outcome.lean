import Dialogue.Proofs.Host.History
import Dialogue.Proofs.Machine.Transition

/-!
What the answer to a run says of its machine. A run is answered before its events are delivered, so
that the answer `true` may come from a machine that has faulted: just when a callback for it has
panicked meanwhile.
-/

namespace Dialogue

variable {ε : Type}

namespace Occurrence

def isPanicOf (i : Nat) : Occurrence ε → Bool
  | panicked j => j == i
  | _ => false

end Occurrence

namespace Trace

variable {i : Nat} {t os : List (Occurrence ε)}

def panics (i : Nat) (t : List (Occurrence ε)) : Nat := t.countP (·.isPanicOf i)

@[simp] theorem panics_append : panics i (t ++ os) = panics i t + panics i os :=
  List.countP_append

theorem panics_eq_zero (h : ∀ o ∈ os, o.isPanicOf i = false) : panics i os = 0 := by
  rw [panics, List.countP_eq_zero]
  intro o ho
  rw [h o ho]
  simp

theorem panics_panicked (i j : Nat) :
    panics i [(.panicked j : Occurrence ε)] = if j = i then 1 else 0 := by
  simp [panics, Occurrence.isPanicOf, List.countP_singleton]

theorem panics_of_subject (h : ∀ o ∈ os, o.subject? ≠ none) : panics i os = 0 := by
  refine panics_eq_zero fun o ho => ?_
  cases o with
  | panicked j => exact absurd rfl (h _ ho)
  | _ => rfl

end Trace

theorem Operation.change?_faulted {op : Operation ε} {c : Change ε} (hc : op.change? = some c)
    {m m' : HostMachine ε} {r : Reply} (h : c.apply m = .ok (r, m')) (hm : m.state ≠ .faulted) :
    m'.state ≠ .faulted := by
  have hstays (h : Machine.Stays m m') : m'.state ≠ .faulted := h.state ▸ hm
  cases op <;> cases hc
  case unsubscribe h' name =>
    cases h
    exact hstays (Machine.stays_unsubscribe m name)
  case declareEnum | save =>
    cases h
    exact hm
  case load h' snapshot =>
    cases h
    exact hstays (Machine.stays_of_standing (Machine.standing_loadEntries m snapshot.entries))
  all_goals
    obtain ⟨m₁, h₁, heq⟩ := Except.map_eq_ok_iff.mp h
    cases heq
  case selectContinue h' =>
    obtain ⟨-, rfl⟩ := Machine.selectContinue_eq_ok h₁
    simp
  case selectChoice h' index =>
    obtain ⟨-, o, -, rfl⟩ := Machine.selectChoice_eq_ok h₁
    simp
  case subscribe h' name => exact hstays (Machine.stays_of_standing (Machine.standing_subscribe h₁))
  case setExtern h' name v => exact hstays (Machine.stays_of_standing (Machine.standing_setExtern h₁))
  case setFunction h' name arity body =>
    exact hstays (Machine.stays_of_standing (Machine.standing_setFunction h₁))

theorem Machine.not_faulted_of_paused {φ σ : Type}
    {host : φ → List Value → σ → Option (HostResult × σ)} {fuel : Nat} {m m' : Machine φ} {s s' : σ}
    (h : m.run host fuel s = some (.paused, m', s')) : m'.state ≠ .faulted := by
  have hsettled (hm : m'.state = .finished ∨ m'.isWaiting = true) : m'.state ≠ .faulted := by
    rintro hfaulted
    rcases hm with hm | hm
    · rw [hfaulted] at hm
      cases hm
    · obtain ⟨kind, hkind⟩ := isWaiting_iff.mp hm
      rw [hfaulted] at hkind
      cases hkind
  rcases perform_run h with ⟨-, hm⟩ | hwaiting
  · exact hsettled hm
  · rw [run_of_isWaiting hwaiting] at h
    cases h
    exact hsettled (.inr hwaiting)

namespace Recorded

open Trace

variable {i j : Nat} {h : Handle} {s s' s'' : Recorded ε} {inst : Instance ε}

/-- The instance goes on with what it does, unharmed, and no callback of it panics. -/
structure Serves (i : Nat) (inst : Instance ε) (s s' : Recorded ε) : Prop where
  stands : ∃ inst', s'.world.instances[i]? = some inst' ∧ inst'.busy = inst.busy ∧
    inst'.dispatching = inst.dispatching ∧
    (inst.machine.state ≠ .faulted → inst'.machine.state ≠ .faulted)
  panics : panics i s'.trace = panics i s.trace

def Spares (i : Nat) (s s' : Recorded ε) : Prop :=
  ∀ inst, s.world.instances[i]? = some inst → inst.busy = true ∨ inst.dispatching = true →
    Serves i inst s s'

theorem Spares.trans (h : Spares i s s') (h' : Spares i s' s'') : Spares i s s'' := by
  intro inst hinst hengaged
  obtain ⟨⟨inst', hinst', hbusy, hdispatching, hstate⟩, hpanics⟩ := h inst hinst hengaged
  rw [← hbusy, ← hdispatching] at hengaged
  obtain ⟨⟨inst'', hinst'', hbusy', hdispatching', hstate'⟩, hpanics'⟩ := h' inst' hinst' hengaged
  exact ⟨⟨inst'', hinst'', hbusy'.trans hbusy, hdispatching'.trans hdispatching,
    fun hinst => hstate' (hstate hinst)⟩, hpanics'.trans hpanics⟩

theorem spares_of_same (hinstance : s'.world.instances[i]? = s.world.instances[i]?)
    (hpanics : panics i s'.trace = panics i s.trace) : Spares i s s' :=
  fun inst hinst _ => ⟨⟨inst, hinstance.trans hinst, rfl, rfl, id⟩, hpanics⟩

theorem Spares.refl (i : Nat) (s : Recorded ε) : Spares i s s := spares_of_same rfl rfl

theorem Unmoved.spares (h : Unmoved s s') (i : Nat) : Spares i s s' :=
  spares_of_same (by rw [h.instances]) (by rw [h.trace])

theorem spares_note {os : List (Occurrence ε)} (hos : panics i os = 0) (s : Recorded ε) :
    Spares i s (s.note os) :=
  spares_of_same rfl (by simp [hos])

theorem spares_dispatch (hj : i ≠ j) (s : Recorded ε) (b : Bool) :
    Spares i s (s.update (·.dispatch j b)) :=
  spares_of_same (by simp [update, World.dispatch, World.modifyInstance, hj.symm]) rfl

theorem panics_collect (s : Recorded ε) (j : Nat) (inst : Instance ε) :
    panics i (s.collect j inst).2.trace = panics i s.trace := by
  rw [trace_collect, panics_append, Nat.add_eq_left]
  refine panics_of_subject fun o ho => ?_
  obtain ⟨e, -, rfl⟩ := List.mem_map.mp ho
  exact nofun

theorem instances_collect (s : Recorded ε) (j : Nat) (inst : Instance ε) :
    (s.collect j inst).2.world.instances = s.world.instances.set j inst.drained := by
  rw [world_collect, World.collect_instances]
  rfl

theorem spares_collect (hinst : s.world.instances[j]? = some inst) (i : Nat) :
    Spares i s (s.collect j inst).2 := by
  by_cases hj : i = j
  · subst hj
    intro inst₀ hinst₀ _
    rw [hinst, Option.some.injEq] at hinst₀
    subst hinst₀
    have hi := (List.getElem?_eq_some_iff.mp hinst).1
    refine ⟨⟨inst.drained, ?_, rfl, rfl, id⟩, panics_collect s i inst⟩
    rw [instances_collect, List.getElem?_set_self hi]
  · refine spares_of_same ?_ (panics_collect s j inst)
    rw [instances_collect, List.getElem?_set_ne (Ne.symm hj)]

theorem panics_additions (i j : Nat) (m m' : HostMachine ε) : panics i (additions j m m') = 0 :=
  panics_of_subject fun o ho => by simp [subject_additions ho]

theorem spares_store {m : HostMachine ε} (hinst : s.world.instances[j]? = some inst)
    (hm : inst.machine.state ≠ .faulted → m.state ≠ .faulted) (i : Nat) :
    Spares i s (s.store j inst m) := by
  have hpanics : panics i (s.store j inst m).trace = panics i s.trace := by
    simp [store, panics_additions]
  by_cases hj : i = j
  · subst hj
    intro inst₀ hinst₀ _
    rw [hinst, Option.some.injEq] at hinst₀
    subst hinst₀
    have hi := (List.getElem?_eq_some_iff.mp hinst).1
    refine ⟨⟨{ inst with machine := m }, ?_, rfl, rfl, hm⟩, hpanics⟩
    simp [store, update, World.setInstance, hi]
  · refine spares_of_same ?_ hpanics
    simp [store, update, World.setInstance, Ne.symm hj]

theorem spares_perform {exec : Operation ε → Recorded ε → Option (Reply × Recorded ε)}
    (hexec : ∀ {op s r s'}, exec op s = some (r, s') → Spares i s s') {x : HostResult} :
    ∀ (r : Reaction ε) (s : Recorded ε), perform exec r s = some (x, s') → Spares i s s'
  | .done v, s => by
    intro hr
    rw [perform] at hr
    cases hr
    exact .refl i _
  | .panic message, s => by
    intro hr
    rw [perform] at hr
    cases hr
    exact .refl i _
  | .update f next, s => by
    intro hr
    rw [perform] at hr
    have hupdate : Spares i s (s.update fun w => { w with host := f w.host }) :=
      spares_of_same rfl rfl
    exact hupdate.trans (spares_perform hexec next _ hr)
  | .inspect next, s => by
    intro hr
    rw [perform] at hr
    exact spares_perform hexec (next s.world.host) s hr
  | .call op next, s => by
    intro hr
    rw [perform] at hr
    split at hr
    · rename_i r s₁ hop
      exact (hexec hop).trans (spares_perform hexec (next r) s₁ hr)
    · cases hr

section

variable {perform : Reaction ε → Recorded ε → Option (HostResult × Recorded ε)}
variable (hperform : ∀ {r s x s'}, perform r s = some (x, s') → Spares i s s')

include hperform

theorem spares_deliver {callback : Event → Reaction ε} {events : List Event}
    {x : Option (Option String)} (hd : deliver perform j h callback events s = some (x, s')) :
    ∃ s₁, Spares i s s₁ ∧ (x = none ∧ s' = s₁ ∨ x ≠ none ∧ s' = s₁.note [.panicked j]) := by
  induction events generalizing s with
  | nil =>
    cases hd
    exact ⟨_, .refl i _, .inl ⟨rfl, rfl⟩⟩
  | cons e events ih =>
    have hentered : Spares i s (s.note [.entered j h e]) :=
      spares_note (panics_of_subject (by simp [Occurrence.subject?])) s
    rw [deliver] at hd
    split at hd
    · rename_i v s₁ hcallback
      have hleft : Spares i s₁ (s₁.note [.left j]) :=
        spares_note (panics_of_subject (by simp [Occurrence.subject?])) s₁
      obtain ⟨s₂, hrest, hend⟩ := ih hd
      exact ⟨s₂, hentered.trans ((hperform hcallback).trans (hleft.trans hrest)), hend⟩
    · rename_i message s₁ hcallback
      cases hd
      exact ⟨s₁, hentered.trans (hperform hcallback), .inr ⟨Option.some_ne_none _, rfl⟩⟩
    · cases hd

theorem spares_flush {fuel : Nat} (hf : flush perform h j fuel s = some s') : Spares i s s' := by
  induction fuel generalizing s with
  | zero => cases hf
  | succ fuel ih =>
    rcases flush_cases hf with
      ⟨rfl, -⟩ | ⟨inst, hinst, hbusy, ⟨-, rfl⟩ | ⟨hidle, x, s₁, hdeliver, hrest⟩⟩
    · exact .refl i _
    · exact spares_collect hinst i
    · by_cases hj : i = j
      · -- An instance with events to deliver is not engaged.
        subst hj
        intro inst₀ hinst₀ hengaged
        rw [hinst, Option.some.injEq] at hinst₀
        subst hinst₀
        rw [hbusy, hidle] at hengaged
        simp at hengaged
      · obtain ⟨s₂, hspares, hend⟩ := spares_deliver hperform hdeliver
        have hnote : Spares i s₂ (s₂.note [.panicked j]) :=
          spares_note (by rw [panics_panicked, if_neg (Ne.symm hj)]) s₂
        have hbatch : Spares i s s₁ := by
          refine (spares_collect hinst i).trans ((spares_dispatch hj _ true).trans ?_)
          rcases hend with ⟨-, rfl⟩ | ⟨-, rfl⟩
          · exact hspares
          · exact hspares.trans hnote
        apply hbatch.trans
        rcases hrest with ⟨-, hf⟩ | ⟨message, -, rfl⟩
        · exact (spares_dispatch hj s₁ false).trans (ih hf)
        · refine spares_of_same ?_ rfl
          simp [update, World.abandon, World.dispatch, World.modifyInstance, Ne.symm hj]

theorem spares_change {fuel : Nat} {op : Operation ε} {c : Change ε} {r : Reply}
    (hc : op.change? = some c) (hr : change perform fuel c s = some (r, s')) : Spares i s s' := by
  unfold change at hr
  split at hr
  · cases hr
    exact (unmoved_report s _ _).spares i
  · rename_i j inst hfind
    obtain ⟨-, hinst⟩ := World.find_eq_ok hfind
    split at hr
    · cases hr
      exact (unmoved_report s _ _).spares i
    · split at hr
      · rename_i r m happly
        obtain ⟨s₁, hflush, hr⟩ := Option.map_eq_some_iff.mp hr
        cases hr
        exact (spares_store hinst (Operation.change?_faulted hc happly) i).trans
          (spares_flush hperform hflush)
      · obtain ⟨s₁, hflush, hr⟩ := Option.map_eq_some_iff.mp hr
        cases hr
        exact (spares_flush hperform hflush).trans ((unmoved_report s₁ _ _).spares i)

theorem spares_drive {fuel : Nat} {operation : String} {r : Reply}
    {f : Nat → Instance ε → Recorded ε → Option (Except LibraryError Bool × Recorded ε)}
    (hstep : ∀ {j inst s r s₁}, s.world.instances[j]? = some inst → i ≠ j →
      f j inst s = some (r, s₁) → Spares i s s₁)
    (hr : drive perform fuel operation h f s = some (r, s')) : Spares i s s' := by
  unfold drive at hr
  split at hr
  · cases hr
    exact (unmoved_report s _ _).spares i
  · rename_i j inst hfind
    obtain ⟨-, hinst⟩ := World.find_eq_ok hfind
    split at hr
    · cases hr
      exact (unmoved_report s _ _).spares i
    · rename_i hidle
      split at hr
      · cases hr
        exact (unmoved_report s _ _).spares i
      · rename_i hbusy
        split at hr
        · cases hr
        · rename_i r s₁ hf
          obtain ⟨s₂, hflush, hr⟩ := Option.map_eq_some_iff.mp hr
          cases hr
          by_cases hj : i = j
          · subst hj
            intro inst₀ hinst₀ hengaged
            rw [hinst, Option.some.injEq] at hinst₀
            subst hinst₀
            exact absurd hengaged (by simp [hidle, hbusy])
          · exact (hstep hinst hj hf).trans ((spares_flush hperform hflush).trans
              ((unmoved_answerFlag s₂ r).spares i))

theorem spares_runInstance {fuel : Nat} {r : Except LibraryError Bool} (hj : i ≠ j)
    (hr : runInstance perform fuel j inst s = some (r, s')) : Spares i s s' := by
  unfold runInstance at hr
  split at hr
  · cases hr
  · rename_i ended m s₁ hrun
    cases hr
    have hoccupy : Spares i s (s.occupy j inst) :=
      spares_of_same (by simp [occupy, update, World.setInstance, Ne.symm hj]) rfl
    have hhost : Spares i (s.occupy j inst) s₁ :=
      Machine.run_induction (Spares.refl i) Spares.trans (fun hhost => hperform hhost) hrun
    refine hoccupy.trans (hhost.trans (spares_of_same ?_ ?_))
    · simp [vacate, update, World.modifyInstance, Ne.symm hj]
    · simp [vacate, panics_additions]

end

theorem spares_create (s : Recorded ε) (bytes : Bytes) (callbacks : Handle → Event → Reaction ε)
    (i : Nat) : Spares i s (s.create bytes callbacks).2 := by
  unfold create World.open?
  cases Container.parse bytes with
  | error e => exact Unmoved.spares ⟨World.still_report s.world _ _, List.append_nil _⟩ i
  | ok c =>
    intro inst hinst _
    have hi := (List.getElem?_eq_some_iff.mp hinst).1
    refine ⟨⟨inst, ?_, rfl, rfl, id⟩, ?_⟩
    · simpa [update, List.getElem?_append_left hi] using hinst
    · have hcreated (h : Handle) (j : Nat) : panics i [(.created h j : Occurrence ε)] = 0 := rfl
      simp [hcreated]

theorem spares_exec {fuel : Nat} {op : Operation ε} {r : Reply}
    (hr : exec fuel op s = some (r, s')) : Spares i s s' := by
  -- The operations within this one have less fuel.
  induction fuel generalizing op s r s' with
  | zero => cases hr
  | succ fuel ih =>
    have hperform {r : Reaction ε} {s s' : Recorded ε} {x : HostResult}
        (h : Recorded.perform (exec fuel) r s = some (x, s')) : Spares i s s' :=
      spares_perform (fun hop => ih hop) r s h
    rw [exec] at hr
    obtain ⟨⟨r₁, s₁⟩, henact, heq⟩ := Option.map_eq_some_iff.mp hr
    cases heq
    refine Spares.trans ?_ (spares_note (panics_eq_zero (by simp [Occurrence.isPanicOf])) s₁)
    rcases op.kinds with ⟨bytes, callbacks, rfl⟩ | ⟨h, bough, rfl⟩ | ⟨h, rfl⟩ | ⟨c, hc⟩ | hquiet
    · have hcreate := spares_create s bytes callbacks i
      rw [Option.some.inj henact] at hcreate
      exact hcreate
    · refine spares_drive hperform (fun {j inst s r s₁} hinst hj hf => ?_) henact
      unfold startInstance at hf
      split at hf
      · rename_i m hstart
        cases hf
        refine spares_store hinst (fun _ => ?_) i
        obtain ⟨b, -, rfl⟩ := Machine.start_eq_ok hstart
        simp
      · cases hf
        exact .refl i s
    · have hrun : drive (Recorded.perform (exec fuel)) fuel "run" h
          (runInstance (Recorded.perform (exec fuel)) fuel) s = some (r, s₁) := henact
      exact spares_drive hperform (fun _ hj hf => spares_runInstance hperform hj hf) hrun
    · rw [enact_change hc] at henact
      exact spares_change hperform hc henact
    · rw [enact_quiet hquiet] at henact
      obtain ⟨⟨r', w⟩, hexec, heq⟩ := Option.map_eq_some_iff.mp henact
      cases heq
      have hunmoved : Unmoved s (s.update fun _ => w) := ⟨World.exec_quiet hquiet hexec, rfl⟩
      exact hunmoved.spares i

theorem drive_eq_true {perform : Reaction ε → Recorded ε → Option (HostResult × Recorded ε)}
    {fuel : Nat} {operation : String}
    {f : Nat → Instance ε → Recorded ε → Option (Except LibraryError Bool × Recorded ε)}
    (hr : drive perform fuel operation h f s = some (.flag true, s')) :
    ∃ i inst s₁, s.world.find h = .ok (i, inst) ∧ f i inst s = some (.ok true, s₁) ∧
      flush perform h i fuel s₁ = some s' := by
  unfold drive at hr
  split at hr
  · cases hr
  · rename_i i inst hfind
    split at hr
    · cases hr
    · split at hr
      · cases hr
      · split at hr
        · cases hr
        · rename_i r s₁ hstep
          obtain ⟨s₂, hflush, hr⟩ := Option.map_eq_some_iff.mp hr
          cases r with
          | error e => cases hr
          | ok b =>
            cases hr
            exact ⟨i, inst, s₁, hfind, hstep, hflush⟩

def Tells (i : Nat) (s s' : Recorded ε) : Prop :=
  ∃ inst, s'.world.instances[i]? = some inst ∧ panics i s.trace ≤ panics i s'.trace ∧
    (inst.machine.state = .faulted ↔ panics i s.trace < panics i s'.trace)

section

variable {perform : Reaction ε → Recorded ε → Option (HostResult × Recorded ε)}
variable (hperform : ∀ {r s x s'}, perform r s = some (x, s') → Spares i s s')

include hperform

theorem tells_batch {callback : Event → Reaction ε} {events : List Event}
    {x : Option (Option String)} (hinst : s.world.instances[i]? = some inst)
    (hbusy : inst.busy = false) (hsound : inst.machine.state ≠ .faulted)
    (hd : deliver perform i h callback events (s.update (·.dispatch i true)) = some (x, s')) :
    ∃ inst', s'.world.instances[i]? = some inst' ∧ inst'.busy = false ∧
      (x = none → inst'.machine.state ≠ .faulted) ∧
        panics i s'.trace = panics i s.trace + if x = none then 0 else 1 := by
  obtain ⟨s₁, hspares, hend⟩ := spares_deliver hperform hd
  have hengaged : (s.update (·.dispatch i true)).world.instances[i]? =
      some { inst with dispatching := true } := by
    simp [update, World.dispatch, World.modifyInstance, hinst]
  obtain ⟨⟨inst', hinst', hbusy', -, hstate⟩, hpanics⟩ := hspares _ hengaged (.inr rfl)
  rcases hend with ⟨rfl, rfl⟩ | ⟨hx, rfl⟩
  · exact ⟨inst', hinst', hbusy'.trans hbusy, fun _ => hstate hsound, hpanics⟩
  · refine ⟨inst', hinst', hbusy'.trans hbusy, fun hnone => absurd hnone hx, ?_⟩
    rw [note_trace, panics_append, hpanics, panics_panicked, if_pos rfl, if_neg hx]
    rfl

theorem tells_flush {fuel : Nat} (hinst : s.world.instances[i]? = some inst)
    (hbusy : inst.busy = false) (hsound : inst.machine.state ≠ .faulted)
    (hf : flush perform h i fuel s = some s') : Tells i s s' := by
  induction fuel generalizing s inst with
  | zero => cases hf
  | succ fuel ih =>
    rcases flush_cases hf with ⟨rfl, hgone⟩ | ⟨inst₀, hinst₀, -, hcases⟩
    · rw [hgone inst hinst] at hbusy
      cases hbusy
    · rw [hinst, Option.some.injEq] at hinst₀
      subst hinst₀
      have hi := (List.getElem?_eq_some_iff.mp hinst).1
      have hdrained : (s.collect i inst).2.world.instances[i]? = some inst.drained := by
        rw [instances_collect, List.getElem?_set_self hi]
      have hcollect : panics i (s.collect i inst).2.trace = panics i s.trace :=
        panics_collect s i inst
      rcases hcases with ⟨-, rfl⟩ | ⟨-, x, s₁, hdeliver, hrest⟩
      · have hstate : inst.drained.machine.state ≠ .faulted := hsound
        refine ⟨inst.drained, hdrained, Nat.le_of_eq hcollect.symm, ?_⟩
        simp [hcollect, hstate]
      · obtain ⟨inst₁, hinst₁, hbusy₁, hstate₁, hpanics₁⟩ :=
          tells_batch hperform hdrained hbusy hsound hdeliver
        rcases hrest with ⟨rfl, hf⟩ | ⟨message, rfl, rfl⟩
        · have hinst₂ : (s₁.update (·.dispatch i false)).world.instances[i]? =
              some { inst₁ with dispatching := false } := by
            simp [update, World.dispatch, World.modifyInstance, hinst₁]
          obtain ⟨inst', hinst', hle, htells⟩ := ih hinst₂ hbusy₁ (hstate₁ rfl) hf
          have hsame : panics i s₁.trace = panics i s.trace := hpanics₁.trans hcollect
          rw [update_trace, hsame] at hle htells
          exact ⟨inst', hinst', hle, htells⟩
        · have hmore : panics i s₁.trace = panics i s.trace + 1 := by
            rw [hpanics₁, hcollect]
            rfl
          refine ⟨{ inst₁ with dispatching := false, machine := inst₁.machine.halt }, ?_, ?_, ?_⟩
          · simp [update, World.abandon, World.dispatch, World.modifyInstance, hinst₁]
          · rw [update_trace, hmore]
            omega
          · rw [update_trace, hmore]
            simp [Machine.halt]

end

theorem tells_run {perform : Reaction ε → Recorded ε → Option (HostResult × Recorded ε)}
    (hperform : ∀ {i r s x s'}, perform r s = some (x, s') → Spares i s s') {fuel : Nat}
    (hr : drive perform fuel "run" h (runInstance perform fuel) s = some (.flag true, s')) :
    ∃ i inst, s.world.find h = .ok (i, inst) ∧ Tells i s s' := by
  obtain ⟨i, inst, s₁, hfind, hstep, hflush⟩ := drive_eq_true hr
  obtain ⟨-, hinst⟩ := World.find_eq_ok hfind
  refine ⟨i, inst, hfind, ?_⟩
  unfold runInstance at hstep
  split at hstep
  · cases hstep
  · rename_i ended m s₀ hrun
    obtain rfl : ended = .paused := by
      cases ended with
      | paused => rfl
      | error | panic => cases hstep
    cases hstep
    have hi := (List.getElem?_eq_some_iff.mp hinst).1
    have hhost : Spares i (s.occupy i inst) s₀ :=
      Machine.run_induction (Spares.refl i) Spares.trans (fun hhost => hperform hhost) hrun
    have hoccupied : (s.occupy i inst).world.instances[i]? = some { inst with busy := true } := by
      simp [occupy, update, World.setInstance, hi]
    obtain ⟨⟨inst₀, hinst₀, -⟩, hpanics⟩ := hhost _ hoccupied (.inl rfl)
    have hvacated : (s₀.vacate i inst.machine m).world.instances[i]? =
        some { inst₀ with machine := m, busy := false } := by
      simp [vacate, update, World.modifyInstance, hinst₀]
    have hnone : panics i (s₀.vacate i inst.machine m).trace = panics i s.trace := by
      simpa [vacate, panics_additions, occupy] using hpanics
    have htells := tells_flush hperform hvacated rfl (Machine.not_faulted_of_paused hrun) hflush
    unfold Tells at htells ⊢
    rwa [hnone] at htells

end Recorded

theorem Trace.panics_pos {i : Nat} {t : List (Occurrence ε)} : 0 < panics i t ↔ .panicked i ∈ t := by
  rw [panics, List.countP_pos_iff]
  constructor
  · rintro ⟨o, ho, hpanic⟩
    cases o with
    | panicked j =>
      rw [Occurrence.isPanicOf, beq_iff_eq] at hpanic
      exact hpanic ▸ ho
    | _ => cases hpanic
  · exact fun hmem => ⟨_, hmem, by simp [Occurrence.isPanicOf]⟩

/-- Whatever host functions and callbacks do, panics included: after a run that is answered `true`,
the machine has faulted if and only if a callback for it panicked. -/
theorem World.faulted_iff_of_run {fuel : Nat} {h : Handle} {w w' : World ε}
    (hr : exec fuel (.run h) w = some (.flag true, w')) :
    ∃ i inst inst' t, w.find h = .ok (i, inst) ∧ w'.instances[i]? = some inst' ∧
      Recorded.exec fuel (.run h) ⟨w, []⟩ = some (.flag true, ⟨w', t⟩) ∧
        (inst'.machine.state = .faulted ↔ .panicked i ∈ t) := by
  have herase := Recorded.erase_exec fuel (.run h) ⟨w, []⟩
  rw [hr] at herase
  obtain ⟨⟨r, s⟩, hexec, heq⟩ := Option.map_eq_some_iff.mp herase
  cases heq
  cases fuel with
  | zero => cases hr
  | succ fuel =>
    have hrun := hexec
    rw [Recorded.exec] at hrun
    obtain ⟨⟨r, s₁⟩, henact, heq⟩ := Option.map_eq_some_iff.mp hrun
    cases heq
    have hperform {i : Nat} {r : Reaction ε} {s s' : Recorded ε} {x : HostResult}
        (h : Recorded.perform (Recorded.exec fuel) r s = some (x, s')) : Recorded.Spares i s s' :=
      Recorded.spares_perform (fun hop => Recorded.spares_exec hop) r s h
    obtain ⟨i, inst, hfind, inst', hinst', -, htells⟩ := Recorded.tells_run hperform henact
    refine ⟨i, inst, inst', _, hfind, hinst', hexec, ?_⟩
    have hnone (op : Operation ε) (since : Nat) (before after : World ε) (reply : Reply) :
        Trace.panics i [.returned op since before reply after] = 0 := rfl
    rw [htells, ← Trace.panics_pos, Trace.panics_append, hnone]
    rfl

def unheard (bytes : Bytes) : Option (Handle × World Unit) :=
  match (World.create (fun _ _ host => host) ()).open? bytes fun _ _ => .panic (some "unheard") with
  | (.ok h, w) => (w.exec 2 (.start h "start")).map fun (_, w) => (h, w)
  | (.error _, _) => none

def runStates (h : Handle) (w : World Unit) : Option (Bool × List MachineState) :=
  (w.exec 10 (.run h)).map fun (r, w) =>
    (r matches .flag true, w.instances.map (·.machine.state))

theorem World.faulted_unheard : ∃ bytes h w w', (Builder.run .offset Builder.greeting).build = .ok bytes ∧
    unheard bytes = some (h, w) ∧ exec 10 (.run h) w = some (.flag true, w') ∧
      ∃ i inst', w'.instances[i]? = some inst' ∧ inst'.machine.state = .faulted ∧
        ∃ t, Recorded.exec 10 (.run h) ⟨w, []⟩ = some (.flag true, ⟨w', t⟩) ∧ .panicked i ∈ t := by
  have hrun : ((Builder.run .offset Builder.greeting).build.map fun bytes =>
      (unheard bytes).map fun x => runStates x.1 x.2) = .ok (some (some (true, [.faulted]))) := by
    decide +kernel
  obtain ⟨bytes, hbuild, hrun⟩ := Except.map_eq_ok_iff.mp hrun
  obtain ⟨⟨h, w⟩, hunheard, hrun⟩ := Option.map_eq_some_iff.mp hrun.symm
  obtain ⟨⟨r, w'⟩, hexec, hrun⟩ := Option.map_eq_some_iff.mp hrun
  simp only [Prod.mk.injEq] at hrun
  obtain ⟨hreply, hstates⟩ := hrun
  have hflag : r = .flag true := by
    cases r with
    | flag b => cases b <;> first | rfl | cases hreply
    | _ => cases hreply
  subst hflag
  obtain ⟨i, inst, inst', t, -, hinst', hrecorded, hfaulted⟩ := faulted_iff_of_run hexec
  have hstate : inst'.machine.state = .faulted := by
    have hmem := List.mem_map_of_mem (f := (·.machine.state)) (List.mem_of_getElem? hinst')
    rw [hstates, List.mem_singleton] at hmem
    exact hmem
  exact ⟨bytes, h, w, w', hbuild, hunheard, hexec, i, inst', hinst', hstate, t, hrecorded,
    hfaulted.mp hstate⟩

end Dialogue
