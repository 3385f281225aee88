import Dialogue.Proofs.Host.Conduct
import Mathlib.Logic.Relation

/-!
Recorded operations step by step. An operation that leaves all machines alone happens at once. Every
other one comes down to such operations, which host code performs, and to steps between them that
have nothing to do with buffers.
-/

namespace Dialogue

variable {ε : Type}

namespace World

structure KeepsBuffers (w w' : World ε) : Prop where
  buffers : w'.buffers = w.buffers
  outstanding : w'.outstanding = w.outstanding

theorem KeepsBuffers.refl (w : World ε) : KeepsBuffers w w := ⟨rfl, rfl⟩

theorem KeepsBuffers.trans {w w' w'' : World ε} (h : KeepsBuffers w w')
    (h' : KeepsBuffers w' w'') : KeepsBuffers w w'' :=
  ⟨h'.buffers.trans h.buffers, h'.outstanding.trans h.outstanding⟩

theorem keepsBuffers_report (w : World ε) (severity : Severity) (message : String) :
    KeepsBuffers w (w.report severity message) := by
  unfold report
  split <;> exact ⟨rfl, rfl⟩

theorem keepsBuffers_answer {α : Type} (w : World ε) (r : Except LibraryError α) :
    KeepsBuffers w (w.answer r).2 := by
  cases r with
  | ok x => exact .refl w
  | error e => exact keepsBuffers_report w _ _

theorem keepsBuffers_collect (w : World ε) (i : Nat) (inst : Instance ε) :
    KeepsBuffers w (w.collect i inst).2 := by
  have hreports (es : List MachineError) (w : World ε) : KeepsBuffers w (w.reports es) := by
    induction es generalizing w with
    | nil => exact .refl w
    | cons e es ih => exact (keepsBuffers_report w _ _).trans (ih _)
  have hset : KeepsBuffers w (w.setInstance i inst.drained) := ⟨rfl, rfl⟩
  rw [collect_snd]
  exact hset.trans (hreports _ _)

theorem keepsBuffers_open? (w : World ε) (bytes : Bytes) (callbacks : Handle → Event → Reaction ε) :
    KeepsBuffers w (w.open? bytes callbacks).2 := by
  unfold open?
  split
  · exact keepsBuffers_report w _ _
  · exact ⟨rfl, rfl⟩

end World

def Occurrence.isReturn : Occurrence ε → Bool
  | .returned .. => true
  | _ => false

namespace Recorded

/-- What happens at once: a step that has nothing to do with buffers, the return of an operation on a
machine, or an operation that leaves all machines alone, with its return. -/
inductive AtOnce : Recorded ε → Recorded ε → Prop
  | aside {s s' : Recorded ε} {os : List (Occurrence ε)} (hkeeps : s.world.KeepsBuffers s'.world)
    (htrace : s'.trace = s.trace ++ os) (hos : ∀ o ∈ os, o.isReturn = false) : AtOnce s s'
  | leave {s : Recorded ε} {op : Operation ε} (hop : op.isQuiet = false) (since : Nat)
    (before : World ε) (r : Reply) : AtOnce s (s.note [.returned op since before r s.world])
  | quiet {s : Recorded ε} {op : Operation ε} {fuel : Nat} {r : Reply} {w : World ε}
    (hop : op.isQuiet = true) (hexec : World.exec (fuel + 1) op s.world = some (r, w)) :
    AtOnce s ⟨w, s.trace ++ [.returned op s.trace.length s.world r w]⟩

abbrev Unfolds : Recorded ε → Recorded ε → Prop := Relation.ReflTransGen AtOnce

variable {s s' : Recorded ε} {i : Nat} {h : Handle} {inst : Instance ε}

theorem unfolds_keepsBuffers (hkeeps : s.world.KeepsBuffers s'.world)
    (htrace : s'.trace = s.trace) : Unfolds s s' := by
  have htrace' : s'.trace = s.trace ++ [] := by rw [htrace, List.append_nil]
  exact .single (.aside hkeeps htrace' (by simp))

theorem unfolds_update {f : World ε → World ε} (hkeeps : s.world.KeepsBuffers (f s.world)) :
    Unfolds s (s.update f) :=
  unfolds_keepsBuffers hkeeps rfl

theorem unfolds_report (s : Recorded ε) (severity : Severity) (message : String) :
    Unfolds s { s with world := s.world.report severity message } :=
  unfolds_keepsBuffers (World.keepsBuffers_report s.world severity message) rfl

theorem unfolds_answerFlag (s : Recorded ε) (r : Except LibraryError Bool) :
    Unfolds s (s.answerFlag r).2 :=
  unfolds_keepsBuffers (World.keepsBuffers_answer s.world r) rfl

theorem unfolds_note {os : List (Occurrence ε)} (hos : ∀ o ∈ os, o.isReturn = false) :
    Unfolds s (s.note os) :=
  .single (.aside ⟨rfl, rfl⟩ rfl hos)

theorem unfolds_additions (i : Nat) (m m' : HostMachine ε) :
    Unfolds s (s.note (additions i m m')) := by
  refine unfolds_note fun o ho => ?_
  simp only [additions, List.mem_append, List.mem_map] at ho
  rcases ho with ⟨e, -, rfl⟩ | ⟨e, -, rfl⟩ <;> rfl

theorem unfolds_store (s : Recorded ε) (i : Nat) (inst : Instance ε) (m : HostMachine ε) :
    Unfolds s (s.store i inst m) :=
  .trans (unfolds_update (f := (·.setInstance i { inst with machine := m })) ⟨rfl, rfl⟩)
    (unfolds_additions i inst.machine m)

theorem unfolds_collect (s : Recorded ε) (i : Nat) (inst : Instance ε) :
    Unfolds s (s.collect i inst).2 := by
  refine .single (.aside ?_ (trace_collect s i inst) ?_)
  · rw [world_collect]
    exact World.keepsBuffers_collect s.world i inst
  · intro o ho
    obtain ⟨e, -, rfl⟩ := List.mem_map.mp ho
    rfl

theorem unfolds_perform {exec : Operation ε → Recorded ε → Option (Reply × Recorded ε)}
    (hexec : ∀ {op s r s'}, exec op s = some (r, s') → Unfolds s s') {x : HostResult} :
    ∀ (r : Reaction ε) (s : Recorded ε), perform exec r s = some (x, s') → Unfolds s s'
  | .done v, s, hr => by
    cases hr
    exact .refl
  | .panic message, s, hr => by
    cases hr
    exact .refl
  | .update f next, s, hr => by
    rw [perform] at hr
    exact .trans (unfolds_update ⟨rfl, rfl⟩) (unfolds_perform hexec next _ hr)
  | .inspect next, s, hr => by
    rw [perform] at hr
    exact unfolds_perform hexec (next s.world.host) s hr
  | .call op next, s, hr => by
    rw [perform] at hr
    split at hr
    · rename_i r s₁ hop
      exact (hexec hop).trans (unfolds_perform hexec (next r) s₁ hr)
    · cases hr

section

variable {perform : Reaction ε → Recorded ε → Option (HostResult × Recorded ε)}
variable (hperform : ∀ {r s x s'}, perform r s = some (x, s') → Unfolds s s')

include hperform

theorem unfolds_deliver {callback : Event → Reaction ε} {events : List Event}
    {x : Option (Option String)} (hd : deliver perform i h callback events s = some (x, s')) :
    Unfolds s s' := by
  induction events generalizing s with
  | nil =>
    cases hd
    exact .refl
  | cons e events ih =>
    have hentered : Unfolds s (s.note [.entered i h e]) :=
      unfolds_note (by simp [Occurrence.isReturn])
    rw [deliver] at hd
    split at hd
    · rename_i v s₁ hcallback
      have hleft : Unfolds s₁ (s₁.note [.left i]) := unfolds_note (by simp [Occurrence.isReturn])
      exact hentered.trans ((hperform hcallback).trans (hleft.trans (ih hd)))
    · rename_i message s₁ hcallback
      cases hd
      have hpanicked : Unfolds s₁ (s₁.note [.panicked i]) :=
        unfolds_note (by simp [Occurrence.isReturn])
      exact hentered.trans ((hperform hcallback).trans hpanicked)
    · cases hd

theorem unfolds_flush {fuel : Nat} (hf : flush perform h i fuel s = some s') : Unfolds s s' := by
  induction fuel generalizing s with
  | zero => cases hf
  | succ fuel ih =>
    rcases flush_cases hf with ⟨rfl, -⟩ | ⟨inst, -, -, ⟨-, rfl⟩ | ⟨-, x, s₁, hdeliver, hrest⟩⟩
    · exact .refl
    · exact unfolds_collect s i inst
    · have hbatch : Unfolds s s₁ := (unfolds_collect s i inst).trans
        (.trans (unfolds_update ⟨rfl, rfl⟩) (unfolds_deliver hperform hdeliver))
      refine hbatch.trans ?_
      rcases hrest with ⟨-, hf⟩ | ⟨message, -, rfl⟩
      · exact .trans (unfolds_update ⟨rfl, rfl⟩) (ih hf)
      · exact .trans (unfolds_update (f := fun w => (w.dispatch i false).modifyInstance i _)
          ⟨rfl, rfl⟩) (unfolds_report _ _ _)

theorem unfolds_change {fuel : Nat} {c : Change ε} {r : Reply}
    (hr : change perform fuel c s = some (r, s')) : Unfolds s s' := by
  unfold change at hr
  split at hr
  · cases hr
    exact unfolds_report s _ _
  · split at hr
    · cases hr
      exact unfolds_report s _ _
    · split at hr
      · obtain ⟨s₁, hflush, hr⟩ := Option.map_eq_some_iff.mp hr
        cases hr
        exact (unfolds_store s _ _ _).trans (unfolds_flush hperform hflush)
      · obtain ⟨s₁, hflush, hr⟩ := Option.map_eq_some_iff.mp hr
        cases hr
        exact (unfolds_flush hperform hflush).trans (unfolds_report s₁ _ _)

theorem unfolds_drive {fuel : Nat} {operation : String} {r : Reply}
    {f : Nat → Instance ε → Recorded ε → Option (Except LibraryError Bool × Recorded ε)}
    (hstep : ∀ {i inst s r s₁}, f i inst s = some (r, s₁) → Unfolds s s₁)
    (hr : drive perform fuel operation h f s = some (r, s')) : Unfolds s s' := by
  unfold drive at hr
  split at hr
  · cases hr
    exact unfolds_report s _ _
  · split at hr
    · cases hr
      exact unfolds_report s _ _
    · split at hr
      · cases hr
        exact unfolds_report s _ _
      · split at hr
        · cases hr
        · rename_i r s₁ hf
          obtain ⟨s₂, hflush, hr⟩ := Option.map_eq_some_iff.mp hr
          cases hr
          exact (hstep hf).trans ((unfolds_flush hperform hflush).trans (unfolds_answerFlag s₂ r))

theorem unfolds_runInstance {fuel : Nat} {r : Except LibraryError Bool}
    (hr : runInstance perform fuel i inst s = some (r, s')) : Unfolds s s' := by
  unfold runInstance at hr
  split at hr
  · cases hr
  · rename_i ended m s₁ hrun
    cases hr
    have hhost : Unfolds (s.occupy i inst) s₁ :=
      Machine.run_induction (R := Unfolds) (fun _ => .refl) .trans
        (fun hhost => hperform hhost) hrun
    have hvacate : Unfolds s₁ (s₁.vacate i inst.machine (World.conclude m ended).2) :=
      .trans (unfolds_update (f := (·.modifyInstance i _)) ⟨rfl, rfl⟩) (unfolds_additions i _ _)
    exact .trans (unfolds_update ⟨rfl, rfl⟩) (hhost.trans hvacate)

end

theorem unfolds_startInstance {bough : String} {r : Except LibraryError Bool}
    (hr : startInstance bough i inst s = some (r, s')) : Unfolds s s' := by
  unfold startInstance at hr
  split at hr
  · cases hr
    exact unfolds_store s i inst _
  · cases hr
    exact .refl

theorem unfolds_create (s : Recorded ε) (bytes : Bytes)
    (callbacks : Handle → Event → Reaction ε) : Unfolds s (s.create bytes callbacks).2 := by
  refine .trans (unfolds_update (f := fun w => (w.open? bytes callbacks).2)
    (World.keepsBuffers_open? s.world bytes callbacks)) (unfolds_note fun o ho => ?_)
  split at ho
  · rw [List.mem_singleton.mp ho]
    rfl
  · cases ho

theorem unfolds_exec {fuel : Nat} {op : Operation ε} {r : Reply}
    (hr : exec fuel op s = some (r, s')) : Unfolds s s' := by
  -- The operations within this one have less fuel.
  induction fuel generalizing op s r s' with
  | zero => cases hr
  | succ fuel ih =>
    have hperform {r : Reaction ε} {s s' : Recorded ε} {x : HostResult}
        (h : Recorded.perform (exec fuel) r s = some (x, s')) : Unfolds s s' :=
      unfolds_perform (fun hop => ih hop) r s h
    rw [exec] at hr
    obtain ⟨⟨r', s₁⟩, henact, heq⟩ := Option.map_eq_some_iff.mp hr
    cases heq
    have hleave (hop : op.isQuiet = false) (hs : Unfolds s s₁) :
        Unfolds s (s₁.note [.returned op s.trace.length s.world r s₁.world]) :=
      hs.tail (.leave hop s.trace.length s.world r)
    rcases op.kinds with ⟨bytes, callbacks, rfl⟩ | ⟨h, bough, rfl⟩ | ⟨h, rfl⟩ | ⟨c, hc⟩ | hquiet
    · cases henact
      exact hleave rfl (unfolds_create s bytes callbacks)
    · exact hleave rfl (unfolds_drive hperform (fun hf => unfolds_startInstance hf) henact)
    · have hrun : drive (Recorded.perform (exec fuel)) fuel "run" h
          (runInstance (Recorded.perform (exec fuel)) fuel) s = some (r, s₁) := henact
      exact hleave rfl (unfolds_drive hperform (fun hf => unfolds_runInstance hperform hf) hrun)
    · rw [enact_change hc] at henact
      have hloud : op.isQuiet = false := by cases op <;> first | rfl | cases hc
      exact hleave hloud (unfolds_change hperform henact)
    · rw [enact_quiet hquiet] at henact
      obtain ⟨⟨r', w⟩, hexec, heq⟩ := Option.map_eq_some_iff.mp henact
      cases heq
      exact .single (.quiet hquiet hexec)

end Recorded

end Dialogue
