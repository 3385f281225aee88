import Dialogue.Proofs.Container.Assembly
import Dialogue.Proofs.Host.Likeness
import Dialogue.Proofs.Host.Rest

namespace Dialogue

open Trace

variable {ε ν : Type}

/-- The host code performs no operations. What it does depends on no more of the host than what
belongs to the handle, and it changes no more than that. -/
def Reaction.Private (view : Handle → ε → ν) (h : Handle) : Reaction ε → Prop
  | .done _ | .panic _ => True
  | .update f next =>
    (∀ e e', view h e = view h e' → view h (f e) = view h (f e')) ∧
      (∀ h' e, h' ≠ h → view h' (f e) = view h' e) ∧ next.Private view h
  | .inspect next =>
    (∀ e e', view h e = view h e' → next e = next e') ∧ ∀ e, (next e).Private view h
  | .call .. => False

structure Instance.Private (view : Handle → ε → ν) (h : Handle) (inst : Instance ε) : Prop where
  callbacks : ∀ h' e, (inst.callbacks h' e).Private view h
  bodies : inst.machine.Bodies fun body => ∀ args, (body args).Private view h

/-- An operation on what the handle stands for, with host code for its machine. -/
structure Operation.Addresses (view : Handle → ε → ν) (h : Handle) (op : Operation ε) : Prop where
  handle : op.handle? = some h
  body : ∀ {h' name arity body}, op = .setFunction h' name arity body →
    ∀ args, (body args).Private view h

namespace Recorded

variable {view : Handle → ε → ν} {h h' : Handle} {i j : Nat} {s s' s'' : Recorded ε}
variable {inst : Instance ε}

structure Tame (view : Handle → ε → ν) (h : Handle) (i : Nat) (s : Recorded ε) : Prop where
  handler : ∀ h' severity message e,
    view h' (s.world.channel.handler severity message e) = view h' e
  owns : ∀ inst, s.world.instances[i]? = some inst → inst.Private view h

structure Concerns (view : Handle → ε → ν) (h : Handle) (i : Nat) (s s' : Recorded ε) : Prop where
  handles : ∀ h', h' ≠ h → s'.world.arena.get? h' = s.world.arena.get? h'
  shrinks : ∀ h' j, s'.world.arena.get? h' = some j → s.world.arena.get? h' = some j
  instances : ∀ j, j ≠ i → s'.world.instances[j]? = s.world.instances[j]?
  channel : s'.world.channel = s.world.channel
  views : ∀ h', h' ≠ h → view h' s'.world.host = view h' s.world.host
  invocations : ∀ j, j ≠ i → Trace.invocations j s'.trace = Trace.invocations j s.trace
  tame : Tame view h i s'

namespace Concerns

theorem refl (hs : Tame view h i s) : Concerns view h i s s :=
  ⟨fun _ _ => rfl, fun _ _ => id, fun _ _ => rfl, rfl, fun _ _ => rfl, fun _ _ => rfl, hs⟩

theorem trans (hc : Concerns view h i s s') (hc' : Concerns view h i s' s'') :
    Concerns view h i s s'' where
  handles h' hne := (hc'.handles h' hne).trans (hc.handles h' hne)
  shrinks h' j hj := hc.shrinks h' j (hc'.shrinks h' j hj)
  instances j hne := (hc'.instances j hne).trans (hc.instances j hne)
  channel := hc'.channel.trans hc.channel
  views h' hne := (hc'.views h' hne).trans (hc.views h' hne)
  invocations j hne := (hc'.invocations j hne).trans (hc.invocations j hne)
  tame := hc'.tame

theorem note {os : List (Occurrence ε)} (hs : Tame view h i s)
    (hos : ∀ j, j ≠ i → Trace.invocations j os = []) : Concerns view h i s (s.note os) :=
  { refl hs with
    invocations := fun j hne => by rw [note_trace, invocations_append, hos j hne, List.append_nil]
    tame := ⟨hs.handler, hs.owns⟩ }

theorem host {f : ε → ε} (hs : Tame view h i s) (hf : ∀ h' e, h' ≠ h → view h' (f e) = view h' e) :
    Concerns view h i s (s.update fun w => { w with host := f w.host }) :=
  { refl hs with
    views := fun h' hne => hf h' _ hne
    tame := ⟨hs.handler, hs.owns⟩ }

theorem report (hs : Tame view h i s) (severity : Severity) (message : String) :
    Concerns view h i s (s.update (·.report severity message)) := by
  simp only [update, World.report]
  split
  · exact refl hs
  · exact host hs fun h' e _ => hs.handler h' severity message e

theorem answer {α : Type} (hs : Tame view h i s) (r : Except LibraryError α) :
    Concerns view h i s { s with world := (s.world.answer r).2 } := by
  cases r with
  | ok x => exact refl hs
  | error e => exact report hs _ _

theorem modify {f : Instance ε → Instance ε} (hs : Tame view h i s)
    (hf : ∀ inst, s.world.instances[i]? = some inst → (f inst).Private view h) :
    Concerns view h i s (s.update (·.modifyInstance i f)) := by
  refine { refl hs with instances := fun j hne => ?_, tame := ⟨hs.handler, fun inst hinst => ?_⟩ }
  · simp [update, World.modifyInstance, Ne.symm hne]
  · simp only [update, World.modifyInstance, List.getElem?_modify_eq] at hinst
    obtain ⟨inst₀, hinst₀, rfl⟩ := Option.map_eq_some_iff.mp hinst
    exact hf inst₀ hinst₀

theorem set (hs : Tame view h i s) (hinst : inst.Private view h) :
    Concerns view h i s (s.update (·.setInstance i inst)) := by
  simp only [World.setInstance_eq]
  exact modify hs fun _ _ => hinst

theorem reported (hs : Tame view h i s) (es : List MachineError) :
    Concerns view h i s (es.foldl (fun s e => s.report i e) s) := by
  induction es generalizing s with
  | nil => exact refl hs
  | cons e es ih =>
    have hreport : Concerns view h i s (s.report i e) :=
      (report hs _ _).trans (note (report hs _ _).tame fun _ _ => rfl)
    exact hreport.trans (ih hreport.tame)

theorem collect (hs : Tame view h i s) (hinst : s.world.instances[i]? = some inst) :
    Concerns view h i s (s.collect i inst).2 := by
  have howns := hs.owns inst hinst
  have hdrained : Concerns view h i s (s.update (·.setInstance i inst.drained)) :=
    set hs ⟨howns.callbacks, Machine.bodies_congr rfl howns.bodies⟩
  rw [collect_drained]
  exact hdrained.trans (reported hdrained.tame _)

theorem dispatch (hs : Tame view h i s) (b : Bool) :
    Concerns view h i s (s.update (·.dispatch i b)) :=
  modify hs fun inst hinst => ⟨(hs.owns inst hinst).callbacks, (hs.owns inst hinst).bodies⟩

theorem abandon (hs : Tame view h i s) (h' : Handle) (message : Option String) :
    Concerns view h i s (s.update (·.abandon h' i message)) := by
  let halt (inst : Instance ε) : Instance ε := { inst with machine := inst.machine.halt }
  have hhalt : Concerns view h i s (s.update (·.modifyInstance i halt)) :=
    modify hs fun inst hinst => ⟨(hs.owns inst hinst).callbacks, (hs.owns inst hinst).bodies⟩
  exact hhalt.trans (report hhalt.tame _ _)

theorem invocations_additions (j : Nat) (m m' : HostMachine ε) :
    Trace.invocations j (additions i m m') = [] := by
  refine List.filterMap_eq_nil_iff.mpr fun o ho => ?_
  cases o with
  | entered j' h' e => exact absurd rfl (not_entered_additions ho h' j' e)
  | _ => rfl

theorem store {m : HostMachine ε} (hs : Tame view h i s) (hinst : s.world.instances[i]? = some inst)
    (hm : m.Bodies fun body => ∀ args, (body args).Private view h) :
    Concerns view h i s (s.store i inst m) := by
  have hset : Concerns view h i s (s.update (·.setInstance i { inst with machine := m })) :=
    set hs ⟨(hs.owns inst hinst).callbacks, hm⟩
  exact hset.trans (note hset.tame fun j _ => invocations_additions j inst.machine m)

end Concerns

theorem concerns_perform {exec : Operation ε → Recorded ε → Option (Reply × Recorded ε)}
    {x : HostResult} : ∀ (r : Reaction ε) {s : Recorded ε}, r.Private view h → Tame view h i s →
      perform exec r s = some (x, s') → Concerns view h i s s'
  | .done v, s => fun _ hs hr => by
    rw [perform] at hr
    cases hr
    exact .refl hs
  | .panic message, s => fun _ hs hr => by
    rw [perform] at hr
    cases hr
    exact .refl hs
  | .update f next, s => fun hprivate hs hr => by
    rw [perform] at hr
    have hupdate := Concerns.host hs hprivate.2.1
    exact hupdate.trans (concerns_perform next hprivate.2.2 hupdate.tame hr)
  | .inspect next, s => fun hprivate hs hr => by
    rw [perform] at hr
    exact concerns_perform (next s.world.host) (hprivate.2 _) hs hr
  | .call .., _ => fun hprivate _ _ => hprivate.elim

section

variable {perform : Reaction ε → Recorded ε → Option (HostResult × Recorded ε)}
variable (hperform : ∀ {r s x s'}, r.Private view h → Tame view h i s → perform r s = some (x, s') →
  Concerns view h i s s')

include hperform

theorem concerns_deliver {callback : Event → Reaction ε} {events : List Event}
    {x : Option (Option String)} (hcallback : ∀ e, (callback e).Private view h)
    (hs : Tame view h i s) (hd : deliver perform i h' callback events s = some (x, s')) :
    Concerns view h i s s' := by
  induction events generalizing s with
  | nil =>
    cases hd
    exact .refl hs
  | cons e events ih =>
    have hentered : Concerns view h i s (s.note [.entered i h' e]) :=
      .note hs fun j hne => by simp [Trace.invocations, Occurrence.entered?, Ne.symm hne]
    rw [deliver] at hd
    split at hd
    · rename_i v s₁ hcall
      have hcalled := hentered.trans (hperform (hcallback e) hentered.tame hcall)
      have hleft : Concerns view h i s (s₁.note [.left i]) :=
        hcalled.trans (.note hcalled.tame fun _ _ => rfl)
      exact hleft.trans (ih hleft.tame hd)
    · rename_i message s₁ hcall
      cases hd
      have hcalled := hentered.trans (hperform (hcallback e) hentered.tame hcall)
      exact hcalled.trans (.note hcalled.tame fun _ _ => rfl)
    · cases hd

theorem concerns_flush {fuel : Nat} (hs : Tame view h i s)
    (hf : flush perform h' i fuel s = some s') : Concerns view h i s s' := by
  induction fuel generalizing s with
  | zero => cases hf
  | succ fuel ih =>
    rcases flush_cases hf with
      ⟨rfl, -⟩ | ⟨inst, hinst, -, ⟨-, rfl⟩ | ⟨-, x, s₁, hdeliver, hrest⟩⟩
    · exact .refl hs
    · exact .collect hs hinst
    · have hcollect := Concerns.collect hs hinst
      have hopen := hcollect.trans (.dispatch hcollect.tame true)
      have hbatch := hopen.trans (concerns_deliver hperform
        ((hs.owns inst hinst).callbacks h') hopen.tame hdeliver)
      have hclose := hbatch.trans (.dispatch hbatch.tame false)
      rcases hrest with ⟨-, hf⟩ | ⟨message, -, rfl⟩
      · exact hclose.trans (ih hclose.tame hf)
      · exact hclose.trans (.abandon hclose.tame h' message)

theorem concerns_change {fuel : Nat} {op : Operation ε} {c : Change ε} {r : Reply}
    (hc : op.change? = some c) (hop : op.Addresses view h)
    (hhome : ∀ j, s.world.arena.get? h = some j → j = i) (hs : Tame view h i s)
    (hr : change perform fuel c s = some (r, s')) : Concerns view h i s s' := by
  obtain rfl : c.handle = h :=
    Option.some.inj ((Operation.handle?_of_change hc).symm.trans hop.handle)
  unfold change at hr
  split at hr
  · cases hr
    exact .report hs _ _
  · rename_i j inst hfind
    obtain ⟨hget, hinst⟩ := World.find_eq_ok hfind
    obtain rfl := hhome j hget
    split at hr
    · cases hr
      exact .report hs _ _
    · split at hr
      · rename_i r m happly
        obtain ⟨s₁, hflush, hr⟩ := Option.map_eq_some_iff.mp hr
        cases hr
        have hstore := Concerns.store hs hinst
          (Operation.change?_bodies hc (fun heq => hop.body heq) happly (hs.owns inst hinst).bodies)
        exact hstore.trans (concerns_flush hperform hstore.tame hflush)
      · obtain ⟨s₁, hflush, hr⟩ := Option.map_eq_some_iff.mp hr
        cases hr
        have hflushed := concerns_flush hperform hs hflush
        exact hflushed.trans (.report hflushed.tame _ _)

theorem concerns_drive {fuel : Nat} {operation : String} {r : Reply}
    {f : Nat → Instance ε → Recorded ε → Option (Except LibraryError Bool × Recorded ε)}
    (hhome : ∀ j, s.world.arena.get? h = some j → j = i) (hs : Tame view h i s)
    (hstep : ∀ {inst r s₁}, s.world.instances[i]? = some inst → f i inst s = some (r, s₁) →
      Concerns view h i s s₁)
    (hr : drive perform fuel operation h f s = some (r, s')) : Concerns view h i s s' := by
  unfold drive at hr
  split at hr
  · cases hr
    exact .report hs _ _
  · rename_i j inst hfind
    obtain ⟨hget, hinst⟩ := World.find_eq_ok hfind
    obtain rfl := hhome j hget
    split at hr
    · cases hr
      exact .report hs _ _
    · split at hr
      · cases hr
        exact .report hs _ _
      · split at hr
        · cases hr
        · rename_i r s₁ hf
          obtain ⟨s₂, hflush, hr⟩ := Option.map_eq_some_iff.mp hr
          cases hr
          have hstepped := hstep hinst hf
          have hflushed := hstepped.trans (concerns_flush hperform hstepped.tame hflush)
          exact hflushed.trans (.answer hflushed.tame r)

theorem concerns_runInstance {fuel : Nat} {r : Except LibraryError Bool} (hs : Tame view h i s)
    (hinst : s.world.instances[i]? = some inst)
    (hr : runInstance perform fuel i inst s = some (r, s')) : Concerns view h i s s' := by
  have howns := hs.owns inst hinst
  unfold runInstance at hr
  split at hr
  · cases hr
  · rename_i ended m s₁ hrun
    cases hr
    have hoccupy : Concerns view h i s (s.occupy i inst) := .set hs ⟨howns.callbacks, howns.bodies⟩
    have hhost : Concerns view h i (s.occupy i inst) s₁ :=
      Machine.run_induction_of_bodies (R := fun s s' => Tame view h i s → Concerns view h i s s')
        (fun _ hs => .refl hs) (fun hc hc' hs => (hc hs).trans (hc' (hc hs).tame))
        (fun hbody hhost hs => hperform (hbody _) hs hhost) howns.bodies hrun hoccupy.tame
    have hcalled := hoccupy.trans hhost
    have hbodies : (World.conclude m ended).2.Bodies fun body => ∀ args, (body args).Private view h := by
      have hm := (Machine.progress_run hrun).bodies howns.bodies
      cases ended with
      | paused | error e => exact hm
      | panic message => exact Machine.bodies_congr rfl hm
    let leave (inst : Instance ε) : Instance ε :=
      { inst with machine := (World.conclude m ended).2, busy := false }
    have hleave : Concerns view h i s₁ (s₁.update (·.modifyInstance i leave)) :=
      .modify hcalled.tame fun inst hinst => ⟨(hcalled.tame.owns inst hinst).callbacks, hbodies⟩
    exact hcalled.trans (hleave.trans (.note hleave.tame fun j _ =>
      Concerns.invocations_additions j inst.machine (World.conclude m ended).2))

end

theorem Concerns.destroy (hs : Tame view h i s) :
    Concerns view h i s { s with world := (s.world.destroy h).2 } := by
  unfold World.destroy
  split
  · rename_i arena harena
    exact { Concerns.refl hs with
      handles := fun h' hne => Arena.get?_remove_of_ne harena hne
      shrinks := fun h' j hj => Arena.get?_remove harena hj
      tame := ⟨hs.handler, hs.owns⟩ }
  · exact .report hs _ _

theorem Concerns.lend (hs : Tame view h i s) (name : String) :
    Concerns view h i s { s with world := (s.world.lend h name).2 } := by
  have hanswer := Concerns.answer hs (s.world.lookup h name)
  rw [World.lend_eq, World.supply]
  cases (s.world.answer (s.world.lookup h name)).1 with
  | none => exact hanswer
  | some v => exact { hanswer with tame := ⟨hanswer.tame.handler, hanswer.tame.owns⟩ }

theorem concerns_quiet {fuel : Nat} {op : Operation ε} {r : Reply} {w : World ε}
    (hquiet : op.isQuiet = true) (hop : op.Addresses view h) (hs : Tame view h i s)
    (hr : World.exec (fuel + 1) op s.world = some (r, w)) :
    Concerns view h i s { s with world := w } := by
  have hhandle := hop.handle
  cases op <;> first | cases hquiet; done | cases hhandle
  case destroy =>
    cases hr
    exact .destroy hs
  case isAlive =>
    cases hr
    exact .refl hs
  case getValue name =>
    cases hr
    exact .lend hs name
  all_goals
    cases hr
    exact .answer hs _

theorem concerns_exec {fuel : Nat} {op : Operation ε} {r : Reply} (hop : op.Addresses view h)
    (hhome : ∀ j, s.world.arena.get? h = some j → j = i) (hs : Tame view h i s)
    (hr : exec fuel op s = some (r, s')) : Concerns view h i s s' := by
  cases fuel with
  | zero => cases hr
  | succ fuel =>
    have hperform {r : Reaction ε} {s s' : Recorded ε} {x : HostResult} (hr : r.Private view h)
        (hs : Tame view h i s) (h : Recorded.perform (exec fuel) r s = some (x, s')) :
        Concerns view _ i s s' := concerns_perform r hr hs h
    rw [exec] at hr
    obtain ⟨⟨r₁, s₁⟩, henact, heq⟩ := Option.map_eq_some_iff.mp hr
    cases heq
    suffices henacted : Concerns view h i s s₁ from henacted.trans (.note henacted.tame fun _ _ => rfl)
    have hhandle := hop.handle
    rcases op.kinds with ⟨bytes, callbacks, rfl⟩ | ⟨h', bough, rfl⟩ | ⟨h', rfl⟩ | ⟨c, hc⟩ | hquiet
    · cases hhandle
    · cases hhandle
      refine concerns_drive hperform hhome hs (fun {inst r s₁} hinst hf => ?_) henact
      unfold startInstance at hf
      split at hf
      · rename_i m hstart
        cases hf
        obtain ⟨b, -, rfl⟩ := Machine.start_eq_ok hstart
        exact .store hs hinst (Machine.bodies_congr rfl (hs.owns inst hinst).bodies)
      · cases hf
        exact .refl hs
    · cases hhandle
      have hrun : drive (Recorded.perform (exec fuel)) fuel "run" h
          (runInstance (Recorded.perform (exec fuel)) fuel) s = some (r, s₁) := henact
      exact concerns_drive hperform hhome hs
        (fun hinst hf => concerns_runInstance hperform hs hinst hf) hrun
    · rw [enact_change hc] at henact
      exact concerns_change hperform hc hop hhome hs henact
    · rw [enact_quiet hquiet] at henact
      obtain ⟨⟨r', w⟩, hexec, heq⟩ := Option.map_eq_some_iff.mp henact
      cases heq
      exact concerns_quiet hquiet hop hs hexec

end Recorded

def Likeness.apart (view : Handle → ε → ν) (h : Handle) (i : Nat) : Likeness ε where
  hosts _ e e' := view h e = view h e'
  counts _ := false
  held _ := False
  scope := some (h, i)

section Apart

variable {view : Handle → ε → ν} {h h' : Handle} {i : Nat}

theorem Reaction.Private.respects :
    ∀ {r : Reaction ε}, r.Private view h → r.Respects (.apart view h i)
  | .done _, _ | .panic _, _ => trivial
  | .update _ _, hr => by
    rw [Reaction.Respects]
    exact ⟨fun _ => hr.1, hr.2.2.respects⟩
  | .inspect _, hr => by
    rw [Reaction.Respects]
    exact ⟨fun _ => hr.1, fun e => (hr.2 e).respects⟩
  | .call .., hr => hr.elim

theorem Operation.Addresses.respects {op : Operation ε} (hop : op.Addresses view h) :
    op.Respects (.apart view h i) := by
  have hhandle := hop.handle
  cases op with
  | create => cases hhandle
  | setFunction =>
    rw [Operation.Respects]
    exact fun args => (hop.body rfl args).respects
  | _ => trivial

namespace Likeness

theorem sees_apart : (apart view h i).Sees h' ↔ h' = h := by
  simp [Sees, apart]

theorem shares_apart {j : Nat} : (apart view h i).Shares j ↔ j = i := by
  simp [Shares, apart]

theorem count_apart (t : List (Occurrence ε)) : (apart view h i).count t = 0 := by
  refine List.countP_eq_zero.mpr fun o _ => ?_
  cases o <;> exact nofun

end Likeness

end Apart

/-- What is learned from a reply. The number of a buffer serves only to get at its bytes. -/
def World.learn (w : World ε) : Operation ε → Reply → Reply
  | .getValue .., .buffer (some number) => .bytes (w.buffers[number]?.map (·.bytes))
  | _, r => r

def Operation.isOn (h : Handle) (op : Operation ε) : Bool := op.handle? == some h

namespace Recorded

def ask (fuel : Nat) (op : Operation ε) (s : Recorded ε) : Option (Reply × Recorded ε) :=
  (exec fuel op s).map fun r => (r.2.world.learn op r.1, r.2)

def session (fuel : Nat) :
    List (Operation ε) → Recorded ε → Option (List (Operation ε × Reply) × Recorded ε)
  | [], s => some ([], s)
  | op :: ops, s =>
    match ask fuel op s with
    | none => none
    | some (r, s) => (session fuel ops s).map fun (rs, s) => ((op, r) :: rs, s)

variable {view : Handle → ε → ν} {h h' : Handle} {i : Nat} {s s' t : Recorded ε} {op : Operation ε}

open Likeness

theorem like_getValue (hl : (apart view h i).Like none s s') (name : String) (fuel : Nat) :
    Coincide ((apart view h i).Like none) (ask (fuel + 1) (.getValue h name) s)
      (ask (fuel + 1) (.getValue h name) s') := by
  have hexec (s : Recorded ε) : exec (fuel + 1) (.getValue h name) s =
      some (.buffer (s.world.lend h name).1, (s.update fun _ => (s.world.lend h name).2).note
        [.returned (.getValue h name) s.trace.length s.world (.buffer (s.world.lend h name).1)
          (s.world.lend h name).2]) := rfl
  rw [ask, ask, hexec, hexec, World.lend_eq, World.lend_eq, hl.lookup (sees_apart.mpr rfl) name]
  generalize s.world.lookup h name = r
  cases r with
  | error e => exact .some ⟨rfl, (hl.report e.severity e.message).note (fun _ _ => rfl) rfl⟩
  | ok v =>
    have hlent : (apart view h i).Like none
        (s.update fun w => { w with
          buffers := s.world.buffers ++ [.ofValue v], outstanding := s.world.outstanding + 1 })
        (s'.update fun w => { w with
          buffers := s'.world.buffers ++ [.ofValue v], outstanding := s'.world.outstanding + 1 }) :=
      hl.buffers fun hscope => by cases hscope
    refine .some ⟨?_, hlent.note (fun _ _ => rfl) rfl⟩
    simp [World.supply, World.answer, World.learn, update]

theorem like_ask (hop : op.Addresses view h) (hl : (apart view h i).Like none s s') (fuel : Nat) :
    Coincide ((apart view h i).Like none) (ask fuel op s) (ask fuel op s') := by
  by_cases hvalue : ∃ name, op = .getValue h name
  · obtain ⟨name, rfl⟩ := hvalue
    cases fuel with
    | zero => exact .none
    | succ fuel => exact like_getValue hl name fuel
  · have hlearn (w : World ε) (r : Reply) : w.learn op r = r := by
      have hhandle := hop.handle
      cases op with
      | getValue h' name =>
        cases hhandle
        exact absurd ⟨name, rfl⟩ hvalue
      | _ => rfl
    have hask (s : Recorded ε) : ask fuel op s = exec fuel op s := by
      unfold ask
      cases exec fuel op s <;> simp [hlearn]
    rw [hask, hask]
    exact like_exec hop.respects
      (.inr ⟨h, hop.handle, sees_apart.mpr rfl, fun name heq => hvalue ⟨name, heq⟩⟩) hl fuel

structure Apart (view : Handle → ε → ν) (home : Handle → Nat) (s : Recorded ε) : Prop where
  handler : ∀ h severity message e, view h (s.world.channel.handler severity message e) = view h e
  homes : ∀ h i, s.world.arena.get? h = some i → i = home h
  disjoint : ∀ h h' i, h ≠ h' → s.world.arena.get? h = some i → home h ≠ home h'
  owns : ∀ h i inst, s.world.arena.get? h = some i → s.world.instances[i]? = some inst →
    inst.Private view h

section

variable {home : Handle → Nat} {r : Reply} {fuel : Nat}

theorem Apart.tame (hs : s.Apart view home) (hget : s.world.arena.get? h = some i) :
    Tame view h i s :=
  ⟨hs.handler, fun inst => hs.owns h i inst hget⟩

theorem Apart.concerns (hs : s.Apart view home) (hop : op.Addresses view h)
    (hr : exec fuel op s = some (r, s')) (n : Nat) :
    ∃ i, (s.world.arena.get? h = some i ∨ s.world.arena.get? h = none ∧ n < i) ∧
      Concerns view h i s s' := by
  cases hget : s.world.arena.get? h with
  | some i =>
    refine ⟨i, .inl rfl, concerns_exec hop (fun j hj => ?_) (hs.tame hget) hr⟩
    rw [hget] at hj
    exact (Option.some.inj hj).symm
  | none =>
    refine ⟨s.world.instances.length + n + 1, .inr ⟨rfl, by omega⟩, ?_⟩
    refine concerns_exec hop (fun j hj => ?_) ⟨hs.handler, fun inst hinst => ?_⟩ hr
    · rw [hget] at hj
      cases hj
    · have := (List.getElem?_eq_some_iff.mp hinst).1
      omega

theorem Apart.others (hs : s.Apart view home) (hop : op.Addresses view h) (hne : h' ≠ h)
    (hr : exec fuel op s = some (r, s')) : ∃ i, home h' ≠ i ∧ Concerns view h i s s' := by
  obtain ⟨i, hi, hconcerns⟩ := hs.concerns hop hr (home h')
  refine ⟨i, ?_, hconcerns⟩
  rcases hi with hget | ⟨-, hlt⟩
  · rw [hs.homes h i hget]
    exact Ne.symm (hs.disjoint h h' i (Ne.symm hne) hget)
  · omega

theorem exec_of_ask (hr : ask fuel op s = some (r, s')) : ∃ r, exec fuel op s = some (r, s') := by
  obtain ⟨⟨r, s⟩, hexec, heq⟩ := Option.map_eq_some_iff.mp hr
  cases heq
  exact ⟨r, hexec⟩

theorem Apart.ask (hs : s.Apart view home) (hop : op.Addresses view h)
    (hr : Recorded.ask fuel op s = some (r, s')) : s'.Apart view home := by
  obtain ⟨r, hr⟩ := exec_of_ask hr
  obtain ⟨i, hi, hconcerns⟩ := hs.concerns hop hr 0
  refine ⟨hconcerns.tame.handler, fun h₁ j hj => hs.homes h₁ j (hconcerns.shrinks h₁ j hj),
    fun h₁ h₂ j hne hj => hs.disjoint h₁ h₂ j hne (hconcerns.shrinks h₁ j hj), ?_⟩
  intro h₁ j inst hj hinst
  have hbefore := hconcerns.shrinks h₁ j hj
  by_cases hh : h₁ = h
  · subst hh
    rcases hi with hget | ⟨hget, -⟩
    · obtain rfl := Option.some.inj (hget.symm.trans hbefore)
      exact hconcerns.tame.owns inst hinst
    · rw [hget] at hbefore
      cases hbefore
  · obtain ⟨i', hne, hothers⟩ := hs.others hop hh hr
    rw [hothers.instances j (hs.homes h₁ j hbefore ▸ hne)] at hinst
    exact hs.owns h₁ j inst hbefore hinst

theorem Apart.unnoticed (hs : s.Apart view home) (hop : op.Addresses view h) (hne : h' ≠ h)
    (hr : Recorded.ask fuel op s = some (r, s')) (hl : (apart view h' (home h')).Like none s t) :
    (apart view h' (home h')).Like none s' t := by
  obtain ⟨r, hr⟩ := exec_of_ask hr
  obtain ⟨i, hi, hconcerns⟩ := hs.others hop hne hr
  obtain ⟨n, -, hhosts⟩ := hl.hosts
  refine ⟨nofun, fun h₁ hh => ?_, fun h₁ j hh hj => hl.reaches h₁ j hh (hconcerns.shrinks h₁ j hj),
    fun j hj => ?_, hl.channel.trans hconcerns.channel.symm, ?_, ⟨0, ?_, ?_⟩, fun j hj => ?_⟩
  · rw [hl.handles h₁ hh, sees_apart.mp hh, hconcerns.handles h' hne]
  · have := hl.instances j hj
    rwa [← hconcerns.instances j (shares_apart.mp hj ▸ hi)] at this
  · rw [hconcerns.channel]
    exact hl.handler
  · rw [count_apart, count_apart]
  · exact (hconcerns.views h' hne).trans hhosts
  · rw [hl.invocations j hj, hconcerns.invocations j (shares_apart.mp hj ▸ hi)]

theorem isOn_iff (hop : op.Addresses view h) : op.isOn h' = true ↔ h' = h := by
  rw [Operation.isOn, hop.handle, beq_iff_eq, Option.some.injEq]
  exact eq_comm

theorem session_one (h : Handle) {ops : List (Operation ε)} {rs : List (Operation ε × Reply)}
    (hops : ∀ op ∈ ops, ∃ h, op.Addresses view h) (hs : s.Apart view home)
    (hl : (apart view h (home h)).Like none s t) (hr : session fuel ops s = some (rs, s')) :
    ∃ t', session fuel (ops.filter (Operation.isOn h)) t = some (rs.filter (·.1.isOn h), t') ∧
      (apart view h (home h)).Like none s' t' := by
  -- The run for the handle takes a step when the operation is for it, and waits otherwise.
  induction ops generalizing s t rs with
  | nil =>
    cases hr
    exact ⟨t, rfl, hl⟩
  | cons op ops ih =>
    obtain ⟨h₁, hop⟩ := hops op List.mem_cons_self
    rw [session] at hr
    split at hr
    · cases hr
    rename_i r s₁ hask
    obtain ⟨⟨rs, s''⟩, hrest, heq⟩ := Option.map_eq_some_iff.mp hr
    cases heq
    have hih {t : Recorded ε} (hl : (apart view h (home h)).Like none s₁ t) :=
      ih (fun op hmem => hops op (List.mem_cons_of_mem _ hmem)) (hs.ask hop hask) hl hrest
    by_cases hh : h = h₁
    · subst hh
      have hon := (isOn_iff hop).mpr rfl
      rcases (like_ask hop hl fuel).cases with ⟨hx, -⟩ | ⟨a, s₂, t₁, hx, hy, hl₁⟩
      · rw [hask] at hx
        cases hx
      · rw [hask] at hx
        cases hx
        obtain ⟨t', ht', hl'⟩ := hih hl₁
        refine ⟨t', ?_, hl'⟩
        simp only [List.filter_cons, hon, if_true, session, hy, ht', Option.map_some]
    · have hoff := mt (isOn_iff hop).mp hh
      simp only [List.filter_cons, hoff, if_false, Bool.false_eq_true]
      exact hih (hs.unnoticed hop hh hask hl)

theorem session_all {ops : List (Operation ε)} (hops : ∀ op ∈ ops, ∃ h, op.Addresses view h)
    (hs : s.Apart view home) {t : Handle → Recorded ε}
    (hl : ∀ h, (apart view h (home h)).Like none s (t h))
    (hr : ∀ h, (session fuel (ops.filter (Operation.isOn h)) (t h)).isSome) :
    (session fuel ops s).isSome := by
  -- The run for the handle of the first operation takes a step, and all others stay where they are.
  induction ops generalizing s t with
  | nil => rfl
  | cons op ops ih =>
    obtain ⟨h, hop⟩ := hops op List.mem_cons_self
    have hown := hr h
    rw [List.filter_cons_of_pos ((isOn_iff hop).mpr rfl), session] at hown
    rcases (like_ask hop (hl h) fuel).cases with ⟨-, hy⟩ | ⟨r, s₁, t₁, hx, hy, hl₁⟩
    · simp [hy] at hown
    · simp only [hy, Option.isSome_map] at hown
      rw [session, hx, Option.isSome_map]
      refine ih (fun op hmem => hops op (List.mem_cons_of_mem _ hmem)) (hs.ask hop hx)
        (t := Function.update t h t₁) (fun h' => ?_) fun h' => ?_
      · by_cases hh : h' = h
        · subst hh
          rwa [Function.update_self]
        · rw [Function.update_of_ne hh]
          exact hs.unnoticed hop hh hx (hl h')
      · by_cases hh : h' = h
        · subst hh
          rwa [Function.update_self]
        · have hothers := hr h'
          rw [List.filter_cons_of_neg (mt (isOn_iff hop).mp hh)] at hothers
          rwa [Function.update_of_ne hh]

end

end Recorded

namespace World

variable {view : Handle → ε → ν} {h : Handle} {i : Nat}

/-- No two handles stand for the same instance, and every instance keeps to itself. -/
structure Separate (view : Handle → ε → ν) (w : World ε) : Prop where
  handler : ∀ h severity message e, view h (w.channel.handler severity message e) = view h e
  injective : ∀ h h' i, w.arena.get? h = some i → w.arena.get? h' = some i → h = h'
  housed : ∀ h i, w.arena.get? h = some i → i < w.instances.length
  owns : ∀ h i inst, w.arena.get? h = some i → w.instances[i]? = some inst → inst.Private view h

def home (w : World ε) (h : Handle) : Nat := (w.arena.get? h).getD w.instances.length

theorem home_of_get? {w : World ε} (hget : w.arena.get? h = some i) : home w h = i := by
  simp [home, hget]

theorem AtRest.separate {w : World ε} (hw : w.AtRest)
    (hhandler : ∀ h severity message e, view h (w.channel.handler severity message e) = view h e)
    (howns : ∀ h i inst, w.arena.get? h = some i → w.instances[i]? = some inst →
      inst.Private view h) : w.Separate view :=
  ⟨hhandler, hw.sound.injective, hw.housed, howns⟩

end World

namespace Recorded

variable {view : Handle → ε → ν} {h h' : Handle} {i : Nat} {s s' : Recorded ε}

open Likeness World

theorem apart_of_separate (hs : s.world.Separate view) : s.Apart view (home s.world) := by
  refine ⟨hs.handler, fun h i hget => (home_of_get? hget).symm, fun h h' i hne hget => ?_, hs.owns⟩
  rw [home_of_get? hget]
  cases hget' : s.world.arena.get? h' with
  | some j =>
    rw [home_of_get? hget']
    rintro rfl
    exact hne (hs.injective h h' i hget hget')
  | none =>
    have := hs.housed h i hget
    simp only [home, hget', Option.getD_none]
    omega

theorem like_of_separate (hs : s.world.Separate view) (h : Handle) :
    (Likeness.apart view h (home s.world h)).Like none s s := by
  refine ⟨nofun, fun _ _ => rfl, fun h' i hh hget => ?_, fun j hj => ?_, rfl, ?_, ⟨0, rfl, rfl⟩,
    fun _ _ => rfl⟩
  · rw [← home_of_get? hget, sees_apart.mp hh]
    exact shares_apart.mpr rfl
  · obtain rfl := shares_apart.mp hj
    cases hinst : s.world.instances[home s.world h]? with
    | none => exact .none
    | some inst =>
      -- A handle whose home exists is alive.
      obtain ⟨i, hget⟩ : ∃ i, s.world.arena.get? h = some i := by
        refine Option.ne_none_iff_exists'.mp fun hnone => ?_
        have := (List.getElem?_eq_some_iff.mp hinst).1
        simp [home, hnone] at this
      rw [home_of_get? hget] at hinst
      have howns := hs.owns h i inst hget hinst
      refine .some ⟨rfl, rfl, rfl, fun h' e => (howns.callbacks h' e).respects, nofun, .refl ?_⟩
      exact fun g hg arity body hslot =>
        .inr ⟨rfl, fun args => (howns.bodies g hg arity body hslot args).respects⟩
  · intro n severity message e e' he
    change view h _ = view h _
    rwa [hs.handler, hs.handler]

/-- Operations on different handles do not interfere. For each handle the results, the machine in the
end and the callbacks entered are those of its own operations. -/
theorem session_isolated {ops : List (Operation ε)} (hs : s.world.Separate view)
    (hops : ∀ op ∈ ops, ∃ h, op.Addresses view h) (fuel : Nat) :
    ((session fuel ops s).isSome ↔
      ∀ h, (session fuel (ops.filter (Operation.isOn h)) s).isSome) ∧
    ∀ rs s', session fuel ops s = some (rs, s') → ∀ h, ∃ t,
      session fuel (ops.filter (Operation.isOn h)) s = some (rs.filter (·.1.isOn h), t) ∧
        t.world.arena.get? h = s'.world.arena.get? h ∧
        ∀ i, s.world.arena.get? h = some i →
          t.world.instances[i]?.map (·.machine) = s'.world.instances[i]?.map (·.machine) ∧
            invocations i t.trace = invocations i s'.trace := by
  refine ⟨⟨fun hsome h => ?_, session_all hops (apart_of_separate hs) (like_of_separate hs)⟩,
    fun rs s' hr h => ?_⟩
  · obtain ⟨⟨rs, s'⟩, hr⟩ := Option.isSome_iff_exists.mp hsome
    obtain ⟨t, ht, -⟩ := session_one h hops (apart_of_separate hs) (like_of_separate hs h) hr
    rw [ht]
    rfl
  · obtain ⟨t, ht, hl⟩ := session_one h hops (apart_of_separate hs) (like_of_separate hs h) hr
    refine ⟨t, ht, hl.handles h (sees_apart.mpr rfl), fun i hget => ?_⟩
    have hi : (Likeness.apart view h (home s.world h)).Shares i :=
      shares_apart.mpr (home_of_get? hget).symm
    refine ⟨?_, hl.invocations i hi⟩
    rcases hl.instance_cases hi with ⟨hx, hy⟩ | ⟨inst, inst', hx, hy, ha⟩
    · rw [hx, hy]
    · have hmachine : inst'.machine = inst.machine := by
        refine ha.machine.eq fun b b' hbinds => ?_
        exact hbinds.elim False.elim (·.1)
      rw [hx, hy, Option.map_some, Option.map_some, hmachine]

def counter (h : Handle) (e : Nat × Nat) : Nat :=
  if h = ⟨0, 0⟩ then e.1 else if h = ⟨1, 0⟩ then e.2 else 0

def neighbours : Recorded (Nat × Nat) :=
  let c : Container := ⟨.newest, [], [⟨"start", 0⟩],
    ((Instruction.line "mara" "Hello." []).write.bytes ++ Instruction.stop.write.bytes).toArray, 0⟩
  { world := {
      arena := ⟨[⟨0, some 0⟩, ⟨0, some 1⟩], [], 2⟩
      instances := [
        ⟨.create c, fun _ _ => .update (fun e => (e.1 + 1, e.2)) (.panic none), false, false⟩,
        ⟨.create c, fun _ _ => .update (fun e => (e.1, e.2 + 1)) (.done .nil), false, false⟩]
      buffers := []
      outstanding := 0
      channel := ⟨.error, fun _ _ e => e⟩
      host := (0, 0) }
    trace := [] }

def errands : List (Operation (Nat × Nat)) :=
  [.start ⟨0, 0⟩ "start", .start ⟨1, 0⟩ "start", .run ⟨0, 0⟩, .run ⟨1, 0⟩, .run ⟨0, 0⟩,
    .selectContinue ⟨1, 0⟩, .destroy ⟨0, 0⟩, .run ⟨1, 0⟩]

theorem get?_neighbours (hget : neighbours.world.arena.get? h = some i) :
    (h = ⟨0, 0⟩ ∧ i = 0) ∨ (h = ⟨1, 0⟩ ∧ i = 1) := by
  obtain ⟨index, generation⟩ := h
  rw [Arena.get?_eq_some_iff] at hget
  have hindex {n : Nat} (hn : index.toNat = n) : index = .ofNat n := by
    rw [← hn, UInt32.ofNat_toNat]
  rcases hn : index.toNat with _ | _ | n <;> simp only [neighbours, hn] at hget <;> cases hget
  · exact .inl ⟨congrArg (Handle.mk · 0) (hindex hn), rfl⟩
  · exact .inr ⟨congrArg (Handle.mk · 0) (hindex hn), rfl⟩

theorem separate_neighbours : neighbours.world.Separate counter := by
  have hbodies (c : Container) (P : (List Value → Reaction (Nat × Nat)) → Prop) :
      (Machine.create c).Bodies P := by
    intro g hg arity body hslot
    obtain ⟨symbol, -, rfl⟩ := List.mem_map.mp hg
    cases hslot
  refine ⟨fun _ _ _ _ => rfl, fun h h' i hi hi' => ?_, fun h i hi => ?_, fun h i inst hi hinst => ?_⟩
  · rcases get?_neighbours hi with ⟨rfl, rfl⟩ | ⟨rfl, rfl⟩ <;>
      rcases get?_neighbours hi' with ⟨rfl, heq⟩ | ⟨rfl, heq⟩ <;> first | rfl | cases heq
  · rcases get?_neighbours hi with ⟨rfl, rfl⟩ | ⟨rfl, rfl⟩ <;> decide
  · rcases get?_neighbours hi with ⟨rfl, rfl⟩ | ⟨rfl, rfl⟩ <;> cases hinst <;>
      refine ⟨fun h' e => ⟨fun e e' he => ?_, fun h₁ e hne => ?_, trivial⟩, hbodies _ _⟩
    all_goals simp_all [counter]

theorem session_isolated_neighbours : neighbours.world.Separate counter ∧
    (∀ op ∈ errands, ∃ h, op.Addresses counter h) ∧
      ∃ rs s t, session 9 errands neighbours = some (rs, s) ∧
        session 9 (errands.filter (Operation.isOn ⟨1, 0⟩)) neighbours =
          some (rs.filter (·.1.isOn ⟨1, 0⟩), t) ∧
        invocations 1 t.trace = invocations 1 s.trace ∧ s.world.host = (1, 1) := by
  have hops : ∀ op ∈ errands, ∃ h, op.Addresses counter h := by
    simp only [errands, List.forall_mem_cons]
    and_intros
    all_goals first | exact ⟨_, rfl, nofun⟩ | exact nofun
  have hrun : (session 9 errands neighbours).map (·.2.world.host) = some (1, 1) := by
    decide +kernel
  obtain ⟨⟨rs, s⟩, hs, hhost⟩ := Option.map_eq_some_iff.mp hrun
  obtain ⟨t, ht, -, hsame⟩ := (session_isolated separate_neighbours hops 9).2 rs s hs ⟨1, 0⟩
  exact ⟨separate_neighbours, hops, rs, s, t, hs, ht, (hsame 1 rfl).2, hhost⟩

def token (_ : List Value) : Reaction Bool :=
  .inspect fun left => .update (fun _ => false) (.done (.bool left))

def rivals : Recorded Bool :=
  let c := Builder.assembled .newest [.externVariable "token", .scriptVariable "mine",
    .bough "start", .label, .call 0 [] (some 1), .jumpIfFalse 1 0, .line "mara" "Mine." [],
    .bind 0, .stop] 0
  let inst : Instance Bool := ⟨.create c, fun _ _ => .done .nil, false, false⟩
  { world := {
      arena := ⟨[⟨0, some 0⟩, ⟨0, some 1⟩], [], 2⟩
      instances := [inst, inst]
      buffers := []
      outstanding := 0
      channel := ⟨.error, fun _ _ e => e⟩
      host := true }
    trace := [] }

def contest : List (Operation Bool) :=
  [.setFunction ⟨0, 0⟩ "token" 0 token, .setFunction ⟨1, 0⟩ "token" 0 token, .start ⟨0, 0⟩ "start",
    .start ⟨1, 0⟩ "start", .run ⟨0, 0⟩, .run ⟨1, 0⟩]

theorem not_isolated_rivals : (∀ args, (token args).Within (fun _ => False) (fun _ _ => True)) ∧
    ∃ rs rs' s t, session 9 contest rivals = some (rs, s) ∧
      session 9 (contest.filter (Operation.isOn ⟨1, 0⟩)) rivals = some (rs', t) ∧
      s.world.instances[1]?.map (·.machine.state) = some .finished ∧
      (invocations 1 s.trace).length = 0 ∧
      t.world.instances[1]?.map (·.machine.state) = some (.waiting .continuation) ∧
      (invocations 1 t.trace).length = 1 := by
  have hwithin (args : List Value) : (token args).Within (fun _ => False) (fun _ _ => True) :=
    fun _ => ⟨fun _ => trivial, trivial⟩
  have hall : (session 9 contest rivals).map (fun r =>
      (r.2.world.instances[1]?.map (·.machine.state), (invocations 1 r.2.trace).length)) =
        some (some .finished, 0) := by
    decide +kernel
  have hown : (session 9 (contest.filter (Operation.isOn ⟨1, 0⟩)) rivals).map (fun r =>
      (r.2.world.instances[1]?.map (·.machine.state), (invocations 1 r.2.trace).length)) =
        some (some (.waiting .continuation), 1) := by
    decide +kernel
  obtain ⟨⟨rs, s⟩, hs, hs'⟩ := Option.map_eq_some_iff.mp hall
  obtain ⟨⟨rs', t⟩, ht, ht'⟩ := Option.map_eq_some_iff.mp hown
  obtain ⟨hstate, htrace⟩ := Prod.mk.inj hs'
  obtain ⟨hstate', htrace'⟩ := Prod.mk.inj ht'
  exact ⟨hwithin, rs, rs', s, t, hs, ht, hstate, htrace, hstate', htrace'⟩

end Recorded

end Dialogue
