import Dialogue.Proofs.Host.Holdings
import Dialogue.Proofs.Host.Rest

namespace Dialogue

variable {ε : Type}

theorem World.atRest_perform {fuel : Nat} {x : HostResult} {w' : World ε} :
    ∀ (r : Reaction ε) (w : World ε), w.AtRest → r.perform (exec fuel) w = some (x, w') → w'.AtRest
  | .done v, w, hw, h => by
    cases h
    exact hw
  | .panic message, w, hw, h => by
    cases h
    exact hw
  | .update f next, w, hw, h => by
    rw [Reaction.perform] at h
    exact atRest_perform next { w with host := f w.host } (hw.congr rfl rfl) h
  | .inspect next, w, hw, h => by
    rw [Reaction.perform] at h
    exact atRest_perform (next w.host) w hw h
  | .call op next, w, hw, h => by
    rw [Reaction.perform] at h
    split at h
    · rename_i r w₁ hop
      exact atRest_perform (next r) w₁ (atRest_exec hw hop) h
    · cases h

/-- A buffer is handed out that reads as `v` just when the binary form has room for `v`. -/
def World.Lends (v : Value) (before : World ε) (reply : Reply) (after : World ε) : Prop :=
  reply = .buffer (some before.buffers.length) ∧
    ∃ b, after.buffers[before.buffers.length]? = some b ∧ (b.decode = .ok v ↔ v.Portable)

def Occurrence.IsLent : Occurrence ε → Prop
  | .returned (.getValue h name) _ before reply after => ∀ i inst v,
    before.find h = .ok (i, inst) → inst.machine.value name = .ok v →
      if inst.busy then reply = .buffer none else World.Lends v before reply after
  | _ => True

theorem World.lend_of_busy {w : World ε} {h : Handle} {i : Nat} {inst : Instance ε}
    (hfind : w.find h = .ok (i, inst)) (hbusy : inst.busy = true) (name : String) :
    (w.lend h name).1 = none := by
  have hquery : w.query h (·.value name) = .error (.busy h) := by
    simp [query, hfind, hbusy, bind, Except.bind]
  simp [lend, hquery, answer, bind, Except.bind]

theorem World.lend_of_value {w : World ε} {h : Handle} {name : String} {i : Nat} {inst : Instance ε}
    {v : Value} (hfind : w.find h = .ok (i, inst)) (hbusy : inst.busy = false)
    (hvalue : inst.machine.value name = .ok v) : w.lend h name = (some w.buffers.length,
      { w with buffers := w.buffers ++ [.ofValue v], outstanding := w.outstanding + 1 }) := by
  have hquery : w.query h (·.value name) = .ok (.ok v) := by
    simp [query, hfind, hbusy, hvalue, bind, Except.bind]
  simp [lend, hquery, answer, bind, Except.bind]

namespace Recorded

variable {H : ε → Prop} {s s' : Recorded ε} {i : Nat} {h : Handle}

structure Proper (H : ε → Prop) (s : Recorded ε) : Prop where
  world : s.world.Proper H
  trace : ∀ o ∈ s.trace, o.IsLent

theorem Proper.note (hs : s.Proper H) {os : List (Occurrence ε)} (hos : ∀ o ∈ os, o.IsLent) :
    (s.note os).Proper H := by
  refine ⟨hs.world, fun o ho => ?_⟩
  exact (List.mem_append.mp ho).elim (hs.trace o) (hos o)

theorem Proper.update (hs : s.Proper H) {f : World ε → World ε}
    (hf : s.world.Proper H → (f s.world).Proper H) : (s.update f).Proper H :=
  ⟨hf hs.world, hs.trace⟩

theorem isLent_additions (i : Nat) (m m' : HostMachine ε) :
    ∀ o ∈ additions i m m', o.IsLent := by
  intro o ho
  simp only [additions, List.mem_append, List.mem_map] at ho
  rcases ho with ⟨e, -, rfl⟩ | ⟨e, -, rfl⟩ <;> trivial

theorem Proper.store {inst : Instance ε} {m : HostMachine ε} (hs : s.Proper H)
    (hinst : Instance.Proper H { inst with machine := m }) : (s.store i inst m).Proper H :=
  (hs.update fun hw => hw.setInstance hinst i).note (isLent_additions i inst.machine m)

theorem proper_perform {exec : Operation ε → Recorded ε → Option (Reply × Recorded ε)}
    (hexec : ∀ {op s r s'}, op.Proper H → s.Proper H → exec op s = some (r, s') → s'.Proper H)
    {x : HostResult} : ∀ (r : Reaction ε) (s : Recorded ε), r.Proper H → s.Proper H →
      perform exec r s = some (x, s') → s'.Proper H ∧ ∀ v, x = .value v → v.Proper
  | .done v, s, hr, hs, h => by
    rw [perform] at h
    cases h
    refine ⟨hs, fun v hv => ?_⟩
    cases hv
    exact hr
  | .panic message, s, hr, hs, h => by
    rw [perform] at h
    cases h
    refine ⟨hs, fun v hv => ?_⟩
    cases hv
  | .update f next, s, hr, hs, h => by
    rw [perform] at h
    exact proper_perform hexec next _ hr.2 (hs.update fun hw => hw.update hr.1) h
  | .inspect next, s, hr, hs, h => by
    rw [perform] at h
    exact proper_perform hexec (next s.world.host) s (hr _ hs.world.host) hs h
  | .call op next, s, hr, hs, h => by
    rw [perform] at h
    split at h
    · rename_i r s₁ hop
      exact proper_perform hexec (next r) s₁ (hr.2 r) (hexec hr.1 hs hop) h
    · cases h

section

variable {perform : Reaction ε → Recorded ε → Option (HostResult × Recorded ε)}
variable (hperform : ∀ {r s x s'}, r.Proper H → s.Proper H → perform r s = some (x, s') →
  s'.Proper H ∧ ∀ v, x = .value v → v.Proper)

include hperform

theorem proper_deliver {callback : Event → Reaction ε} {events : List Event}
    {x : Option (Option String)} (hcallback : ∀ e, e.Proper → (callback e).Proper H)
    (hevents : ∀ e ∈ events, e.Proper) (hs : s.Proper H)
    (hd : deliver perform i h callback events s = some (x, s')) : s'.Proper H := by
  induction events generalizing s with
  | nil =>
    cases hd
    exact hs
  | cons e events ih =>
    obtain ⟨he, hevents⟩ := List.forall_mem_cons.mp hevents
    have hentered : (s.note [.entered i h e]).Proper H := hs.note (by simp [Occurrence.IsLent])
    rw [deliver] at hd
    split at hd
    · rename_i v s₁ hcall
      exact ih hevents ((hperform (hcallback e he) hentered hcall).1.note (by simp [Occurrence.IsLent]))
        hd
    · rename_i message s₁ hcall
      cases hd
      exact (hperform (hcallback e he) hentered hcall).1.note (by simp [Occurrence.IsLent])
    · cases hd

theorem proper_flush {fuel : Nat} (hs : s.Proper H) (hf : flush perform h i fuel s = some s') :
    s'.Proper H := by
  induction fuel generalizing s with
  | zero => cases hf
  | succ fuel ih =>
    rcases flush_cases hf with ⟨rfl, -⟩ | ⟨inst, hinst, -, hrest⟩
    · exact hs
    · obtain ⟨hworld, hevents⟩ := hs.world.collect hinst
      have hcollected : (s.collect i inst).2.Proper H := by
        refine ⟨by rwa [world_collect], fun o ho => ?_⟩
        rw [trace_collect, List.mem_append] at ho
        rcases ho with ho | ho
        · exact hs.trace o ho
        · obtain ⟨e, -, rfl⟩ := List.mem_map.mp ho
          trivial
      rcases hrest with ⟨-, rfl⟩ | ⟨-, x, s₁, hdeliver, hrest⟩
      · exact hcollected
      · have hcallbacks := (hs.world.instances inst (List.mem_of_getElem? hinst)).callbacks h
        have hs₁ := proper_deliver hperform hcallbacks (by rwa [collect_eq])
          (hcollected.update fun hw => hw.dispatch i true) hdeliver
        rcases hrest with ⟨-, hf⟩ | ⟨message, -, rfl⟩
        · exact ih (hs₁.update fun hw => hw.dispatch i false) hf
        · exact hs₁.update fun hw => (hw.dispatch i false).abandon h i message

theorem proper_change {fuel : Nat} {op : Operation ε} {c : Change ε} {r : Reply}
    (hc : op.change? = some c) (hop : op.Proper H) (hs : s.Proper H)
    (hr : change perform fuel c s = some (r, s')) : s'.Proper H := by
  have hanswer {s : Recorded ε} (hs : s.Proper H) (r : Except LibraryError Reply) :
      Proper H { s with world := (s.world.answer r).2 } := ⟨hs.world.answer r, hs.trace⟩
  unfold change at hr
  split at hr
  · rename_i e _
    cases hr
    exact hanswer hs (.error e)
  · rename_i j inst hfind
    obtain ⟨-, hinst⟩ := World.find_eq_ok hfind
    have hproper := hs.world.instances inst (List.mem_of_getElem? hinst)
    split at hr
    · cases hr
      exact hanswer hs (.error (.busy c.handle))
    · split at hr
      · rename_i r m happly
        obtain ⟨s₁, hflush, hr⟩ := Option.map_eq_some_iff.mp hr
        cases hr
        have hbodies := Operation.change?_bodies hc (fun heq => by
          subst heq
          exact hop) happly hproper.bodies
        have hmachine := Operation.change?_proper hc hop happly hproper.machine
        have hstored : (s.store j inst m).Proper H :=
          hs.store ⟨hproper.callbacks, hmachine, hbodies⟩
        exact hanswer (proper_flush hperform hstored hflush) (.ok r)
      · rename_i e _
        obtain ⟨s₁, hflush, hr⟩ := Option.map_eq_some_iff.mp hr
        cases hr
        exact hanswer (proper_flush hperform hs hflush) (.error (.machine e))

theorem proper_drive {fuel : Nat} {operation : String} {r : Reply}
    {f : Nat → Instance ε → Recorded ε → Option (Except LibraryError Bool × Recorded ε)}
    (hstep : ∀ {i inst s r s₁}, s.world.instances[i]? = some inst → s.Proper H →
      f i inst s = some (r, s₁) → s₁.Proper H) (hs : s.Proper H)
    (hr : drive perform fuel operation h f s = some (r, s')) : s'.Proper H := by
  have hanswer {s : Recorded ε} (hs : s.Proper H) (r : Except LibraryError Bool) :
      (s.answerFlag r).2.Proper H := ⟨hs.world.answer r, hs.trace⟩
  unfold drive at hr
  split at hr
  · rename_i e _
    cases hr
    exact hanswer hs (.error e)
  · rename_i i inst hfind
    obtain ⟨-, hinst⟩ := World.find_eq_ok hfind
    split at hr
    · cases hr
      exact hanswer hs (.error (.reentrant operation))
    · split at hr
      · cases hr
        exact hanswer hs (.error (.busy h))
      · split at hr
        · cases hr
        · rename_i r s₁ hf
          obtain ⟨s₂, hflush, hr⟩ := Option.map_eq_some_iff.mp hr
          cases hr
          exact hanswer (proper_flush hperform (hstep hinst hs hf) hflush) _

omit hperform in
theorem proper_startInstance {bough : String} {inst : Instance ε} {r : Except LibraryError Bool}
    (hinst : s.world.instances[i]? = some inst) (hs : s.Proper H)
    (hr : startInstance bough i inst s = some (r, s')) : s'.Proper H := by
  have hproper := hs.world.instances inst (List.mem_of_getElem? hinst)
  unfold startInstance at hr
  split at hr
  · rename_i m hstart
    cases hr
    obtain ⟨b, -, rfl⟩ := Machine.start_eq_ok hstart
    exact hs.store ⟨hproper.callbacks, hproper.machine.congr rfl rfl,
      Machine.bodies_congr rfl hproper.bodies⟩
  · cases hr
    exact hs

theorem proper_runInstance {fuel : Nat} {inst : Instance ε} {r : Except LibraryError Bool}
    (hinst : s.world.instances[i]? = some inst) (hs : s.Proper H)
    (hr : runInstance perform fuel i inst s = some (r, s')) : s'.Proper H := by
  have hproper := hs.world.instances inst (List.mem_of_getElem? hinst)
  unfold runInstance at hr
  split at hr
  · cases hr
  · rename_i ended m s₁ hrun
    cases hr
    have hbusy : Instance.Proper H { inst with busy := true } :=
      ⟨hproper.callbacks, hproper.machine, hproper.bodies⟩
    have hoccupied : (s.occupy i inst).Proper H := hs.update fun hw => hw.setInstance hbusy i
    have hprovides : Machine.Provides
        (fun (body : List Value → Reaction ε) args s => perform (body args) s)
        (fun body => ∀ args, (∀ v ∈ args, v.Proper) → (body args).Proper H) (Proper H) :=
      fun body args s r s' hbody hargs hs hcall => hperform (hbody args hargs) hs hcall
    obtain ⟨hm, hs₁⟩ := hproper.machine.run hprovides hproper.bodies hoccupied hrun
    have hbodies := (Machine.progress_run hrun).bodies hproper.bodies
    have hconcluded : (World.conclude m ended).2.Proper ∧ (World.conclude m ended).2.Bodies
        fun body => ∀ args, (∀ v ∈ args, v.Proper) → (body args).Proper H := by
      cases ended with
      | panic message => exact ⟨hm.congr rfl rfl, Machine.bodies_congr rfl hbodies⟩
      | _ => exact ⟨hm, hbodies⟩
    refine (hs₁.update fun hw => hw.modifyInstance (fun inst hinst => ?_) i).note
      (isLent_additions i _ _)
    exact ⟨hinst.callbacks, hconcluded.1, hconcluded.2⟩

end

theorem proper_create {bytes : Bytes} {callbacks : Handle → Event → Reaction ε} (hs : s.Proper H)
    (hcallbacks : ∀ h e, e.Proper → (callbacks h e).Proper H) :
    (s.create bytes callbacks).2.Proper H := by
  unfold create World.open?
  cases Container.parse bytes with
  | error e => exact (hs.update fun hw => hw.report _ _).note (by simp)
  | ok c =>
    refine (hs.update fun hw => ⟨hw.host, hw.handler, fun inst hinst => ?_⟩).note
      (by simp [Occurrence.IsLent])
    rcases List.mem_append.mp hinst with hinst | hinst
    · exact hw.instances inst hinst
    · rw [List.mem_singleton.mp hinst]
      refine ⟨hcallbacks, Machine.proper_create c, fun g hg arity body hslot => ?_⟩
      obtain ⟨symbol, -, rfl⟩ := List.mem_map.mp hg
      cases hslot

theorem isLent_returned {fuel : Nat} {op : Operation ε} {r : Reply} {w w' : World ε}
    (hw : w.Proper H) (hr : World.exec (fuel + 1) op w = some (r, w')) (since : Nat) :
    (Occurrence.returned op since w r w').IsLent := by
  cases op <;> try trivial
  rename_i h name
  intro i inst v hfind hvalue
  change some (.buffer (w.lend h name).1, (w.lend h name).2) = some (r, w') at hr
  split
  · rename_i hbusy
    cases hr
    rw [World.lend_of_busy hfind hbusy]
  · rename_i hbusy
    rw [World.lend_of_value hfind (by simpa using hbusy) hvalue] at hr
    cases hr
    have hproper := hw.instances inst (List.mem_of_getElem? (World.find_eq_ok hfind).2)
    refine ⟨rfl, .ofValue v, by simp, ?_⟩
    exact Wire.decode_toBytes_iff (hproper.machine.of_value hvalue)

theorem proper_exec {fuel : Nat} {op : Operation ε} {r : Reply} (hop : op.Proper H)
    (hs : s.Proper H) (hr : exec fuel op s = some (r, s')) : s'.Proper H := by
  -- The operations within this one have less fuel.
  induction fuel generalizing op s r s' with
  | zero => cases hr
  | succ fuel ih =>
    have hperform {r : Reaction ε} {s s' : Recorded ε} {x : HostResult} (hr : r.Proper H)
        (hs : s.Proper H) (h : Recorded.perform (exec fuel) r s = some (x, s')) :
        s'.Proper H ∧ ∀ v, x = .value v → v.Proper :=
      proper_perform (fun hop hs h => ih hop hs h) r s hr hs h
    have herase := erase_exec (fuel + 1) op s
    rw [hr] at herase
    rw [exec] at hr
    obtain ⟨⟨r', s₁⟩, henact, heq⟩ := Option.map_eq_some_iff.mp hr
    cases heq
    refine Proper.note ?_ (by simpa using isLent_returned hs.world herase.symm s.trace.length)
    rcases op.kinds with ⟨bytes, callbacks, rfl⟩ | ⟨h, bough, rfl⟩ | ⟨h, rfl⟩ | ⟨c, hc⟩ | hquiet
    · cases henact
      exact proper_create hs hop
    · exact proper_drive hperform (fun hinst hs hf => proper_startInstance hinst hs hf) hs henact
    · have hrun : drive (Recorded.perform (exec fuel)) fuel "run" h
          (runInstance (Recorded.perform (exec fuel)) fuel) s = some (r, s₁) := henact
      exact proper_drive hperform (fun hinst hs hf => proper_runInstance hperform hinst hs hf) hs hrun
    · rw [enact_change hc] at henact
      exact proper_change hperform hc hop hs henact
    · rw [enact_quiet hquiet] at henact
      obtain ⟨⟨r', w⟩, hexec, heq⟩ := Option.map_eq_some_iff.mp henact
      cases heq
      exact hs.update fun hw => hw.quiet hquiet hexec

/-- Host code that makes proper values only gets to `s` from an empty library. -/
def Reached (H : ε → Prop) (s : Recorded ε) : Prop :=
  ∃ (handler : Severity → String → ε → ε) (host : ε) (main : Reaction ε) (fuel : Nat) (x : HostResult),
    H host ∧ (∀ s message e, H e → H (handler s message e)) ∧ main.Proper H ∧
      perform (exec fuel) main ⟨.create handler host, []⟩ = some (x, s)

theorem Reached.proper (hs : s.Reached H) : s.Proper H := by
  obtain ⟨handler, host, main, fuel, x, hhost, hhandler, hmain, hrun⟩ := hs
  have hempty : World.Proper H (.create handler host) := World.proper_create hhost hhandler
  refine (proper_perform (fun hop hs h => ?_) main _ hmain ⟨hempty, by simp⟩ hrun).1
  exact proper_exec hop hs h

theorem Reached.atRest (hs : s.Reached H) : s.world.AtRest := by
  obtain ⟨handler, host, main, fuel, x, -, -, -, hrun⟩ := hs
  have hworld := erase_perform (erase_exec fuel) main ⟨.create handler host, []⟩
  rw [hrun] at hworld
  exact World.atRest_perform main _ (World.atRest_create handler host) hworld.symm

end Recorded

end Dialogue
