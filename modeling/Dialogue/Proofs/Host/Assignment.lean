import Dialogue.Proofs.Host.Likeness
import Dialogue.Proofs.Host.Rest
import Dialogue.Proofs.Machine.Admission

/-!
Assignments by host code while events are delivered. Where no machine runs and nothing waits, an
assignment changes one machine or is reported, and whatever comes of it is on record.
-/

namespace Dialogue

variable {ε : Type}

namespace Occurrence

/-- What is on record of a delivery whose callbacks do nothing but assign. -/
def OfAssigning (i : Nat) : Occurrence ε → Prop
  | entered j _ _ | left j => j = i
  | returned (.setExtern ..) .. => True
  | _ => False

def IsAccepted : Occurrence ε → Prop
  | returned (.setExtern ..) _ before r after => r = .flag true ∧ after.host = before.host
  | _ => True

def isRefused : Occurrence ε → Bool
  | returned (.setExtern ..) _ _ (.flag false) _ => true
  | _ => false

theorem isRefused_iff {o : Occurrence ε} : o.isRefused = true ↔
    ∃ h name v since before after,
      o = returned (.setExtern h name v) since before (.flag false) after := by
  unfold isRefused
  split
  · simp
  · rename_i hother
    refine iff_of_false Bool.false_ne_true ?_
    rintro ⟨h, name, v, since, before, after, rfl⟩
    exact hother _ _ _ _ _ _ rfl

end Occurrence

def Trace.Accepted (t : List (Occurrence ε)) : Prop := ∀ o ∈ t, o.IsAccepted

/-- The events `es` are delivered to callbacks that do nothing but assign. All that they assign is
accepted if and only if `P` holds. -/
structure Trace.Assigning (i : Nat) (es : List Event) (P : Prop) (t : List (Occurrence ε)) :
    Prop where
  assigning : ∀ o ∈ t, o.OfAssigning i
  delivered : Trace.delivered i t = es
  accepted : Trace.Accepted t ↔ P

namespace Trace

variable {i : Nat} {es es' : List Event} {P Q : Prop} {t t' : List (Occurrence ε)}

theorem accepted_append : Accepted (t ++ t') ↔ Accepted t ∧ Accepted t' := List.forall_mem_append

theorem assigning_nil (i : Nat) : Assigning i [] True ([] : List (Occurrence ε)) :=
  ⟨List.forall_mem_nil _, rfl, iff_of_true (List.forall_mem_nil _) trivial⟩

theorem Assigning.append (h : Assigning i es P t) (h' : Assigning i es' Q t') :
    Assigning i (es ++ es') (P ∧ Q) (t ++ t') := by
  refine ⟨?_, ?_, ?_⟩
  · exact List.forall_mem_append.mpr ⟨h.assigning, h'.assigning⟩
  · rw [delivered_append, h.delivered, h'.delivered]
  · rw [accepted_append, h.accepted, h'.accepted]

theorem Assigning.congr (h : Assigning i es P t) (hPQ : P ↔ Q) : Assigning i es Q t :=
  ⟨h.assigning, h.delivered, h.accepted.trans hPQ⟩

theorem assigning_entered (i : Nat) (h : Handle) (e : Event) :
    Assigning i [e] True [(.entered i h e : Occurrence ε)] := by
  refine ⟨by simp [Occurrence.OfAssigning], ?_, by simp [Accepted, Occurrence.IsAccepted]⟩
  simp [delivered, (projections_entered i h e).1]

theorem assigning_left (i : Nat) : Assigning i [] True [(.left i : Occurrence ε)] := by
  refine ⟨by simp [Occurrence.OfAssigning], ?_, by simp [Accepted, Occurrence.IsAccepted]⟩
  simp [delivered, (projections_left i).1]

theorem assigning_returned (i : Nat) (h : Handle) (name : String) (v : Value) (since : Nat)
    (before after : World ε) (r : Reply) :
    Assigning i [] (r = .flag true ∧ after.host = before.host)
      [.returned (.setExtern h name v) since before r after] := by
  refine ⟨by simp [Occurrence.OfAssigning], ?_, by simp [Accepted, Occurrence.IsAccepted]⟩
  simp [delivered, invocations, Occurrence.entered?]

end Trace

namespace World

variable {w w' : World ε} {h : Handle} {m m' : HostMachine ε}

structure Quiet (w : World ε) : Prop where
  clear : ∀ inst ∈ w.instances,
    inst.busy = false ∧ inst.machine.events = [] ∧ inst.machine.diagnostics = []
  sound : w.arena.Sound

theorem Quiet.congr (hw : w.Quiet) (hinstances : w'.instances = w.instances)
    (harena : w'.arena = w.arena) : w'.Quiet :=
  ⟨hinstances ▸ hw.clear, harena ▸ hw.sound⟩

theorem Quiet.modifyInstance (hw : w.Quiet) (i : Nat) {f : Instance ε → Instance ε}
    (hf : ∀ inst ∈ w.instances, (f inst).busy = false ∧ (f inst).machine.events = [] ∧
      (f inst).machine.diagnostics = []) : (w.modifyInstance i f).Quiet := by
  refine ⟨fun inst hinst => ?_, hw.sound⟩
  obtain ⟨j, hj⟩ := List.getElem?_of_mem hinst
  simp only [World.modifyInstance, List.getElem?_modify] at hj
  split at hj
  · obtain ⟨inst₀, hinst₀, rfl⟩ := Option.map_eq_some_iff.mp hj
    exact hf inst₀ (List.mem_of_getElem? hinst₀)
  · exact hw.clear inst (List.mem_of_getElem? (by simpa using hj))

theorem Quiet.dispatch (hw : w.Quiet) (i : Nat) (b : Bool) : (w.dispatch i b).Quiet :=
  hw.modifyInstance i fun inst hinst => hw.clear inst hinst

theorem Quiet.modifyMachine (hw : w.Quiet) (h : Handle) (hevents : m.events = [])
    (hdiagnostics : m.diagnostics = []) : (w.modifyMachine h fun _ => m).Quiet := by
  unfold World.modifyMachine
  split
  · exact hw.modifyInstance _ fun inst hinst =>
      ⟨(hw.clear inst hinst).1, hevents, hdiagnostics⟩
  · exact hw

theorem Quiet.exists_find (hw : w.Quiet) (hm : w.machine? h = some m) :
    ∃ i inst, w.find h = .ok (i, inst) ∧ inst.machine = m ∧ inst.busy = false ∧
      m.events = [] ∧ m.diagnostics = [] := by
  obtain ⟨i, hi, hm⟩ := Option.bind_eq_some_iff.mp hm
  obtain ⟨inst, hinst, rfl⟩ := Option.map_eq_some_iff.mp hm
  obtain ⟨hbusy, hevents, hdiagnostics⟩ := hw.clear inst (List.mem_of_getElem? hinst)
  exact ⟨i, inst, find_eq_of_get? hi hinst, rfl, hbusy, hevents, hdiagnostics⟩

theorem machine?_dispatch (w : World ε) (i : Nat) (b : Bool) (h : Handle) :
    (w.dispatch i b).machine? h = w.machine? h := by
  unfold machine? dispatch World.modifyInstance
  congr 1
  funext j
  simp only [List.getElem?_modify]
  split <;> simp [Function.comp_def]

theorem AtRest.quiet (hw : w.AtRest) : w.Quiet := by
  refine ⟨fun inst hinst => ?_, hw.sound⟩
  have hidle := hw.idle inst hinst
  exact ⟨congrArg Status.busy hidle, congrArg Status.events hidle,
    congrArg Status.diagnostics hidle⟩

inductive Assigns (h : Handle) (name : String) (v : Value) (m : HostMachine ε) (w : World ε) :
    Reply → World ε → Prop
  | accepted {m' : HostMachine ε} (hset : m.setExtern name v = .ok m') :
    Assigns h name v m w (.flag true) (w.modifyMachine h fun _ => m')
  | refused {e : MachineError} (hset : m.setExtern name v = .error e) :
    Assigns h name v m w (.flag false) (w.report e.severity e.message)

end World

namespace Recorded

variable {s s' : Recorded ε} {h : Handle} {i : Nat} {m m' : HostMachine ε} {name : String}
  {v : Value} {perform : Reaction ε → Recorded ε → Option (HostResult × Recorded ε)}

theorem collect_quiet {inst : Instance ε} (hinst : s.world.instances[i]? = some inst)
    (hevents : inst.machine.events = []) (hdiagnostics : inst.machine.diagnostics = []) :
    s.collect i inst = ([], s) := by
  have hdrained : inst.drained = inst := by
    obtain ⟨⟨⟩, _, _, _⟩ := inst
    simp_all [Instance.drained]
  rw [collect_drained, hevents, hdiagnostics, hdrained, update, World.setInstance_self hinst]
  simp

theorem flush_quiet (hs : s.world.Quiet) (h : Handle) (i fuel : Nat) :
    flush perform h i (fuel + 1) s = some s := by
  rw [flush]
  cases hinst : s.world.instances[i]? with
  | none => rfl
  | some inst =>
    obtain ⟨hbusy, hevents, hdiagnostics⟩ := hs.clear inst (List.mem_of_getElem? hinst)
    simp [hbusy, collect_quiet hinst hevents hdiagnostics]

theorem store_setExtern {inst : Instance ε}
    (hset : inst.machine.setExtern name v = .ok m') :
    s.store i inst m' = s.update (·.setInstance i { inst with machine := m' }) := by
  have hnone : additions i inst.machine m' = [] := by
    simp [additions, (Machine.adjusts_setExtern hset).events, Machine.diagnostics_setExtern hset]
  rw [store, hnone, note, List.append_nil]

theorem exec_setExtern {fuel : Nat} {r : Reply} (hs : s.world.Quiet)
    (hm : s.world.machine? h = some m)
    (hexec : exec fuel (.setExtern h name v) s = some (r, s')) :
    ∃ w, World.Assigns h name v m s.world r w ∧ s' = ⟨w, s.trace ++
      [.returned (.setExtern h name v) s.trace.length s.world r w]⟩ := by
  obtain ⟨i, inst, hfind, rfl, hbusy, hevents, hdiagnostics⟩ := hs.exists_find hm
  obtain ⟨-, hinst⟩ := World.find_eq_ok hfind
  rcases fuel with _ | fuel
  · cases hexec
  rw [exec, Option.map_eq_some_iff] at hexec
  obtain ⟨⟨r, s₁⟩, henact, hexec⟩ := hexec
  cases hexec
  rw [enact_change rfl, change] at henact
  simp only [hfind, hbusy, Bool.false_eq_true, if_false] at henact
  cases hset : inst.machine.setExtern name v with
  | error e =>
    simp only [hset, Except.map] at henact
    rcases fuel with _ | fuel
    · cases henact
    rw [flush_quiet hs] at henact
    cases henact
    exact ⟨_, .refused hset, rfl⟩
  | ok m' =>
    simp only [hset, Except.map, store_setExtern hset] at henact
    have hadjusts := Machine.adjusts_setExtern hset
    have hkept := (Machine.diagnostics_setExtern hset).trans hdiagnostics
    have hworld := World.modifyMachine_of_find hfind fun _ => m'
    have hquiet := hs.modifyMachine h (hadjusts.events.trans hevents) hkept
    rw [hworld] at hquiet
    rcases fuel with _ | fuel
    · cases henact
    rw [flush_quiet hquiet] at henact
    cases henact
    refine ⟨_, .accepted hset, ?_⟩
    rw [hworld]
    rfl

end Recorded

end Dialogue
