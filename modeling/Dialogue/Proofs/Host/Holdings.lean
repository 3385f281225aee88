import Dialogue.Proofs.Host.Conduct
import Dialogue.Proofs.Machine.Holdings

namespace Dialogue

variable {ε : Type}

mutual

def Operation.Proper (H : ε → Prop) : Operation ε → Prop
  | .create _ callbacks => ∀ h e, e.Proper → (callbacks h e).Proper H
  | .setExtern _ _ v => v.Proper
  | .setFunction _ _ _ body => ∀ args, (∀ v ∈ args, v.Proper) → (body args).Proper H
  | _ => True
termination_by structural op => op

/-- The host code makes proper values only, as long as the host's state is in `H`, and keeps it
there. -/
def Reaction.Proper (H : ε → Prop) : Reaction ε → Prop
  | .done v => v.Proper
  | .panic _ => True
  | .update f next => (∀ e, H e → H (f e)) ∧ next.Proper H
  | .inspect next => ∀ e, H e → (next e).Proper H
  | .call op next => op.Proper H ∧ ∀ r, (next r).Proper H
termination_by structural r => r

end

structure Instance.Proper (H : ε → Prop) (inst : Instance ε) : Prop where
  callbacks : ∀ h e, e.Proper → (inst.callbacks h e).Proper H
  machine : inst.machine.Proper
  bodies : inst.machine.Bodies fun body => ∀ args, (∀ v ∈ args, v.Proper) → (body args).Proper H

theorem Operation.change?_proper {H : ε → Prop} {op : Operation ε} {c : Change ε}
    (hc : op.change? = some c) (hop : op.Proper H) {m m' : HostMachine ε} {r : Reply}
    (h : c.apply m = .ok (r, m')) (hm : m.Proper) : m'.Proper := by
  cases op <;> cases hc
  case unsubscribe h' name =>
    cases h
    rcases Machine.unsubscribe_cases m name with heq | ⟨g, -, heq⟩ <;> rw [heq]
    · exact hm
    · exact hm.update fun _ _ hslot => .inl hslot
  case declareEnum | save =>
    cases h
    exact hm.congr rfl rfl
  case load h' snapshot =>
    cases h
    exact hm.loadEntries snapshot.entries
  all_goals
    obtain ⟨m₁, h₁, heq⟩ := Except.map_eq_ok_iff.mp h
    cases heq
  case selectContinue h' =>
    obtain ⟨-, rfl⟩ := Machine.selectContinue_eq_ok h₁
    exact hm.congr rfl rfl
  case selectChoice h' index =>
    obtain ⟨-, o, -, rfl⟩ := Machine.selectChoice_eq_ok h₁
    exact hm.congr rfl rfl
  case subscribe h' name =>
    obtain ⟨g, -, -, rfl⟩ := Machine.subscribe_eq_ok h₁
    exact hm.update fun _ _ hslot => .inl hslot
  case setExtern h' name v => exact hm.setExtern hop h₁
  case setFunction h' name arity body =>
    obtain ⟨g, -, rfl⟩ := Machine.setFunction_eq_ok h₁
    exact hm.update fun _ _ hslot => by cases hslot

namespace World

variable {H : ε → Prop} {w w' : World ε} {i : Nat} {inst : Instance ε}

structure Proper (H : ε → Prop) (w : World ε) : Prop where
  host : H w.host
  handler : ∀ s message e, H e → H (w.channel.handler s message e)
  instances : ∀ inst ∈ w.instances, inst.Proper H

theorem proper_create {handler : Severity → String → ε → ε} {host : ε} (hhost : H host)
    (hhandler : ∀ s message e, H e → H (handler s message e)) :
    (create handler host).Proper H :=
  ⟨hhost, hhandler, nofun⟩

theorem Proper.update (hw : w.Proper H) {f : ε → ε} (hf : ∀ e, H e → H (f e)) :
    Proper H { w with host := f w.host } :=
  ⟨hf _ hw.host, hw.handler, hw.instances⟩

theorem Proper.report (hw : w.Proper H) (s : Severity) (message : String) :
    (w.report s message).Proper H := by
  unfold World.report
  split
  · exact hw
  · exact ⟨hw.handler s message w.host hw.host, hw.handler, hw.instances⟩

theorem Proper.reports (hw : w.Proper H) (es : List MachineError) : (w.reports es).Proper H := by
  induction es generalizing w with
  | nil => exact hw
  | cons e es ih => exact ih (hw.report _ _)

theorem Proper.answer {α : Type} (hw : w.Proper H) (r : Except LibraryError α) :
    (w.answer r).2.Proper H := by
  cases r with
  | ok x => exact hw
  | error e => exact hw.report _ _

theorem Proper.setInstance (hw : w.Proper H) (hinst : inst.Proper H) (i : Nat) :
    (w.setInstance i inst).Proper H := by
  refine ⟨hw.host, hw.handler, fun other hother => ?_⟩
  rcases List.mem_or_eq_of_mem_set hother with hother | rfl
  · exact hw.instances other hother
  · exact hinst

theorem Proper.modifyInstance (hw : w.Proper H) {f : Instance ε → Instance ε}
    (hf : ∀ inst, inst.Proper H → (f inst).Proper H) (i : Nat) :
    (w.modifyInstance i f).Proper H := by
  refine ⟨hw.host, hw.handler, fun inst hinst => ?_⟩
  obtain ⟨j, hj⟩ := List.getElem?_of_mem hinst
  simp only [World.modifyInstance, List.getElem?_modify] at hj
  obtain ⟨inst₀, hinst₀, rfl⟩ := Option.map_eq_some_iff.mp hj
  have hproper := hw.instances inst₀ (List.mem_of_getElem? hinst₀)
  split
  · exact hf inst₀ hproper
  · exact hproper

theorem Proper.dispatch (hw : w.Proper H) (i : Nat) (b : Bool) : (w.dispatch i b).Proper H :=
  hw.modifyInstance (f := fun inst => { inst with dispatching := b })
    (fun _ hinst => ⟨hinst.callbacks, hinst.machine, hinst.bodies⟩) i

theorem Proper.abandon (hw : w.Proper H) (h : Handle) (i : Nat) (message : Option String) :
    (w.abandon h i message).Proper H := by
  refine Proper.report (hw.modifyInstance (fun inst hinst => ?_) i) _ _
  exact ⟨hinst.callbacks, hinst.machine.congr rfl rfl, Machine.bodies_congr rfl hinst.bodies⟩

theorem Proper.collect (hw : w.Proper H) (hinst : w.instances[i]? = some inst) :
    (w.collect i inst).2.Proper H ∧ ∀ e ∈ (w.collect i inst).1, e.Proper := by
  have hproper := hw.instances inst (List.mem_of_getElem? hinst)
  have hdrained : inst.drained.Proper H := by
    refine ⟨hproper.callbacks, ⟨hproper.machine.values, fun e he => ?_⟩,
      Machine.bodies_congr rfl hproper.bodies⟩
    unfold Instance.drained at he
    cases hd : inst.dispatching <;> simp only [hd, if_true, Bool.false_eq_true, if_false] at he
    · cases he
    · exact hproper.machine.events e he
  constructor
  · rw [collect_snd]
    exact (hw.setInstance hdrained i).reports _
  · rw [collect_events]
    split
    · exact nofun
    · exact hproper.machine.events

theorem Proper.congr (hw : w.Proper H) (hhost : w'.host = w.host)
    (hhandler : w'.channel.handler = w.channel.handler) (hinstances : w'.instances = w.instances) :
    w'.Proper H :=
  ⟨hhost ▸ hw.host, hhandler ▸ hw.handler, hinstances ▸ hw.instances⟩

theorem Proper.destroy (hw : w.Proper H) (h : Handle) : (w.destroy h).2.Proper H := by
  unfold World.destroy
  split
  · exact hw.congr rfl rfl rfl
  · exact hw.report _ _

theorem Proper.lend (hw : w.Proper H) (h : Handle) (name : String) : (w.lend h name).2.Proper H := by
  unfold World.lend
  simp only
  split
  · exact hw.answer _
  · exact (hw.answer _).congr rfl rfl rfl

theorem Proper.release (hw : w.Proper H) (number : Nat) : (w.release number).Proper H := by
  unfold World.release
  split
  · exact hw
  · exact hw.congr rfl rfl rfl

theorem Proper.quiet {fuel : Nat} {op : Operation ε} {r : Reply} (hw : w.Proper H)
    (hquiet : op.isQuiet = true) (h : exec (fuel + 1) op w = some (r, w')) : w'.Proper H := by
  cases op <;> first | cases hquiet; done | skip
  case destroy h' =>
    cases h
    exact hw.destroy h'
  case getValue h' name =>
    cases h
    exact hw.lend h' name
  case release number =>
    cases h
    exact hw.release number
  case report severity message =>
    cases h
    exact hw.report severity message
  case isAlive | size | bufferBytes | outstanding =>
    cases h
    exact hw
  case setSeverity =>
    cases h
    exact hw.congr rfl rfl rfl
  case resetHandler =>
    cases h
    exact ⟨hw.host, fun _ _ _ he => he, hw.instances⟩
  all_goals
    cases h
    exact hw.answer _

end World

end Dialogue
