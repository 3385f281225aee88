import Dialogue.Proofs.Host.Arena
import Dialogue.Proofs.Host.Operations
import Dialogue.Proofs.Machine.Progress

/-!
What operations keep when host code keeps to rules. However operations are nested, each returns with
all queues empty, has changed the host by the rules only, and has kept of every instance what is not
in the hands of the script.
-/

namespace Dialogue

variable {ε : Type}

/-- The host code performs only operations in `K` and changes the host only within `H`. -/
def Reaction.Within (K : Operation ε → Prop) (H : ε → ε → Prop) : Reaction ε → Prop
  | .done _ | .panic _ => True
  | .update f next => (∀ e, H e (f e)) ∧ next.Within K H
  | .inspect next => ∀ e, (next e).Within K H
  | .call op next => K op ∧ ∀ r, (next r).Within K H

/-- From the host `e` on, the host code performs only operations in `K`, and whenever it has changed
the host `I` holds of it again. An operation leaves any host behind of which `I` holds. -/
def Reaction.Upholds (K : Operation ε → Prop) (I : ε → Prop) : Reaction ε → ε → Prop
  | .done _, _ | .panic _, _ => True
  | .update f next, e => I (f e) ∧ next.Upholds K I (f e)
  | .inspect next, e => (next e).Upholds K I e
  | .call op next, _ => K op ∧ ∀ r e', I e' → (next r).Upholds K I e'

theorem Reaction.upholds_true :
    ∀ (r : Reaction ε) (e : ε), r.Upholds (fun _ => True) (fun _ => True) e
  | .done _, _ | .panic _, _ => trivial
  | .update f next, e => ⟨trivial, upholds_true next (f e)⟩
  | .inspect next, e => upholds_true (next e) e
  | .call _ next, _ => ⟨trivial, fun reply e' _ => upholds_true (next reply) e'⟩

theorem Reaction.Within.upholds {K : Operation ε → Prop} {H : ε → ε → Prop} {e₀ : ε}
    (htrans : ∀ {e e'}, H e₀ e → H e e' → H e₀ e') :
    ∀ (r : Reaction ε) (e : ε), r.Within K H → H e₀ e → r.Upholds K (H e₀) e
  | .done _, _ => fun _ _ => trivial
  | .panic _, _ => fun _ _ => trivial
  | .update f next, e => fun hr he =>
    ⟨htrans he (hr.1 e), Within.upholds htrans next (f e) hr.2 (htrans he (hr.1 e))⟩
  | .inspect next, e => fun hr he => Within.upholds htrans (next e) e (hr e) he
  | .call _ next, _ => fun hr _ =>
    ⟨hr.1, fun reply e' he' => Within.upholds htrans (next reply) e' (hr.2 reply) he'⟩

theorem Reaction.Upholds.mono {K K' : Operation ε → Prop} {I : ε → Prop}
    (hK : ∀ op, K op → K' op) : ∀ (r : Reaction ε) (e : ε), r.Upholds K I e → r.Upholds K' I e
  | .done _, _ => fun _ => trivial
  | .panic _, _ => fun _ => trivial
  | .update f next, e => fun hr => ⟨hr.1, Upholds.mono hK next (f e) hr.2⟩
  | .inspect next, e => fun hr => Upholds.mono hK (next e) e hr
  | .call op next, _ => fun hr =>
    ⟨hK op hr.1, fun reply e' he' => Upholds.mono hK (next reply) e' (hr.2 reply e' he')⟩

/-- Rules for host code and for the handler of messages. What host code hands out, as host functions
and as callbacks, keeps to them too. -/
structure Conduct (ε : Type) where
  operation : Operation ε → Prop
  host : ε → ε → Prop
  handler : (Severity → String → ε → ε) → Prop
  body : (List Value → Reaction ε) → Prop
  callbacks : (Handle → Event → Reaction ε) → Prop
  refl : ∀ e, host e e
  trans : ∀ {e e' e''}, host e e' → host e' e'' → host e e''
  reset : handler fun _ _ e => e
  host_of_handler : ∀ {f}, handler f → ∀ s message e, host e (f s message e)
  body_of_operation : ∀ {h name arity b}, operation (.setFunction h name arity b) → body b
  callbacks_of_operation : ∀ {bytes c}, operation (.create bytes c) → callbacks c
  upholds_of_body : ∀ {b}, body b → ∀ args e, (b args).Upholds operation (host e) e
  upholds_of_callbacks : ∀ {c}, callbacks c → ∀ h e s, (c h e).Upholds operation (host s) s

structure Profile (ε : Type) where
  callbacks : Handle → Event → Reaction ε
  container : Container
  symbols : List GlobalSymbol
  busy : Bool
  dispatching : Bool

structure Profile.IsFresh (p : Profile ε) : Prop where
  busy : p.busy = false
  dispatching : p.dispatching = false
  parsed : ∃ bytes, Container.parse bytes = .ok p.container
  symbols : p.symbols = p.container.globals

def Instance.profile (inst : Instance ε) : Profile ε :=
  ⟨inst.callbacks, inst.machine.container, inst.machine.globals.map (·.symbol), inst.busy,
    inst.dispatching⟩

def World.profiles (w : World ε) : List (Profile ε) := w.instances.map Instance.profile

namespace World

def reports (w : World ε) (es : List MachineError) : World ε :=
  es.foldl (fun w e => w.report e.severity e.message) w

theorem instances_reports (w : World ε) (es : List MachineError) :
    (w.reports es).instances = w.instances :=
  (foldl_report w es _ _).1

theorem collect_snd (w : World ε) (i : Nat) (inst : Instance ε) :
    (w.collect i inst).2 = (w.setInstance i inst.drained).reports inst.machine.diagnostics := by
  unfold collect Instance.drained
  cases inst.dispatching <;> rfl

end World

theorem Operation.change?_frame {op : Operation ε} {c : Change ε} (hc : op.change? = some c)
    {m m' : HostMachine ε} {r : Reply} (h : c.apply m = .ok (r, m')) :
    m'.container = m.container ∧ m'.globals.map (·.symbol) = m.globals.map (·.symbol) := by
  have hadjusts (hm : Machine.Adjusts m m') :
      m'.container = m.container ∧ m'.globals.map (·.symbol) = m.globals.map (·.symbol) :=
    ⟨hm.container, hm.symbols⟩
  cases op <;> cases hc
  case unsubscribe h' name =>
    cases h
    exact hadjusts (Machine.adjusts_unsubscribe m name)
  case declareEnum h' d =>
    cases h
    exact hadjusts (Machine.adjusts_declareEnum m d)
  case save h' =>
    cases h
    exact hadjusts (Machine.adjusts_save m)
  case load h' snapshot =>
    cases h
    exact hadjusts (Machine.adjusts_loadEntries m snapshot.entries)
  all_goals
    obtain ⟨m₁, hm, heq⟩ := Except.map_eq_ok_iff.mp h
    cases heq
  case selectContinue h' => exact hadjusts (Machine.adjusts_selectContinue hm)
  case subscribe h' name => exact hadjusts (Machine.adjusts_subscribe hm)
  case setExtern h' name v => exact hadjusts (Machine.adjusts_setExtern hm)
  case setFunction h' name arity body => exact hadjusts (Machine.adjusts_setFunction hm)
  case selectChoice h' index =>
    unfold Machine.selectChoice at hm
    split at hm
    · split at hm
      · cases hm
        exact ⟨rfl, rfl⟩
      · cases hm
    · cases hm

theorem Operation.change?_bodies {op : Operation ε} {c : Change ε} (hc : op.change? = some c)
    {P : (List Value → Reaction ε) → Prop}
    (hop : ∀ {h name arity b}, op = .setFunction h name arity b → P b)
    {m m' : HostMachine ε} {r : Reply} (h : c.apply m = .ok (r, m')) (hm : m.Bodies P) :
    m'.Bodies P := by
  cases op <;> cases hc
  case unsubscribe h' name =>
    cases h
    exact Machine.bodies_unsubscribe name hm
  case load h' snapshot =>
    cases h
    exact Machine.bodies_loadEntries snapshot.entries hm
  case declareEnum | save =>
    cases h
    exact Machine.bodies_congr rfl hm
  all_goals
    obtain ⟨m₁, h₁, heq⟩ := Except.map_eq_ok_iff.mp h
    cases heq
  case subscribe h' name => exact Machine.bodies_subscribe hm h₁
  case setExtern h' name v => exact Machine.bodies_setExtern hm h₁
  case setFunction h' name arity body => exact Machine.bodies_setFunction hm (hop rfl) h₁
  case selectContinue h' =>
    unfold Machine.selectContinue at h₁
    split at h₁ <;> cases h₁
    exact Machine.bodies_congr rfl hm
  case selectChoice h' index =>
    unfold Machine.selectChoice at h₁
    split at h₁
    · split at h₁ <;> cases h₁
      exact Machine.bodies_congr rfl hm
    · cases h₁

namespace Conduct

def Settled (C : Conduct ε) : Prop :=
  (∀ bytes c, ¬C.operation (.create bytes c)) ∧ ∀ h, ¬C.operation (.destroy h)

/-- Nothing waits, except for the instance `k`, and all host code keeps to the rules. -/
structure Orderly (C : Conduct ε) (k : Option Nat) (w : World ε) : Prop where
  handler : C.handler w.channel.handler
  callbacks : ∀ inst ∈ w.instances, C.callbacks inst.callbacks
  bodies : ∀ inst ∈ w.instances, inst.machine.Bodies C.body
  clear : ∀ i inst, w.instances[i]? = some inst → some i ≠ k →
    inst.machine.events = [] ∧ inst.machine.diagnostics = []
  sound : w.arena.Sound
  housed : ∀ h i, w.arena.get? h = some i → i < w.instances.length

structure Continues (C : Conduct ε) (w w' : World ε) : Prop where
  host : C.host w.host w'.host
  profiles : ∃ ps, w'.profiles = w.profiles ++ ps ∧ (∀ p ∈ ps, p.IsFresh) ∧ (C.Settled → ps = [])
  arena : C.Settled → w'.arena = w.arena

def Preserves (C : Conduct ε) (k k' : Option Nat) (w w' : World ε) : Prop :=
  C.Orderly k w → C.Orderly k' w' ∧ C.Continues w w'

variable {C : Conduct ε} {k k' k'' : Option Nat} {w w' w'' : World ε} {i j : Nat} {h : Handle}

theorem Continues.refl (w : World ε) : C.Continues w w :=
  ⟨C.refl w.host, ⟨[], by simp⟩, fun _ => rfl⟩

theorem Continues.trans (h : C.Continues w w') (h' : C.Continues w' w'') : C.Continues w w'' := by
  obtain ⟨ps, hps, hfresh, hnil⟩ := h.profiles
  obtain ⟨qs, hqs, hfresh', hnil'⟩ := h'.profiles
  refine ⟨C.trans h.host h'.host, ⟨ps ++ qs, ?_, ?_, ?_⟩, ?_⟩
  · rw [hqs, hps, List.append_assoc]
  · intro p hp
    exact (List.mem_append.mp hp).elim (hfresh p) (hfresh' p)
  · intro hs
    rw [hnil hs, hnil' hs, List.append_nil]
  · intro hs
    exact (h'.arena hs).trans (h.arena hs)

theorem Preserves.refl (k : Option Nat) (w : World ε) : C.Preserves k k w w :=
  fun hw => ⟨hw, .refl w⟩

theorem Preserves.trans (h : C.Preserves k k' w w') (h' : C.Preserves k' k'' w' w'') :
    C.Preserves k k'' w w'' := by
  intro hw
  obtain ⟨hw', hcontinues⟩ := h hw
  obtain ⟨hw'', hcontinues'⟩ := h' hw'
  exact ⟨hw'', hcontinues.trans hcontinues'⟩

theorem Orderly.host (hw : C.Orderly k w) (e : ε) : C.Orderly k { w with host := e } :=
  ⟨hw.handler, hw.callbacks, hw.bodies, hw.clear, hw.sound, hw.housed⟩

theorem Orderly.open (hw : C.Orderly none w) (k : Option Nat) : C.Orderly k w :=
  { hw with clear := fun i inst hinst _ => hw.clear i inst hinst nofun }

theorem Orderly.close (hw : C.Orderly (some i) w)
    (h : ∀ inst, w.instances[i]? = some inst →
      inst.machine.events = [] ∧ inst.machine.diagnostics = []) : C.Orderly none w := by
  refine { hw with clear := fun j inst hinst _ => ?_ }
  by_cases hj : j = i
  · subst hj
    exact h inst hinst
  · exact hw.clear j inst hinst fun heq => hj (Option.some.inj heq)

theorem preserves_host (k : Option Nat) {f : ε → ε} (hf : C.host w.host (f w.host)) :
    C.Preserves k k w { w with host := f w.host } :=
  fun hw => ⟨⟨hw.handler, hw.callbacks, hw.bodies, hw.clear, hw.sound, hw.housed⟩,
    hf, ⟨[], by simp [World.profiles]⟩, fun _ => rfl⟩

theorem preserves_report (k : Option Nat) (w : World ε) (s : Severity) (message : String) :
    C.Preserves k k w (w.report s message) := by
  unfold World.report
  split
  · exact .refl k w
  · intro hw
    exact preserves_host (f := w.channel.handler s message) k
      (C.host_of_handler hw.handler s message w.host) hw

theorem preserves_answer {α : Type} (k : Option Nat) (w : World ε) (r : Except LibraryError α) :
    C.Preserves k k w (w.answer r).2 := by
  cases r with
  | ok x => exact .refl k w
  | error e => exact preserves_report k w _ _

theorem preserves_answerFlag (k : Option Nat) (w : World ε) (r : Except LibraryError Bool) :
    C.Preserves k k w (w.answerFlag r).2 :=
  preserves_answer k w r

theorem preserves_reports (k : Option Nat) (w : World ε) (es : List MachineError) :
    C.Preserves k k w (w.reports es) := by
  induction es generalizing w with
  | nil => exact .refl k w
  | cons e es ih => exact (preserves_report k w _ _).trans (ih _)

theorem orderly_set {inst : Instance ε} (hw : C.Orderly k w) (hcallbacks : C.callbacks inst.callbacks)
    (hbodies : inst.machine.Bodies C.body)
    (hclear : some i = k ∨ (inst.machine.events = [] ∧ inst.machine.diagnostics = [])) :
    C.Orderly k (w.setInstance i inst) := by
  refine ⟨hw.handler, ?_, ?_, ?_, hw.sound, ?_⟩
  · intro other hmem
    rcases List.mem_or_eq_of_mem_set hmem with hmem | rfl
    · exact hw.callbacks other hmem
    · exact hcallbacks
  · intro other hmem
    rcases List.mem_or_eq_of_mem_set hmem with hmem | rfl
    · exact hw.bodies other hmem
    · exact hbodies
  · intro j other hother hj
    simp only [World.setInstance, List.getElem?_set] at hother
    split at hother
    · rename_i hij
      subst hij
      split at hother
      · cases hother
        rcases hclear with hk | hclear
        · exact absurd hk hj
        · exact hclear
      · cases hother
    · exact hw.clear j other hother hj
  · intro h j hj
    rw [World.setInstance, List.length_set]
    exact hw.housed h j hj

theorem profiles_set (w : World ε) (i : Nat) (inst : Instance ε) :
    (w.setInstance i inst).profiles = w.profiles.set i inst.profile := by
  simp [World.profiles, World.setInstance, List.map_set]

theorem profiles_set_same {inst inst' : Instance ε} (hinst : w.instances[i]? = some inst)
    (h : inst'.profile = inst.profile) : (w.setInstance i inst').profiles = w.profiles := by
  rw [profiles_set, h]
  obtain ⟨hi, rfl⟩ := List.getElem?_eq_some_iff.mp hinst
  apply List.ext_getElem?
  intro j
  by_cases hj : i = j
  · subst hj
    simp [World.profiles, hi]
  · simp [List.getElem?_set_ne hj]

theorem preserves_set {inst inst' : Instance ε} (hinst : w.instances[i]? = some inst)
    (hprofile : inst'.profile = inst.profile)
    (hbodies : inst.machine.Bodies C.body → inst'.machine.Bodies C.body)
    (hclear : some i = k ∨ (inst'.machine.events = [] ∧ inst'.machine.diagnostics = [])) :
    C.Preserves k k w (w.setInstance i inst') := by
  intro hw
  have hmem := List.mem_of_getElem? hinst
  have hcallbacks : inst'.callbacks = inst.callbacks := congrArg Profile.callbacks hprofile
  refine ⟨orderly_set hw ?_ (hbodies (hw.bodies inst hmem)) hclear, C.refl w.host, ?_, fun _ => rfl⟩
  · rw [hcallbacks]
    exact hw.callbacks inst hmem
  · exact ⟨[], by rw [profiles_set_same hinst hprofile, List.append_nil], nofun, fun _ => rfl⟩

theorem modifyInstance_eq {inst : Instance ε} (hinst : w.instances[i]? = some inst)
    (f : Instance ε → Instance ε) : w.modifyInstance i f = w.setInstance i (f inst) := by
  have h : w.instances.modify i f = w.instances.set i (f inst) := by
    apply List.ext_getElem?
    intro j
    rw [List.getElem?_modify, List.getElem?_set]
    obtain ⟨hi, -⟩ := List.getElem?_eq_some_iff.mp hinst
    split
    · rename_i hij
      subst hij
      rw [hinst]
      rfl
    · simp
  rw [World.modifyInstance, World.setInstance, h]

theorem preserves_same (k : Option Nat) (harena : w'.arena = w.arena)
    (hinstances : w'.instances = w.instances) (hhost : C.host w.host w'.host)
    (hhandler : C.Orderly k w → C.handler w'.channel.handler) :
    C.Preserves k k w w' := by
  intro hw
  refine ⟨⟨hhandler hw, ?_, ?_, ?_, ?_, ?_⟩, hhost, ⟨[], ?_, nofun, fun _ => rfl⟩, fun _ => harena⟩
  · exact hinstances ▸ hw.callbacks
  · exact hinstances ▸ hw.bodies
  · exact hinstances ▸ hw.clear
  · exact harena ▸ hw.sound
  · rw [harena, hinstances]
    exact hw.housed
  · rw [World.profiles, hinstances, List.append_nil, World.profiles]

theorem preserves_collect {inst : Instance ε} (hinst : w.instances[i]? = some inst)
    (hevents : inst.dispatching = true → inst.machine.events = []) :
    C.Preserves (some i) none w (w.collect i inst).2 := by
  intro hw
  have hdrained : C.Preserves (some i) (some i) w (w.setInstance i inst.drained) :=
    preserves_set hinst rfl (Machine.bodies_congr rfl) (.inl rfl)
  have hreports := hdrained.trans
    (preserves_reports (some i) (w.setInstance i inst.drained) inst.machine.diagnostics)
  rw [World.collect_snd]
  obtain ⟨hw', hcontinues⟩ := hreports hw
  refine ⟨hw'.close fun inst' hinst' => ?_, hcontinues⟩
  rw [World.instances_reports] at hinst'
  obtain ⟨hi, -⟩ := List.getElem?_eq_some_iff.mp hinst
  simp only [World.setInstance, List.getElem?_set_self hi, Option.some.injEq] at hinst'
  subst hinst'
  refine ⟨?_, rfl⟩
  cases hd : inst.dispatching with
  | false => simp [Instance.drained, hd]
  | true => simp [Instance.drained, hd, hevents hd]

theorem Continues.instance {inst : Instance ε} (h : C.Continues w w')
    (hinst : w.instances[i]? = some inst) :
    ∃ inst', w'.instances[i]? = some inst' ∧ inst'.profile = inst.profile := by
  obtain ⟨ps, hps, -⟩ := h.profiles
  have hprofile : w'.profiles[i]? = some inst.profile := by
    have hi : w.profiles[i]? = some inst.profile := by simp [World.profiles, hinst]
    rw [hps, List.getElem?_append_left (List.getElem?_eq_some_iff.mp hi).1, hi]
  rw [World.profiles, List.getElem?_map] at hprofile
  exact Option.map_eq_some_iff.mp hprofile

theorem Continues.bracket {inst inst₀ inst₁ : Instance ε} (hinst : w.instances[i]? = some inst)
    (h : C.Continues (w.setInstance i inst₀) w') (hprofile : inst₁.profile = inst.profile) :
    C.Continues w (w'.setInstance i inst₁) := by
  obtain ⟨ps, hps, hfresh, hnil⟩ := h.profiles
  refine ⟨h.host, ⟨ps, ?_, hfresh, hnil⟩, h.arena⟩
  have hi : i < w.profiles.length := by
    simpa [World.profiles] using (List.getElem?_eq_some_iff.mp hinst).1
  have hset := profiles_set_same hinst hprofile
  rw [profiles_set] at hset
  rw [profiles_set, hps, profiles_set, List.set_append_left _ _ (by simpa using hi), List.set_set, hset]

theorem dispatch_eq {inst : Instance ε} (hinst : w.instances[i]? = some inst) (b : Bool) :
    w.dispatch i b = w.setInstance i { inst with dispatching := b } :=
  modifyInstance_eq hinst _

theorem orderly_status {inst inst' : Instance ε} (hw : C.Orderly none w)
    (hinst : w.instances[i]? = some inst) (hcallbacks : inst'.callbacks = inst.callbacks)
    (hmachine : inst'.machine = inst.machine) : C.Orderly none (w.setInstance i inst') := by
  have hmem := List.mem_of_getElem? hinst
  refine orderly_set hw ?_ ?_ (.inr ?_)
  · rw [hcallbacks]
    exact hw.callbacks inst hmem
  · rw [hmachine]
    exact hw.bodies inst hmem
  · rw [hmachine]
    exact hw.clear i inst hinst (by simp)

theorem orderly_dispatch {inst : Instance ε} (hw : C.Orderly none w)
    (hinst : w.instances[i]? = some inst) (b : Bool) : C.Orderly none (w.dispatch i b) := by
  rw [dispatch_eq hinst]
  exact orderly_status hw hinst rfl rfl

theorem preserves_abandon {inst : Instance ε} (hinst : w.instances[i]? = some inst) (h : Handle)
    (message : Option String) : C.Preserves none none w (w.abandon h i message) := by
  intro hw
  have hhalt : C.Preserves none none w
      (w.modifyInstance i fun inst => { inst with machine := inst.machine.halt }) := by
    rw [modifyInstance_eq hinst]
    exact preserves_set hinst rfl (Machine.bodies_congr rfl) (.inr (hw.clear i inst hinst nofun))
  exact hhalt.trans (preserves_report none _ _ _) hw

theorem preserves_startInstance {bough : String} {inst : Instance ε}
    {r : Except LibraryError Bool} (hinst : w.instances[i]? = some inst)
    (hr : World.startInstance bough i inst w = some (r, w')) (hw : C.Orderly none w) :
    C.Orderly (some i) w' ∧ C.Continues w w' := by
  unfold World.startInstance at hr
  split at hr
  · rename_i m hstart
    cases hr
    have hsame : m.container = inst.machine.container ∧ m.globals = inst.machine.globals := by
      unfold Machine.start at hstart
      split at hstart
      case h_3 => cases hstart
      all_goals
        split at hstart <;> cases hstart
        exact ⟨rfl, rfl⟩
    refine preserves_set hinst ?_ (Machine.bodies_congr hsame.2) (.inl rfl) (hw.open _)
    simp [Instance.profile, hsame]
  · cases hr
    exact ⟨hw.open _, .refl _⟩

section

variable {exec : Operation ε → World ε → Option (Reply × World ε)}

theorem continues_perform
    (hexec : ∀ {op w r w'}, C.operation op → exec op w = some (r, w') → C.Preserves none none w w')
    {w₀ : World ε} {x : HostResult} : ∀ (r : Reaction ε) (w : World ε),
      r.Upholds C.operation (C.host w₀.host) w.host → C.Continues w₀ w →
        r.perform exec w = some (x, w') → C.Orderly none w →
          C.Orderly none w' ∧ C.Continues w₀ w'
  | .done v, w => by
    intro _ hcontinues hr hw
    cases hr
    exact ⟨hw, hcontinues⟩
  | .panic message, w => by
    intro _ hcontinues hr hw
    cases hr
    exact ⟨hw, hcontinues⟩
  | .update f next, w => by
    intro hupholds hcontinues hr hw
    exact continues_perform hexec next { w with host := f w.host } hupholds.2
      ⟨hupholds.1, hcontinues.profiles, hcontinues.arena⟩ hr
      ⟨hw.handler, hw.callbacks, hw.bodies, hw.clear, hw.sound, hw.housed⟩
  | .inspect next, w => by
    intro hupholds hcontinues hr hw
    exact continues_perform hexec (next w.host) w hupholds hcontinues hr hw
  | .call op next, w => by
    intro hupholds hcontinues hr hw
    rw [Reaction.perform] at hr
    split at hr
    · rename_i r w₁ hop
      obtain ⟨hw₁, hcontinues₁⟩ := hexec hupholds.1 hop hw
      have hfrom := hcontinues.trans hcontinues₁
      exact continues_perform hexec (next r) w₁ (hupholds.2 r w₁.host hfrom.host) hfrom hr hw₁
    · cases hr

theorem preserves_perform
    (hexec : ∀ {op w r w'}, C.operation op → exec op w = some (r, w') → C.Preserves none none w w')
    {x : HostResult} (r : Reaction ε) (w : World ε)
    (hupholds : r.Upholds C.operation (C.host w.host) w.host)
    (hr : r.perform exec w = some (x, w')) : C.Preserves none none w w' :=
  continues_perform hexec r w hupholds (.refl w) hr

end

section

variable {perform : Reaction ε → World ε → Option (HostResult × World ε)}
variable (hperform : ∀ {r : Reaction ε} {w x w'},
  r.Upholds C.operation (C.host w.host) w.host → perform r w = some (x, w') →
    C.Preserves none none w w')

include hperform

theorem preserves_deliver {callback : Event → Reaction ε}
    (hcallback : ∀ e s, (callback e).Upholds C.operation (C.host s) s) {events : List Event}
    {x : Option (Option String)} (hd : World.deliver perform callback events w = some (x, w')) :
    C.Preserves none none w w' := by
  induction events generalizing w with
  | nil =>
    cases hd
    exact .refl none _
  | cons e events ih =>
    rw [World.deliver] at hd
    split at hd
    · rename_i he
      exact (hperform (hcallback e _) he).trans (ih hd)
    · rename_i he
      cases hd
      exact hperform (hcallback e _) he
    · cases hd

theorem preserves_batch {inst : Instance ε} {x : Option (Option String)} {w₁ : World ε}
    (hinst : w.instances[i]? = some inst) (hidle : inst.dispatching = false)
    (hd : World.deliver perform (inst.callbacks h) (w.collect i inst).1
      ((w.collect i inst).2.dispatch i true) = some (x, w₁)) (hw : C.Orderly (some i) w) :
    C.Orderly none (w₁.dispatch i false) ∧ C.Continues w (w₁.dispatch i false) ∧
      ∃ inst₁, (w₁.dispatch i false).instances[i]? = some inst₁ ∧ inst₁.profile = inst.profile := by
  have hcallbacks := C.upholds_of_callbacks (hw.callbacks inst (List.mem_of_getElem? hinst)) h
  obtain ⟨hw₀, hcontinues₀⟩ :=
    preserves_collect hinst (fun hd => absurd (hidle.symm.trans hd) nofun) hw
  have hi := (List.getElem?_eq_some_iff.mp hinst).1
  have hinst₀ : (w.collect i inst).2.instances[i]? = some inst.drained := by
    simp [World.collect_instances, World.setInstance, hi]
  have hi₀ := (List.getElem?_eq_some_iff.mp hinst₀).1
  obtain ⟨hw₁, hcontinues₁⟩ :=
    preserves_deliver hperform hcallbacks hd (orderly_dispatch hw₀ hinst₀ true)
  rw [dispatch_eq hinst₀] at hcontinues₁
  obtain ⟨inst₁, hinst₁, hprofile⟩ := hcontinues₁.instance (i := i)
    (show _ = some { inst.drained with dispatching := true } by simp [World.setInstance, hi₀])
  have hi₁ := (List.getElem?_eq_some_iff.mp hinst₁).1
  have hback : { inst₁ with dispatching := false }.profile = inst.profile := by
    simp only [Instance.profile, Profile.mk.injEq] at hprofile ⊢
    simp [hprofile, Instance.drained, hidle]
  refine ⟨orderly_dispatch hw₁ hinst₁ false, ?_, { inst₁ with dispatching := false }, ?_, hback⟩
  · rw [dispatch_eq hinst₁]
    exact hcontinues₀.trans (hcontinues₁.bracket hinst₀ hback)
  · simp [dispatch_eq hinst₁, World.setInstance, hi₁]

theorem preserves_flush {fuel : Nat} (hf : World.flush perform h i fuel w = some w')
    (hbusy : ∀ inst, w.instances[i]? = some inst → inst.busy = false)
    (hevents : ∀ inst, w.instances[i]? = some inst → inst.dispatching = true →
      inst.machine.events = []) : C.Preserves (some i) none w w' := by
  induction fuel generalizing w with
  | zero => cases hf
  | succ fuel ih =>
    rw [World.flush] at hf
    split at hf
    · rename_i hnone
      cases hf
      exact fun hw => ⟨hw.close (by simp [hnone]), .refl _⟩
    · rename_i inst hinst
      rw [hbusy inst hinst] at hf
      simp only [Bool.false_eq_true, if_false] at hf
      split at hf
      · rw [Option.some.injEq] at hf
        exact hf ▸ preserves_collect hinst (hevents inst hinst)
      · rename_i hne
        have hidle : inst.dispatching = false := by
          cases hd : inst.dispatching with
          | false => rfl
          | true =>
            rw [World.collect_events, hd] at hne
            exact absurd rfl hne
        intro hw
        split at hf
        · cases hf
        · rename_i w₁ hd
          obtain ⟨hw₁, hcontinues₁, inst₁, hinst₁, hprofile⟩ :=
            preserves_batch hperform hinst hidle hd hw
          have hbusy₁ : inst₁.busy = false := (congrArg Profile.busy hprofile).trans (hbusy inst hinst)
          have hidle₁ : inst₁.dispatching = false :=
            (congrArg Profile.dispatching hprofile).trans hidle
          have hrest : C.Preserves (some i) none (w₁.dispatch i false) w' := by
            apply ih hf
            · intro inst' hinst'
              rw [hinst₁, Option.some.injEq] at hinst'
              exact hinst' ▸ hbusy₁
            · intro inst' hinst' hd'
              rw [hinst₁, Option.some.injEq] at hinst'
              rw [← hinst', hidle₁] at hd'
              cases hd'
          obtain ⟨hw', hcontinues'⟩ := hrest (hw₁.open _)
          exact ⟨hw', hcontinues₁.trans hcontinues'⟩
        · rename_i message w₁ hd
          cases hf
          obtain ⟨hw₁, hcontinues₁, inst₁, hinst₁, -⟩ := preserves_batch hperform hinst hidle hd hw
          obtain ⟨hw', hcontinues'⟩ := preserves_abandon hinst₁ h message hw₁
          exact ⟨hw', hcontinues₁.trans hcontinues'⟩

theorem preserves_change {fuel : Nat} {op : Operation ε} {c : Change ε} {r : Except LibraryError Reply}
    (hc : op.change? = some c) (hop : C.operation op)
    (hr : World.change perform fuel c.handle c.apply w = some (r, w')) :
    C.Preserves none none w w' := by
  unfold World.change at hr
  split at hr
  · cases hr
    exact .refl none _
  · rename_i i inst hfind
    obtain ⟨-, hinst⟩ := World.find_eq_ok hfind
    split at hr
    · cases hr
      exact .refl none _
    · rename_i hbusy
      rw [Bool.not_eq_true] at hbusy
      intro hw
      have hclear := hw.clear i inst hinst nofun
      split at hr
      · rename_i r m happly
        obtain ⟨w₁, hflush, hr⟩ := Option.map_eq_some_iff.mp hr
        cases hr
        have hi := (List.getElem?_eq_some_iff.mp hinst).1
        have hframe := Operation.change?_frame hc happly
        have hset : C.Preserves (some i) (some i) w
            (w.setInstance i { inst with machine := m }) := by
          apply preserves_set hinst
          · simp [Instance.profile, hframe]
          · exact Operation.change?_bodies hc (fun heq => C.body_of_operation (heq ▸ hop)) happly
          · exact .inl rfl
        refine (hset.trans (preserves_flush hperform hflush ?_ ?_)) (hw.open _)
        · intro inst' hinst'
          simp only [World.setInstance, List.getElem?_set_self hi, Option.some.injEq] at hinst'
          exact hinst' ▸ hbusy
        · intro inst' hinst' _
          simp only [World.setInstance, List.getElem?_set_self hi, Option.some.injEq] at hinst'
          subst hinst'
          exact (Operation.change?_spec hc happly).1.trans hclear.1
      · obtain ⟨w₁, hflush, hr⟩ := Option.map_eq_some_iff.mp hr
        cases hr
        refine preserves_flush hperform hflush ?_ ?_ (hw.open _)
        · intro inst' hinst'
          rw [hinst, Option.some.injEq] at hinst'
          exact hinst' ▸ hbusy
        · intro inst' hinst' _
          rw [hinst, Option.some.injEq] at hinst'
          exact hinst' ▸ hclear.1

theorem preserves_drive {fuel : Nat} {operation : String} {r : Reply}
    {f : Nat → Instance ε → World ε → Option (Except LibraryError Bool × World ε)}
    (hf : ∀ {i inst w r w'}, w.instances[i]? = some inst → inst.busy = false →
      inst.dispatching = false → f i inst w = some (r, w') → C.Orderly none w →
        C.Orderly (some i) w' ∧ C.Continues w w')
    (hr : World.drive perform fuel operation h f w = some (r, w')) : C.Preserves none none w w' := by
  unfold World.drive at hr
  split at hr
  · cases hr
    exact preserves_report none w _ _
  · rename_i i inst hfind
    obtain ⟨-, hinst⟩ := World.find_eq_ok hfind
    split at hr
    · cases hr
      exact preserves_report none w _ _
    · rename_i hidle
      split at hr
      · cases hr
        exact preserves_report none w _ _
      · rename_i hbusy
        rw [Bool.not_eq_true] at hidle hbusy
        split at hr
        · cases hr
        · rename_i r w₁ hstep
          obtain ⟨w₂, hflush, hr⟩ := Option.map_eq_some_iff.mp hr
          cases hr
          intro hw
          obtain ⟨hw₁, hcontinues₁⟩ := hf hinst hbusy hidle hstep hw
          obtain ⟨inst₁, hinst₁, hprofile⟩ := hcontinues₁.instance hinst
          have hrest : C.Preserves (some i) none w₁ (w₂.answerFlag r).2 := by
            refine (preserves_flush hperform hflush ?_ ?_).trans (preserves_answerFlag none w₂ r)
            · intro inst' hinst'
              rw [hinst₁, Option.some.injEq] at hinst'
              exact hinst' ▸ (congrArg Profile.busy hprofile).trans hbusy
            · intro inst' hinst' hd
              rw [hinst₁, Option.some.injEq] at hinst'
              have hidle₁ := (congrArg Profile.dispatching hprofile).trans hidle
              rw [← hinst'] at hd
              exact absurd (hidle₁.symm.trans hd) nofun
          obtain ⟨hw', hcontinues'⟩ := hrest hw₁
          exact ⟨hw', hcontinues₁.trans hcontinues'⟩

theorem preserves_runInstance {fuel : Nat} {inst : Instance ε} {r : Except LibraryError Bool}
    (hinst : w.instances[i]? = some inst) (hbusy : inst.busy = false)
    (hr : World.runInstance perform fuel i inst w = some (r, w')) (hw : C.Orderly none w) :
    C.Orderly (some i) w' ∧ C.Continues w w' := by
  unfold World.runInstance at hr
  simp only at hr
  split at hr
  · cases hr
  · rename_i ended m w₁ hrun
    cases hr
    have hmem := List.mem_of_getElem? hinst
    have hi := (List.getElem?_eq_some_iff.mp hinst).1
    have hbodies := hw.bodies inst hmem
    have hw₀ : C.Orderly none (w.setInstance i { inst with busy := true }) :=
      orderly_status hw hinst rfl rfl
    have hrun₁ : C.Preserves none none (w.setInstance i { inst with busy := true }) w₁ :=
      Machine.run_induction_of_bodies (R := C.Preserves none none) (.refl none) .trans
        (fun hbody hcall => hperform (C.upholds_of_body hbody _ _) hcall) hbodies hrun
    obtain ⟨hw₁, hcontinues₁⟩ := hrun₁ hw₀
    obtain ⟨inst₁, hinst₁, hprofile⟩ := hcontinues₁.instance (i := i)
      (show _ = some { inst with busy := true } by simp [World.setInstance, hi])
    have hprogress : Machine.Progress inst.machine (World.conclude m ended).2 := by
      refine (Machine.progress_run hrun).trans ?_
      cases ended with
      | panic message => exact Machine.progress_halt m
      | _ => exact .refl
    have hcallbacks : inst₁.callbacks = inst.callbacks := congrArg Profile.callbacks hprofile
    rw [modifyInstance_eq hinst₁]
    constructor
    · refine orderly_set (hw₁.open _) ?_ (hprogress.bodies hbodies) (.inl rfl)
      rw [hcallbacks]
      exact hw.callbacks inst hmem
    · apply hcontinues₁.bracket hinst
      simp only [Instance.profile, Profile.mk.injEq] at hprofile ⊢
      simp [hprofile, hprogress.container, hprogress.symbols, hbusy]

end

theorem preserves_create {bytes : Bytes} {callbacks : Handle → Event → Reaction ε}
    (hc : C.operation (.create bytes callbacks)) :
    C.Preserves none none w (w.open? bytes callbacks).2 := by
  unfold World.open?
  split
  · exact preserves_report none w _ _
  · rename_i c hparse
    intro hw
    refine ⟨⟨hw.handler, ?_, ?_, ?_, ?_, ?_⟩, C.refl _, ?_, ?_⟩
    · intro inst hinst
      rcases List.mem_append.mp hinst with hinst | hinst
      · exact hw.callbacks inst hinst
      · rw [List.mem_singleton.mp hinst]
        exact C.callbacks_of_operation hc
    · intro inst hinst
      rcases List.mem_append.mp hinst with hinst | hinst
      · exact hw.bodies inst hinst
      · rw [List.mem_singleton.mp hinst]
        intro g hg arity body hslot
        obtain ⟨symbol, -, rfl⟩ := List.mem_map.mp hg
        cases hslot
    · intro i inst hinst _
      simp only [List.getElem?_append] at hinst
      split at hinst
      · exact hw.clear i inst hinst nofun
      · rw [List.getElem?_singleton] at hinst
        split at hinst <;> cases hinst
        exact ⟨rfl, rfl⟩
    · exact Arena.sound_insert hw.sound fun h hh => Nat.lt_irrefl _ (hw.housed h _ hh)
    · intro h i hi
      rw [List.length_append, List.length_singleton]
      rcases Arena.get?_insert hi with ⟨-, rfl⟩ | hi
      · omega
      · have hlt := hw.housed h i hi
        omega
    · refine ⟨[Instance.profile ⟨.create c, callbacks, false, false⟩], by simp [World.profiles],
        fun p hp => ?_, fun hs => absurd hc (hs.1 bytes callbacks)⟩
      rw [List.mem_singleton.mp hp]
      exact ⟨rfl, rfl, ⟨bytes, hparse⟩, by simp [Instance.profile, Machine.create, Function.comp_def]⟩
    · exact fun hs => absurd hc (hs.1 bytes callbacks)

theorem preserves_destroy (hc : C.operation (.destroy h)) :
    C.Preserves none none w (w.destroy h).2 := by
  unfold World.destroy
  split
  · rename_i arena harena
    intro hw
    refine ⟨⟨hw.handler, hw.callbacks, hw.bodies, hw.clear, Arena.sound_remove hw.sound harena, ?_⟩,
      C.refl _, ⟨[], by simp [World.profiles]⟩, fun hs => absurd hc (hs.2 h)⟩
    intro h' i hi
    exact hw.housed h' i (Arena.get?_remove harena hi)
  · exact preserves_report none w _ _

theorem preserves_lend (w : World ε) (h : Handle) (name : String) :
    C.Preserves none none w (w.lend h name).2 := by
  unfold World.lend
  simp only
  split
  · exact preserves_answer none w _
  · exact (preserves_answer none w _).trans
      (preserves_same none rfl rfl (C.refl _) fun hw => hw.handler)

theorem preserves_release (w : World ε) (number : Nat) :
    C.Preserves none none w (w.release number) := by
  unfold World.release
  split
  · exact .refl none w
  · exact preserves_same none rfl rfl (C.refl _) fun hw => hw.handler

theorem preserves_quiet {fuel : Nat} {op : Operation ε} {r : Reply} (hop : C.operation op)
    (hquiet : op.isQuiet = true) (h : World.exec (fuel + 1) op w = some (r, w')) :
    C.Preserves none none w w' := by
  cases op <;> first | cases hquiet; done | skip
  case destroy h' =>
    cases h
    exact preserves_destroy hop
  case getValue h' name =>
    cases h
    exact preserves_lend w h' name
  case release number =>
    cases h
    exact preserves_release w number
  case report severity message =>
    cases h
    exact preserves_report none w severity message
  case isAlive | size | bufferBytes | outstanding =>
    cases h
    exact .refl none _
  case setSeverity =>
    cases h
    exact preserves_same none rfl rfl (C.refl _) fun hw => hw.handler
  case resetHandler =>
    cases h
    exact preserves_same none rfl rfl (C.refl _) fun _ => C.reset
  all_goals
    cases h
    exact preserves_answer none w _

/-- However deep operations are nested, each keeps to the rules. -/
theorem preserves_exec {fuel : Nat} {op : Operation ε} {r : Reply} (hop : C.operation op)
    (hr : World.exec fuel op w = some (r, w')) : C.Preserves none none w w' := by
  -- The operations within this one have less fuel.
  induction fuel generalizing op w r w' with
  | zero => cases hr
  | succ fuel ih =>
    have hperform {r : Reaction ε} {w : World ε} {x : HostResult} {w' : World ε}
        (hupholds : r.Upholds C.operation (C.host w.host) w.host)
        (h : r.perform (World.exec fuel) w = some (x, w')) : C.Preserves none none w w' :=
      preserves_perform (fun hop h => ih hop h) r w hupholds h
    rcases op.kinds with ⟨bytes, callbacks, rfl⟩ | ⟨h, bough, rfl⟩ | ⟨h, rfl⟩ | ⟨c, hc⟩ | hquiet
    · cases hr
      exact preserves_create hop
    · exact preserves_drive hperform (fun hinst _ _ hf => preserves_startInstance hinst hf) hr
    · have hrun : World.drive (Reaction.perform (World.exec fuel)) fuel "run" h
          (World.runInstance (Reaction.perform (World.exec fuel)) fuel) w = some (r, w') := hr
      exact preserves_drive hperform
        (fun hinst hbusy _ hf => preserves_runInstance hperform hinst hbusy hf) hrun
    · rw [World.exec_change hc] at hr
      obtain ⟨⟨r, w₁⟩, hchange, hr⟩ := Option.map_eq_some_iff.mp hr
      cases hr
      exact (preserves_change hperform hc hop hchange).trans (preserves_answer none w₁ r)
    · exact preserves_quiet hop hquiet hr

end Conduct

end Dialogue
