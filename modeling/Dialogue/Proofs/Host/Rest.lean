import Dialogue.Proofs.Host.Conduct
import Dialogue.Proofs.Machine.Globals

/-!
A world at rest: nothing runs and nothing waits. There it can be said exactly what an operation does
that changes, starts or runs a machine.
-/

namespace Dialogue

variable {ε : Type}

def Conduct.free (P : (Severity → String → ε → ε) → Prop) (hP : P fun _ _ e => e) : Conduct ε where
  operation _ := True
  host _ _ := True
  handler := P
  body _ := True
  callbacks _ := True
  refl _ := trivial
  trans _ _ := trivial
  reset := hP
  host_of_handler _ _ _ _ := trivial
  body_of_operation _ := trivial
  callbacks_of_operation _ := trivial
  upholds_of_body _ _ _ := Reaction.upholds_true _ _
  upholds_of_callbacks _ _ _ _ := Reaction.upholds_true _ _

namespace World

structure AtRest (w : World ε) : Prop where
  idle : ∀ inst ∈ w.instances, inst.status = .idle
  parsed : ∀ inst ∈ w.instances, inst.machine.IsParsed
  sound : w.arena.Sound
  housed : ∀ h i, w.arena.get? h = some i → i < w.instances.length

variable {w w' : World ε} {i : Nat} {h : Handle} {inst : Instance ε}

theorem AtRest.orderly {P : (Severity → String → ε → ε) → Prop} {hP : P fun _ _ e => e}
    (hw : w.AtRest) (hhandler : P w.channel.handler) : (Conduct.free P hP).Orderly none w := by
  refine ⟨hhandler, fun _ _ => trivial, fun _ _ _ _ _ _ _ => trivial, ?_, hw.sound,
    hw.housed⟩
  intro i inst hinst _
  have hidle := hw.idle inst (List.mem_of_getElem? hinst)
  exact ⟨congrArg Status.events hidle, congrArg Status.diagnostics hidle⟩

theorem atRest_exec {fuel : Nat} {op : Operation ε} {r : Reply} (hw : w.AtRest)
    (hr : exec fuel op w = some (r, w')) : w'.AtRest := by
  obtain ⟨hw', hcontinues⟩ := Conduct.preserves_exec
    (C := .free (fun _ => True) trivial) trivial hr (hw.orderly trivial)
  obtain ⟨ps, hps, hfresh, -⟩ := hcontinues.profiles
  -- An instance goes on from an earlier one, or has been created.
  have horigin {inst : Instance ε} (hinst : inst ∈ w'.instances) :
      (∃ inst₀ ∈ w.instances, inst.profile = inst₀.profile) ∨ inst.profile.IsFresh := by
    have hprofile : inst.profile ∈ w.profiles ++ ps := hps ▸ List.mem_map_of_mem hinst
    rcases List.mem_append.mp hprofile with hold | hnew
    · obtain ⟨inst₀, hinst₀, heq⟩ := List.mem_map.mp hold
      exact .inl ⟨inst₀, hinst₀, heq.symm⟩
    · exact .inr (hfresh _ hnew)
  refine ⟨fun inst hinst => ?_, fun inst hinst => ?_, hw'.sound, hw'.housed⟩
  · obtain ⟨i, hi⟩ := List.getElem?_of_mem hinst
    obtain ⟨hevents, hdiagnostics⟩ := hw'.clear i inst hi nofun
    obtain ⟨hbusy, hdispatching⟩ : inst.busy = false ∧ inst.dispatching = false := by
      rcases horigin hinst with ⟨inst₀, hinst₀, heq⟩ | hnew
      · have hidle₀ := hw.idle inst₀ hinst₀
        exact ⟨(congrArg Profile.busy heq).trans (congrArg Status.busy hidle₀),
          (congrArg Profile.dispatching heq).trans (congrArg Status.dispatching hidle₀)⟩
      · exact ⟨hnew.busy, hnew.dispatching⟩
    simp [Instance.status, Status.idle, hevents, hdiagnostics, hbusy, hdispatching]
  · rcases horigin hinst with ⟨inst₀, hinst₀, heq⟩ | hnew
    · have hcontainer : inst.machine.container = inst₀.machine.container :=
        congrArg Profile.container heq
      have hsymbols := congrArg Profile.symbols heq
      obtain ⟨hparsed, hglobals⟩ := hw.parsed inst₀ hinst₀
      exact ⟨hcontainer ▸ hparsed, hsymbols.trans (hcontainer ▸ hglobals)⟩
    · exact ⟨hnew.parsed, hnew.symbols⟩

theorem handler_exec {P : (Severity → String → ε → ε) → Prop} (hP : P fun _ _ e => e) (hw : w.AtRest)
    (hhandler : P w.channel.handler) {fuel : Nat} {op : Operation ε} {r : Reply}
    (hr : exec fuel op w = some (r, w')) : P w'.channel.handler :=
  (Conduct.preserves_exec (C := .free P hP) trivial hr (hw.orderly hhandler)).1.handler

theorem AtRest.congr (hw : w.AtRest) (hinstances : w'.instances = w.instances)
    (harena : w'.arena = w.arena) : w'.AtRest :=
  ⟨hinstances ▸ hw.idle, hinstances ▸ hw.parsed, harena ▸ hw.sound,
    by rw [harena, hinstances]; exact hw.housed⟩

theorem atRest_create (handler : Severity → String → ε → ε) (host : ε) :
    (create handler host).AtRest := by
  refine ⟨nofun, nofun, Arena.sound_empty, fun h i hi => ?_⟩
  have hempty : (create handler host).arena.get? h = none := Arena.get?_empty h
  rw [hempty] at hi
  cases hi

theorem find_eq_of_get? (hget : w.arena.get? h = some i) (hinst : w.instances[i]? = some inst) :
    w.find h = .ok (i, inst) := by
  simp [find, hget, hinst]

theorem find_eq_error (hget : w.arena.get? h = none) : w.find h = .error (.invalidHandle h) := by
  simp [find, hget]

theorem AtRest.find_cases (hw : w.AtRest) (h : Handle) :
    w.arena.get? h = none ∨ ∃ i inst, w.find h = .ok (i, inst) ∧ inst.status = .idle := by
  cases hget : w.arena.get? h with
  | none => exact .inl rfl
  | some i =>
    have hinst := List.getElem?_eq_getElem (hw.housed h i hget)
    exact .inr ⟨i, _, find_eq_of_get? hget hinst, hw.idle _ (List.mem_of_getElem? hinst)⟩

theorem setInstance_self (hinst : w.instances[i]? = some inst) : w.setInstance i inst = w := by
  obtain ⟨hi, rfl⟩ := List.getElem?_eq_some_iff.mp hinst
  simp [setInstance]

theorem flush_settled {perform : Reaction ε → World ε → Option (HostResult × World ε)}
    (hinst : w.instances[i]? = some inst) (hbusy : inst.busy = false)
    (hevents : inst.machine.events = []) (h : Handle) (fuel : Nat) :
    flush perform h i (fuel + 1) w =
      some ((w.setInstance i inst.drained).reports inst.machine.diagnostics) := by
  have hempty : (w.collect i inst).1 = [] := by
    rw [collect_events]
    split
    · rfl
    · exact hevents
  rw [flush]
  simp [hinst, hbusy, hempty, collect_snd]

def machine? (w : World ε) (h : Handle) : Option (HostMachine ε) :=
  (w.arena.get? h).bind fun i => w.instances[i]?.map (·.machine)

def modifyMachine (w : World ε) (h : Handle) (f : HostMachine ε → HostMachine ε) : World ε :=
  match w.arena.get? h with
  | some i => w.modifyInstance i fun inst => { inst with machine := f inst.machine }
  | none => w

def Logs (w w' : World ε) : Prop :=
  ∃ messages : List (Severity × String),
    w' = { w with host := messages.foldl (fun e m => w.channel.handler m.1 m.2 e) w.host }

theorem Logs.refl (w : World ε) : Logs w w := ⟨[], rfl⟩

theorem Logs.trans {w'' : World ε} (h : Logs w w') (h' : Logs w' w'') : Logs w w'' := by
  obtain ⟨ms, rfl⟩ := h
  obtain ⟨ns, rfl⟩ := h'
  exact ⟨ms ++ ns, by rw [List.foldl_append]⟩

theorem logs_report (w : World ε) (s : Severity) (message : String) :
    Logs w (w.report s message) := by
  unfold report
  split
  · exact .refl w
  · exact ⟨[(s, message)], rfl⟩

theorem logs_reports (w : World ε) (es : List MachineError) : Logs w (w.reports es) := by
  induction es generalizing w with
  | nil => exact .refl w
  | cons e es ih => exact (logs_report w _ _).trans (ih _)

theorem logs_answer {α : Type} (w : World ε) (r : Except LibraryError α) :
    Logs w (w.answer r).2 := by
  cases r with
  | ok x => exact .refl w
  | error e => exact logs_report w _ _

theorem machine?_of_find (hfind : w.find h = .ok (i, inst)) : w.machine? h = some inst.machine := by
  obtain ⟨hget, hinst⟩ := find_eq_ok hfind
  simp [machine?, hget, hinst]

theorem AtRest.exec_state (hw : w.AtRest) {m : HostMachine ε} (hm : w.machine? h = some m)
    (fuel : Nat) : exec (fuel + 1) (.state h) w = some (.state (some m.state), w) := by
  rcases hw.find_cases h with hget | ⟨i, inst, hfind, hidle⟩
  · simp [machine?, hget] at hm
  · obtain rfl : inst.machine = m := Option.some.inj ((machine?_of_find hfind).symm.trans hm)
    have hbusy : inst.busy = false := congrArg Status.busy hidle
    have hquery : w.query h (·.state) = .ok inst.machine.state := by
      simp only [query, hfind]
      exact if_neg (by simp [hbusy])
    rw [exec]
    simp only [hquery]
    rfl

theorem AtRest.state_eq (hw : w.AtRest) {fuel : Nat} {s : MachineState}
    (hexec : exec fuel (.state h) w = some (.state (some s), w')) :
    w' = w ∧ ∃ m, w.machine? h = some m ∧ m.state = s := by
  rcases fuel with _ | fuel
  · cases hexec
  rcases hw.find_cases h with hget | ⟨i, inst, hfind, -⟩
  · have hquery : w.query h (·.state) = .error (.invalidHandle h) := by
      simp only [query, find_eq_error hget]
      rfl
    rw [exec] at hexec
    simp only [hquery] at hexec
    cases hexec
  · rw [hw.exec_state (machine?_of_find hfind)] at hexec
    cases hexec
    exact ⟨rfl, _, machine?_of_find hfind, rfl⟩

theorem modifyMachine_of_find (hfind : w.find h = .ok (i, inst))
    (f : HostMachine ε → HostMachine ε) :
    w.modifyMachine h f = w.setInstance i { inst with machine := f inst.machine } := by
  obtain ⟨hget, hinst⟩ := find_eq_ok hfind
  rw [modifyMachine, hget]
  exact Conduct.modifyInstance_eq hinst _

theorem machine?_modifyMachine (hs : w.arena.Sound) (f : HostMachine ε → HostMachine ε)
    (h h' : Handle) : (w.modifyMachine h f).machine? h' =
      if h' = h then (w.machine? h).map f else w.machine? h' := by
  unfold modifyMachine
  split
  · rename_i i hi
    unfold machine? modifyInstance
    simp only
    split
    · rename_i heq
      rw [heq, hi]
      cases hinst : w.instances[i]? <;> simp [hinst]
    · rename_i hne
      cases hi' : w.arena.get? h' with
      | none => rfl
      | some i' =>
        have hindex : i ≠ i' := fun heq => hne (hs.injective h' h i' hi' (heq ▸ hi))
        simp [List.getElem?_modify, hindex, Function.comp_def]
  · rename_i hget
    split
    · rename_i heq
      simp [heq, machine?, hget]
    · rfl

theorem host_modifyMachine (w : World ε) (h : Handle) (f : HostMachine ε → HostMachine ε) :
    (w.modifyMachine h f).host = w.host := by
  unfold modifyMachine
  split <;> rfl

theorem channel_modifyMachine (w : World ε) (h : Handle) (f : HostMachine ε → HostMachine ε) :
    (w.modifyMachine h f).channel = w.channel := by
  unfold modifyMachine
  split <;> rfl

theorem modifyMachine_id (w : World ε) (h : Handle) : w.modifyMachine h id = w := by
  unfold modifyMachine
  split
  · exact congrArg (fun insts => { w with instances := insts }) (List.modify_id ..)
  · rfl

theorem modifyMachine_modifyMachine (w : World ε) (h : Handle)
    (f g : HostMachine ε → HostMachine ε) :
    (w.modifyMachine h f).modifyMachine h g = w.modifyMachine h (g ∘ f) := by
  cases hget : w.arena.get? h with
  | none => simp only [modifyMachine, hget]
  | some i => simp [modifyMachine, hget, modifyInstance, List.modify_modify_eq, Function.comp_def]

theorem modifyMachine_lost (hget : w.arena.get? h = none) (f : HostMachine ε → HostMachine ε) :
    w.modifyMachine h f = w := by
  rw [modifyMachine, hget]

end World

namespace Change

def effect (c : Change ε) (m : HostMachine ε) : HostMachine ε :=
  match c.apply m with
  | .ok (_, m') => { m' with diagnostics := [] }
  | .error _ => m

def reply (c : Change ε) : Option (HostMachine ε) → Reply
  | none => c.fallback
  | some m =>
    match c.apply m with
    | .ok (r, _) => r
    | .error _ => c.fallback

end Change

namespace World

variable {w w' : World ε} {i : Nat} {h : Handle} {inst : Instance ε}

theorem flush_after {perform : Reaction ε → World ε → Option (HostResult × World ε)}
    {m : HostMachine ε} (hinst : w.instances[i]? = some inst) (hidle : inst.status = .idle)
    (hevents : m.events = []) (h : Handle) (fuel : Nat) :
    flush perform h i (fuel + 1) (w.setInstance i { inst with machine := m }) =
      some ((w.setInstance i { inst with machine := { m with diagnostics := [] } }).reports
        m.diagnostics) := by
  obtain ⟨hi, -⟩ := List.getElem?_eq_some_iff.mp hinst
  have hset : (w.setInstance i { inst with machine := m }).instances[i]? =
      some { inst with machine := m } := by
    simp [setInstance, hi]
  have hdrained : (w.setInstance i { inst with machine := m }).setInstance i
      { inst with machine := m }.drained =
        w.setInstance i { inst with machine := { m with diagnostics := [] } } := by
    simp [setInstance, Instance.drained, hevents]
  rw [flush_settled hset (congrArg Status.busy hidle) hevents h fuel, hdrained]

theorem flush_at_rest {perform : Reaction ε → World ε → Option (HostResult × World ε)}
    (hinst : w.instances[i]? = some inst) (hidle : inst.status = .idle) (h : Handle) (fuel : Nat) :
    flush perform h i (fuel + 1) w = some w := by
  have hevents : inst.machine.events = [] := congrArg Status.events hidle
  have hdiagnostics : inst.machine.diagnostics = [] := congrArg Status.diagnostics hidle
  have hdrained : inst.drained = inst := by
    obtain ⟨⟨⟩, _, _, _⟩ := inst
    simp_all [Instance.drained]
  rw [flush_settled hinst (congrArg Status.busy hidle) hevents h fuel, hdrained,
    setInstance_self hinst, hdiagnostics]
  rfl

theorem change_of_find {α : Type} {perform : Reaction ε → World ε → Option (HostResult × World ε)}
    (hfind : w.find h = .ok (i, inst)) (hbusy : inst.busy = false) (fuel : Nat)
    (f : HostMachine ε → Except MachineError (α × HostMachine ε)) : change perform fuel h f w =
      match f inst.machine with
      | .ok (r, m) => (flush perform h i fuel (w.setInstance i { inst with machine := m })).map
          fun w => (.ok r, w)
      | .error e => (flush perform h i fuel w).map fun w => (.error (.machine e), w) := by
  rw [change, hfind]
  exact if_neg (by simp [hbusy])

section

variable {op : Operation ε} {c : Change ε} {r : Reply}

theorem change_lost (hc : op.change? = some c) (hget : w.arena.get? c.handle = none) (fuel : Nat) :
    ∃ w', exec (fuel + 1) op w = some (c.reply (w.machine? c.handle), w') ∧
      Logs (w.modifyMachine c.handle c.effect) w' := by
  have hnone : w.machine? c.handle = none := by simp [machine?, hget]
  rw [exec_change hc, change, find_eq_error hget, hnone, modifyMachine_lost hget]
  exact ⟨_, rfl, logs_report w _ _⟩

theorem change_found (hc : op.change? = some c) (hfind : w.find c.handle = .ok (i, inst))
    (hidle : inst.status = .idle) (fuel : Nat) :
    ∃ w', exec (fuel + 2) op w = some (c.reply (w.machine? c.handle), w') ∧
      Logs (w.modifyMachine c.handle c.effect) w' := by
  have hbusy : inst.busy = false := congrArg Status.busy hidle
  have hevents : inst.machine.events = [] := congrArg Status.events hidle
  obtain ⟨-, hinst⟩ := find_eq_ok hfind
  rw [exec_change hc, change_of_find hfind hbusy, machine?_of_find hfind,
    modifyMachine_of_find hfind]
  unfold Change.effect Change.reply
  cases happly : c.apply inst.machine with
  | ok x =>
    obtain ⟨r, m⟩ := x
    have hm : m.events = [] := (Operation.change?_spec hc happly).1.trans hevents
    simp only [happly, flush_after hinst hidle hm]
    exact ⟨_, rfl, logs_reports _ _⟩
  | error e =>
    have hsame : w.setInstance i { inst with machine := inst.machine } = w := setInstance_self hinst
    simp only [happly, flush_at_rest hinst hidle, hsame]
    exact ⟨_, rfl, logs_report w _ _⟩

theorem change_fuel (hc : op.change? = some c) (hfind : w.find c.handle = .ok (i, inst))
    (hidle : inst.status = .idle) {fuel : Nat} (hr : exec fuel op w = some (r, w')) :
    ∃ n, fuel = n + 2 := by
  rcases fuel with _ | _ | n
  · cases hr
  · -- Without fuel nothing is delivered.
    rw [exec_change hc, change_of_find hfind (congrArg Status.busy hidle)] at hr
    cases happly : c.apply inst.machine <;> simp [happly, flush] at hr
  · exact ⟨n, rfl⟩

theorem change_eq (hw : w.AtRest) (hc : op.change? = some c) {fuel : Nat}
    (hr : exec fuel op w = some (r, w')) :
    r = c.reply (w.machine? c.handle) ∧ Logs (w.modifyMachine c.handle c.effect) w' := by
  have hsame {fuel : Nat} (hr : exec fuel op w = some (r, w'))
      (h : ∃ w', exec fuel op w = some (c.reply (w.machine? c.handle), w') ∧
        Logs (w.modifyMachine c.handle c.effect) w') :
      r = c.reply (w.machine? c.handle) ∧ Logs (w.modifyMachine c.handle c.effect) w' := by
    obtain ⟨w₁, h, hlogs⟩ := h
    rw [h] at hr
    cases hr
    exact ⟨rfl, hlogs⟩
  rcases fuel with _ | _ | fuel
  · cases hr
  · rcases hw.find_cases c.handle with hget | ⟨i, inst, hfind, hidle⟩
    · exact hsame hr (change_lost hc hget 0)
    · obtain ⟨n, hfuel⟩ := change_fuel hc hfind hidle hr
      cases hfuel
  · rcases hw.find_cases c.handle with hget | ⟨i, inst, hfind, hidle⟩
    · exact hsame hr (change_lost hc hget (fuel + 1))
    · exact hsame hr (change_found hc hfind hidle fuel)

theorem change_silent {m m' : HostMachine ε} {a : Reply} (hw : w.AtRest) (hc : op.change? = some c)
    (hm : w.machine? c.handle = some m) (happly : c.apply m = .ok (a, m'))
    (hsilent : m'.diagnostics = []) {fuel : Nat} (hr : exec fuel op w = some (r, w')) :
    w' = w.modifyMachine c.handle fun _ => m' := by
  rcases hw.find_cases c.handle with hget | ⟨i, inst, hfind, hidle⟩
  · simp [machine?, hget] at hm
  · obtain rfl : inst.machine = m := Option.some.inj ((machine?_of_find hfind).symm.trans hm)
    obtain ⟨n, rfl⟩ := change_fuel hc hfind hidle hr
    obtain ⟨-, hinst⟩ := find_eq_ok hfind
    have hevents : m'.events = [] :=
      (Operation.change?_spec hc happly).1.trans (congrArg Status.events hidle)
    have hclear : { m' with diagnostics := [] } = m' := by rw [← hsilent]
    rw [exec_change hc, change_of_find hfind (congrArg Status.busy hidle)] at hr
    simp only [happly, flush_after hinst hidle hevents, hclear, hsilent, Option.map_some,
      Option.some.injEq, Prod.mk.injEq] at hr
    rw [modifyMachine_of_find hfind]
    exact hr.2.symm

theorem change_returns (hw : w.AtRest) (hc : op.change? = some c) (fuel : Nat) :
    ∃ w', exec (fuel + 2) op w = some (c.reply (w.machine? c.handle), w') ∧
      Logs (w.modifyMachine c.handle c.effect) w' := by
  rcases hw.find_cases c.handle with hget | ⟨i, inst, hfind, hidle⟩
  · exact change_lost hc hget (fuel + 1)
  · exact change_found hc hfind hidle fuel

end

theorem drive_of_find {perform : Reaction ε → World ε → Option (HostResult × World ε)}
    (hfind : w.find h = .ok (i, inst)) (hidle : inst.status = .idle) (fuel : Nat)
    (operation : String)
    (f : Nat → Instance ε → World ε → Option (Except LibraryError Bool × World ε)) :
    drive perform fuel operation h f w =
      match f i inst w with
      | none => none
      | some (r, w) => (flush perform h i fuel w).map fun w => w.answerFlag r := by
  have hbusy : inst.busy = false := congrArg Status.busy hidle
  have hdispatching : inst.dispatching = false := congrArg Status.dispatching hidle
  rw [drive, hfind]
  exact (if_neg (by simp [hdispatching])).trans (if_neg (by simp [hbusy]))

theorem drive_lost {perform : Reaction ε → World ε → Option (HostResult × World ε)}
    (hget : w.arena.get? h = none) (fuel : Nat) (operation : String)
    (f : Nat → Instance ε → World ε → Option (Except LibraryError Bool × World ε)) :
    drive perform fuel operation h f w =
      some (.flag false, w.report .error (LibraryError.invalidHandle h).message) := by
  rw [drive, find_eq_error hget]
  rfl

theorem start_eq_of_find (hfind : w.find h = .ok (i, inst)) (hidle : inst.status = .idle)
    (bough : String) (fuel : Nat) : exec (fuel + 2) (.start h bough) w =
      match inst.machine.start bough with
      | .ok m => some (.flag true, w.setInstance i { inst with machine := m })
      | .error e => some (.flag false, w.report e.severity e.message) := by
  obtain ⟨-, hinst⟩ := find_eq_ok hfind
  change drive _ (fuel + 1) "start" h (startInstance bough) w = _
  rw [drive_of_find hfind hidle, startInstance]
  cases hstart : inst.machine.start bough with
  | ok m =>
    obtain ⟨hevents, hdiagnostics⟩ := Machine.sameQueues_start hstart
    simp only [flush_after hinst hidle (hevents.trans (congrArg Status.events hidle))]
    have hnil : m.diagnostics = [] := hdiagnostics.trans (congrArg Status.diagnostics hidle)
    have hm : { m with diagnostics := [] } = m := by rw [← hnil]
    rw [hm, hnil]
    rfl
  | error e =>
    simp only [flush_at_rest hinst hidle]
    rfl

theorem start_fuel (hfind : w.find h = .ok (i, inst)) (hidle : inst.status = .idle) {bough : String}
    {fuel : Nat} {r : Reply} (hr : exec fuel (.start h bough) w = some (r, w')) :
    ∃ n, fuel = n + 2 := by
  rcases fuel with _ | _ | n
  · cases hr
  · change drive _ 0 "start" h (startInstance bough) w = _ at hr
    rw [drive_of_find hfind hidle] at hr
    unfold startInstance at hr
    cases hstart : inst.machine.start bough <;> simp [hstart, flush] at hr
  · exact ⟨n, rfl⟩

theorem start_cases (hw : w.AtRest) {bough : String} {fuel : Nat} {r : Reply}
    (hr : exec fuel (.start h bough) w = some (r, w')) :
    (∃ m m', w.machine? h = some m ∧ m.start bough = .ok m' ∧ r = .flag true ∧
      w' = w.modifyMachine h fun _ => m') ∨
    ((∀ m m', w.machine? h = some m → m.start bough ≠ .ok m') ∧ r = .flag false ∧ Logs w w') := by
  rcases fuel with _ | fuel
  · cases hr
  rcases hw.find_cases h with hget | ⟨i, inst, hfind, hidle⟩
  · right
    change drive _ fuel "start" h (startInstance bough) w = _ at hr
    rw [drive_lost hget] at hr
    cases hr
    refine ⟨fun m m' hm => ?_, rfl, logs_report w _ _⟩
    simp [machine?, hget] at hm
  · simp only [machine?_of_find hfind, modifyMachine_of_find hfind]
    obtain ⟨n, heq⟩ := start_fuel hfind hidle hr
    rw [heq, start_eq_of_find hfind hidle] at hr
    cases hstart : inst.machine.start bough with
    | ok m =>
      rw [hstart] at hr
      cases hr
      exact .inl ⟨_, m, rfl, hstart, rfl, rfl⟩
    | error e =>
      rw [hstart] at hr
      cases hr
      refine .inr ⟨fun m m' hm hstart' => ?_, rfl, logs_report w _ _⟩
      cases hm
      rw [hstart] at hstart'
      cases hstart'

end World

end Dialogue
