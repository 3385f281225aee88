import Dialogue.Host.World

/-!
Recorded operations. They do what the operations do, and note what happens meanwhile: what machines
queue, what is reported, and which callbacks are entered and left.
-/

namespace Dialogue

inductive Occurrence (ε : Type) where
  | created (h : Handle) (i : Nat)
  | queued (i : Nat) (e : Event)
  | diagnosed (i : Nat) (e : MachineError)
  | reported (i : Nat) (e : MachineError)
  | entered (i : Nat) (h : Handle) (e : Event)
  | left (i : Nat)
  | panicked (i : Nat)
  /-- The operation was called when there were `since` occurrences. -/
  | returned (op : Operation ε) (since : Nat) (before : World ε) (reply : Reply) (after : World ε)

structure Recorded (ε : Type) where
  world : World ε
  trace : List (Occurrence ε)

structure Change (ε : Type) where
  handle : Handle
  fallback : Reply
  apply : HostMachine ε → Except MachineError (Reply × HostMachine ε)

variable {ε : Type}

def Operation.change? : Operation ε → Option (Change ε)
  | selectContinue h => some ⟨h, .flag false, fun m => m.selectContinue.map (.flag true, ·)⟩
  | selectChoice h index =>
    some ⟨h, .flag false, fun m => (m.selectChoice index).map (.flag true, ·)⟩
  | subscribe h name => some ⟨h, .flag false, fun m => (m.subscribe name).map (.flag true, ·)⟩
  | unsubscribe h name =>
    some ⟨h, .flag false, fun m => .ok (.flag (m.isSubscribed name), m.unsubscribe name)⟩
  | setExtern h name v => some ⟨h, .flag false, fun m => (m.setExtern name v).map (.flag true, ·)⟩
  | setFunction h name arity body =>
    some ⟨h, .flag false, fun m => (m.setFunction name arity body).map (.flag true, ·)⟩
  | declareEnum h d => some ⟨h, .flag false, fun m => .ok (.flag true, m.declareEnum d)⟩
  | save h => some ⟨h, .snapshot none, fun m => .ok (.snapshot m.save.1, m.save.2)⟩
  | load h s => some ⟨h, .count 0, fun m => .ok (.count (m.load s).2, (m.load s).1)⟩
  | _ => none

def Operation.isQuiet : Operation ε → Bool
  | create .. | start .. | run .. => false
  | op => op.change?.isNone

theorem Operation.kinds (op : Operation ε) :
    (∃ bytes callbacks, op = create bytes callbacks) ∨ (∃ h bough, op = start h bough) ∨
      (∃ h, op = run h) ∨ (∃ c, op.change? = some c) ∨ op.isQuiet = true := by
  cases op <;> simp [change?, isQuiet]

namespace Recorded

def note (s : Recorded ε) (os : List (Occurrence ε)) : Recorded ε :=
  { s with trace := s.trace ++ os }

def update (s : Recorded ε) (f : World ε → World ε) : Recorded ε := { s with world := f s.world }

def additions (i : Nat) (m m' : HostMachine ε) : List (Occurrence ε) :=
  (m'.events.drop m.events.length).map (.queued i) ++
    (m'.diagnostics.drop m.diagnostics.length).map (.diagnosed i)

def store (s : Recorded ε) (i : Nat) (inst : Instance ε) (m : HostMachine ε) : Recorded ε :=
  (s.update (·.setInstance i { inst with machine := m })).note (additions i inst.machine m)

def perform (exec : Operation ε → Recorded ε → Option (Reply × Recorded ε)) :
    Reaction ε → Recorded ε → Option (HostResult × Recorded ε)
  | .done v, s => some (.value v, s)
  | .panic message, s => some (.panic message, s)
  | .update f next, s => perform exec next (s.update fun w => { w with host := f w.host })
  | .inspect next, s => perform exec (next s.world.host) s
  | .call op next, s =>
    match exec op s with
    | some (r, s) => perform exec (next r) s
    | none => none

variable (perform : Reaction ε → Recorded ε → Option (HostResult × Recorded ε))

def deliver (i : Nat) (h : Handle) (callback : Event → Reaction ε) :
    List Event → Recorded ε → Option (Option (Option String) × Recorded ε)
  | [], s => some (none, s)
  | e :: rest, s =>
    match perform (callback e) (s.note [.entered i h e]) with
    | some (.value _, s) => deliver i h callback rest (s.note [.left i])
    | some (.panic message, s) => some (some message, s.note [.panicked i])
    | none => none

def report (s : Recorded ε) (i : Nat) (e : MachineError) : Recorded ε :=
  (s.update (·.report e.severity e.message)).note [.reported i e]

def collect (s : Recorded ε) (i : Nat) (inst : Instance ε) : List Event × Recorded ε :=
  let (diagnostics, machine) := inst.machine.takeDiagnostics
  let (events, machine) := if inst.dispatching then ([], machine) else machine.takeEvents
  let s := s.update (·.setInstance i { inst with machine := machine })
  (events, diagnostics.foldl (fun s e => s.report i e) s)

def flush (h : Handle) (i : Nat) : Nat → Recorded ε → Option (Recorded ε)
  | 0, _ => none
  | fuel + 1, s =>
    match s.world.instances[i]? with
    | none => some s
    | some inst =>
      if inst.busy then some s
      else
        let (events, s) := s.collect i inst
        if events.isEmpty then some s
        else
          match deliver perform i h (inst.callbacks h) events (s.update (·.dispatch i true)) with
          | none => none
          | some (none, s) => flush h i fuel (s.update (·.dispatch i false))
          | some (some message, s) =>
            some (s.update fun w => (w.dispatch i false).abandon h i message)

def change (fuel : Nat) (c : Change ε) (s : Recorded ε) : Option (Reply × Recorded ε) :=
  let answer (r : Except LibraryError Reply) (s : Recorded ε) : Reply × Recorded ε :=
    let (r, w) := s.world.answer r
    (r.getD c.fallback, { s with world := w })
  match s.world.find c.handle with
  | .error e => some (answer (.error e) s)
  | .ok (i, inst) =>
    if inst.busy then some (answer (.error (.busy c.handle)) s)
    else
      match c.apply inst.machine with
      | .ok (r, m) => (flush perform c.handle i fuel (s.store i inst m)).map (answer (.ok r))
      | .error e => (flush perform c.handle i fuel s).map (answer (.error (.machine e)))

def answerFlag (s : Recorded ε) (r : Except LibraryError Bool) : Reply × Recorded ε :=
  let (r, w) := s.world.answerFlag r
  (r, { s with world := w })

def occupy (s : Recorded ε) (i : Nat) (inst : Instance ε) : Recorded ε :=
  s.update (·.setInstance i { inst with busy := true })

def vacate (s : Recorded ε) (i : Nat) (m m' : HostMachine ε) : Recorded ε :=
  (s.update (·.modifyInstance i fun inst => { inst with machine := m', busy := false })).note
    (additions i m m')

def runInstance (fuel : Nat) (i : Nat) (inst : Instance ε) (s : Recorded ε) :
    Option (Except LibraryError Bool × Recorded ε) :=
  match inst.machine.run (fun body args s => perform (body args) s) fuel (s.occupy i inst) with
  | none => none
  | some (ended, m, s) =>
    let (r, m) := World.conclude m ended
    some (r, s.vacate i inst.machine m)

def startInstance (bough : String) (i : Nat) (inst : Instance ε) (s : Recorded ε) :
    Option (Except LibraryError Bool × Recorded ε) :=
  match inst.machine.start bough with
  | .ok m => some (.ok true, s.store i inst m)
  | .error e => some (.error (.machine e), s)

def drive (fuel : Nat) (operation : String) (h : Handle)
    (f : Nat → Instance ε → Recorded ε → Option (Except LibraryError Bool × Recorded ε))
    (s : Recorded ε) : Option (Reply × Recorded ε) :=
  match s.world.find h with
  | .error e => some (s.answerFlag (.error e))
  | .ok (i, inst) =>
    if inst.dispatching then some (s.answerFlag (.error (.reentrant operation)))
    else if inst.busy then some (s.answerFlag (.error (.busy h)))
    else
      match f i inst s with
      | none => none
      | some (r, s) => (flush perform h i fuel s).map fun s => s.answerFlag r

def create (s : Recorded ε) (bytes : Bytes) (callbacks : Handle → Event → Reaction ε) :
    Reply × Recorded ε :=
  let (r, w) := s.world.open? bytes callbacks
  (.created r, (s.update fun _ => w).note (match r with
    | .ok h => [.created h s.world.instances.length]
    | .error _ => []))

def enact (perform : Reaction ε → Recorded ε → Option (HostResult × Recorded ε)) (fuel : Nat)
    (op : Operation ε) (quiet : World ε → Option (Reply × World ε)) (s : Recorded ε) :
    Option (Reply × Recorded ε) :=
  match op with
  | .create bytes callbacks => some (s.create bytes callbacks)
  | .start h bough => drive perform fuel "start" h (startInstance bough) s
  | .run h => drive perform fuel "run" h (runInstance perform fuel) s
  | op =>
    match op.change? with
    | some c => change perform fuel c s
    | none => (quiet s.world).map fun (r, w) => (r, s.update fun _ => w)

theorem enact_change {perform : Reaction ε → Recorded ε → Option (HostResult × Recorded ε)}
    {fuel : Nat} {op : Operation ε} {quiet : World ε → Option (Reply × World ε)} {c : Change ε}
    (h : op.change? = some c) (s : Recorded ε) :
    enact perform fuel op quiet s = change perform fuel c s := by
  cases op <;> cases h <;> rfl

theorem enact_quiet {perform : Reaction ε → Recorded ε → Option (HostResult × Recorded ε)}
    {fuel : Nat} {op : Operation ε} {quiet : World ε → Option (Reply × World ε)}
    (h : op.isQuiet = true) (s : Recorded ε) : enact perform fuel op quiet s =
      (quiet s.world).map fun r => (r.1, s.update fun _ => r.2) := by
  cases op <;> first | rfl | cases h

def exec : Nat → Operation ε → Recorded ε → Option (Reply × Recorded ε)
  | 0, _, _ => none
  | fuel + 1, op, s =>
    (enact (Recorded.perform (exec fuel)) fuel op (World.exec (fuel + 1) op) s).map fun (r, s') =>
      (r, s'.note [.returned op s.trace.length s.world r s'.world])

end Recorded

namespace Machine

variable {φ σ τ : Type}

theorem run_map {host : φ → List Value → σ → Option (HostResult × σ)}
    {host' : φ → List Value → τ → Option (HostResult × τ)} {f : σ → τ}
    (h : ∀ body args s, (host body args s).map (Prod.map id f) = host' body args (f s))
    (fuel : Nat) (m : Machine φ) (s : σ) :
    (m.run host fuel s).map (fun (ended, m, s) => (ended, m, f s)) = m.run host' fuel (f s) := by
  have hsteps : (steps host fuel m s).map (fun (ended, m, s) => (ended, m, f s)) =
      steps host' fuel m (f s) := by
    induction fuel generalizing m s with
    | zero => rfl
    | succ fuel ih =>
      rw [steps, steps]
      split
      · cases m.step with
        | next m => exact ih m s
        | fault m e => rfl
        | call m c =>
          simp only
          rw [← h]
          cases hhost : host c.body c.args s with
          | none => rfl
          | some r =>
            obtain ⟨v | message, s⟩ := r
            · simp only [Option.map_some, Prod.map_apply, id_eq]
              cases m.receive c.ip c.dest v with
              | ok m => exact ih m s
              | error e => rfl
            · rfl
      · rfl
  unfold run
  split
  · exact hsteps
  · rfl
  · rfl

end Machine

namespace Recorded

def erase {α : Type} (r : Option (α × Recorded ε)) : Option (α × World ε) :=
  r.map (Prod.map id Recorded.world)

theorem erase_perform {exec : Operation ε → Recorded ε → Option (Reply × Recorded ε)}
    {exec' : Operation ε → World ε → Option (Reply × World ε)}
    (h : ∀ op s, erase (exec op s) = exec' op s.world) :
    ∀ (r : Reaction ε) (s : Recorded ε), erase (perform exec r s) = r.perform exec' s.world
  | .done v, s => rfl
  | .panic message, s => rfl
  | .update f next, s => by
    rw [perform, Reaction.perform, erase_perform h next]
    rfl
  | .inspect next, s => by
    rw [perform, Reaction.perform, erase_perform h (next s.world.host)]
  | .call op next, s => by
    rw [perform, Reaction.perform, ← h op s]
    cases exec op s with
    | none => rfl
    | some r => exact erase_perform h (next r.1) r.2

theorem erase_startInstance (bough : String) (i : Nat) (inst : Instance ε) (s : Recorded ε) :
    erase (startInstance bough i inst s) = World.startInstance bough i inst s.world := by
  unfold startInstance World.startInstance
  cases inst.machine.start bough <;> rfl

theorem foldl_report (es : List MachineError) (i : Nat) (s : Recorded ε) :
    es.foldl (fun s e => s.report i e) s =
      ⟨es.foldl (fun w e => w.report e.severity e.message) s.world,
        s.trace ++ es.map (.reported i)⟩ := by
  induction es generalizing s with
  | nil => simp
  | cons e es ih =>
    rw [List.foldl_cons, ih]
    simp [report, note, update]

theorem collect_eq (s : Recorded ε) (i : Nat) (inst : Instance ε) : s.collect i inst =
    ((s.world.collect i inst).1, ⟨(s.world.collect i inst).2,
      s.trace ++ inst.machine.diagnostics.map (.reported i)⟩) := by
  unfold collect World.collect
  simp only [foldl_report]
  rfl

section Erasure

variable {perform : Reaction ε → Recorded ε → Option (HostResult × Recorded ε)}
variable {perform' : Reaction ε → World ε → Option (HostResult × World ε)}
variable (h : ∀ r s, erase (perform r s) = perform' r s.world)

include h

theorem erase_deliver (i : Nat) (hd : Handle) (callback : Event → Reaction ε) (events : List Event)
    (s : Recorded ε) : erase (deliver perform i hd callback events s) =
      World.deliver perform' callback events s.world := by
  induction events generalizing s with
  | nil => rfl
  | cons e events ih =>
    have he : erase (perform (callback e) (s.note [.entered i hd e])) =
        perform' (callback e) s.world := h _ _
    rw [deliver, World.deliver, ← he]
    cases perform (callback e) (s.note [.entered i hd e]) with
    | none => rfl
    | some r =>
      obtain ⟨v | message, s⟩ := r
      · exact ih (s.note [.left i])
      · rfl

theorem erase_flush (hd : Handle) (i fuel : Nat) (s : Recorded ε) :
    (flush perform hd i fuel s).map world = World.flush perform' hd i fuel s.world := by
  induction fuel generalizing s with
  | zero => rfl
  | succ fuel ih =>
    rw [flush, World.flush]
    cases s.world.instances[i]? with
    | none => rfl
    | some inst =>
      simp only
      split
      · rfl
      · rw [collect_eq]
        generalize s.world.collect i inst = taken
        obtain ⟨events, w⟩ := taken
        let s₁ : Recorded ε := ⟨w, s.trace ++ inst.machine.diagnostics.map (.reported i)⟩
        have hdeliver : erase (deliver perform i hd (inst.callbacks hd) events
            (s₁.update (·.dispatch i true))) =
              World.deliver perform' (inst.callbacks hd) events (w.dispatch i true) :=
          erase_deliver h i hd (inst.callbacks hd) events (s₁.update (·.dispatch i true))
        change Option.map world (if events.isEmpty then some s₁ else _) = _
        simp only
        split
        · rfl
        · rw [← hdeliver]
          change Option.map world (match deliver perform i hd (inst.callbacks hd) events
              (s₁.update (·.dispatch i true)) with
            | none => none
            | some (none, s) => flush perform hd i fuel (s.update (·.dispatch i false))
            | some (some message, s) => _) = _
          cases deliver perform i hd (inst.callbacks hd) events (s₁.update (·.dispatch i true)) with
          | none => rfl
          | some r =>
            obtain ⟨_ | message, s⟩ := r
            · exact ih (s.update (·.dispatch i false))
            · rfl

theorem erase_runInstance (fuel i : Nat) (inst : Instance ε) (s : Recorded ε) :
    erase (runInstance perform fuel i inst s) =
      World.runInstance perform' fuel i inst s.world := by
  have hhost (body : List Value → Reaction ε) (args : List Value) (s : Recorded ε) :
      (perform (body args) s).map (Prod.map id world) = perform' (body args) s.world :=
    h (body args) s
  have hrun := Machine.run_map hhost fuel inst.machine (s.occupy i inst)
  change _ = inst.machine.run (fun body args w => perform' (body args) w) fuel
    (s.world.setInstance i { inst with busy := true }) at hrun
  rw [runInstance, World.runInstance, ← hrun]
  cases inst.machine.run (fun body args s => perform (body args) s) fuel (s.occupy i inst) with
  | none => rfl
  | some r => rfl

theorem erase_drive (fuel : Nat) (operation : String) (hd : Handle)
    {f : Nat → Instance ε → Recorded ε → Option (Except LibraryError Bool × Recorded ε)}
    {f' : Nat → Instance ε → World ε → Option (Except LibraryError Bool × World ε)}
    (hf : ∀ i inst s, erase (f i inst s) = f' i inst s.world) (s : Recorded ε) :
    erase (drive perform fuel operation hd f s) =
      World.drive perform' fuel operation hd f' s.world := by
  unfold drive World.drive
  cases s.world.find hd with
  | error e => rfl
  | ok r =>
    obtain ⟨i, inst⟩ := r
    simp only
    split
    · rfl
    · split
      · rfl
      · rw [← hf]
        cases f i inst s with
        | none => rfl
        | some r =>
          have hflush := erase_flush h hd i fuel r.2
          change _ = (World.flush perform' hd i fuel r.2.world).map fun w => w.answerFlag r.1
          rw [← hflush]
          change Option.map _ ((flush perform hd i fuel r.2).map fun s => s.answerFlag r.1) = _
          cases flush perform hd i fuel r.2 <;> rfl

theorem erase_change (fuel : Nat) (c : Change ε) (s : Recorded ε) :
    erase (change perform fuel c s) = (World.change perform' fuel c.handle c.apply s.world).map
      fun (r, w) => ((w.answer r).1.getD c.fallback, (w.answer r).2) := by
  unfold change World.change
  cases s.world.find c.handle with
  | error e => rfl
  | ok r =>
    obtain ⟨i, inst⟩ := r
    simp only
    split
    · rfl
    · cases c.apply inst.machine with
      | ok r =>
        have hflush := erase_flush h c.handle i fuel (s.store i inst r.2)
        change _ = ((World.flush perform' c.handle i fuel (s.store i inst r.2).world).map _).map _
        rw [← hflush]
        cases hs : flush perform c.handle i fuel (s.store i inst r.2) <;> simp [hs, erase]
      | error e =>
        have hflush := erase_flush h c.handle i fuel s
        change _ = ((World.flush perform' c.handle i fuel s.world).map _).map _
        rw [← hflush]
        cases flush perform c.handle i fuel s <;> simp [erase]

end Erasure

end Recorded

namespace World

theorem answer_map {α β : Type} (w : World ε) (r : Except LibraryError α) (g : α → β) :
    w.answer (r.map g) = ((w.answer r).1.map g, (w.answer r).2) := by
  cases r <;> rfl

theorem change_map {α β : Type} {perform : Reaction ε → World ε → Option (HostResult × World ε)}
    {f : HostMachine ε → Except MachineError (α × HostMachine ε)}
    {f' : HostMachine ε → Except MachineError (β × HostMachine ε)} {g : α → β}
    (hf : ∀ m, f' m = (f m).map fun r => (g r.1, r.2)) (fuel : Nat) (h : Handle) (w : World ε) :
    change perform fuel h f' w = (change perform fuel h f w).map fun r => (r.1.map g, r.2) := by
  unfold change
  cases w.find h with
  | error e => rfl
  | ok r =>
    obtain ⟨i, inst⟩ := r
    simp only
    split
    · rfl
    · rw [hf]
      cases f inst.machine with
      | ok r =>
        simp only [Except.map, Option.map_map]
        rfl
      | error e =>
        simp only [Except.map, Option.map_map]
        rfl

theorem change_reply {α : Type} {perform : Reaction ε → World ε → Option (HostResult × World ε)}
    {f : HostMachine ε → Except MachineError (α × HostMachine ε)} {c : Change ε} {g : α → Reply}
    (hf : ∀ m, c.apply m = (f m).map fun r => (g r.1, r.2)) (fuel : Nat) (w : World ε) :
    ((change perform fuel c.handle c.apply w).map
      fun r => ((r.2.answer r.1).1.getD c.fallback, (r.2.answer r.1).2)) =
      (change perform fuel c.handle f w).map
        fun r => (((r.2.answer r.1).1.map g).getD c.fallback, (r.2.answer r.1).2) := by
  rw [change_map hf, Option.map_map]
  congr 1
  funext r
  simp only [Function.comp_apply, answer_map]

theorem answerFlag_eq (w : World ε) (r : Except LibraryError Bool) : w.answerFlag r =
    (((w.answer r).1.map Reply.flag).getD (.flag false), (w.answer r).2) := by
  cases r <;> rfl

theorem changeFlag_reply {perform : Reaction ε → World ε → Option (HostResult × World ε)}
    {f : HostMachine ε → Except MachineError (HostMachine ε)} {h : Handle} (fuel : Nat)
    (w : World ε) : changeFlag perform fuel h f w =
      (change perform fuel h (fun m => (f m).map (Reply.flag true, ·)) w).map
        fun r => ((r.2.answer r.1).1.getD (.flag false), (r.2.answer r.1).2) := by
  have hf (m : HostMachine ε) : (f m).map (Reply.flag true, ·) =
      ((f m).map fun m => (true, m)).map fun r => (Reply.flag r.1, r.2) := by
    cases f m <;> rfl
  refine Eq.trans ?_
    (change_reply (c := ⟨h, .flag false, fun m => (f m).map (Reply.flag true, ·)⟩) hf fuel w).symm
  rw [changeFlag]
  congr 1
  funext r
  exact answerFlag_eq r.2 r.1

theorem exec_change {op : Operation ε} {c : Change ε} (h : op.change? = some c) (fuel : Nat)
    (w : World ε) : exec (fuel + 1) op w =
      (change (Reaction.perform (exec fuel)) fuel c.handle c.apply w).map
        fun r => ((r.2.answer r.1).1.getD c.fallback, (r.2.answer r.1).2) := by
  cases op <;> cases h
  case unsubscribe h name =>
    rw [change_reply (f := fun m => .ok (m.isSubscribed name, m.unsubscribe name)) (g := Reply.flag)
      fun m => rfl, exec]
    congr 1
    funext r
    exact answerFlag_eq r.2 r.1
  case save h =>
    rw [change_reply (f := fun m => .ok m.save) (g := fun s => Reply.snapshot (some s)) fun m => rfl,
      exec]
    congr 1
    funext r
    obtain ⟨e | s, w⟩ := r <;> rfl
  case load h s =>
    rw [change_reply (f := fun m => .ok ((m.load s).2, (m.load s).1)) (g := Reply.count)
      fun m => rfl, exec]
    congr 1
    funext r
    obtain ⟨e | n, w⟩ := r <;> rfl
  all_goals exact changeFlag_reply fuel w

end World

namespace Recorded

theorem erase_exec (fuel : Nat) (op : Operation ε) (s : Recorded ε) :
    erase (exec fuel op s) = World.exec fuel op s.world := by
  induction fuel generalizing op s with
  | zero => rfl
  | succ fuel ih =>
    have hperform := erase_perform ih
    have hreturn (r : Option (Reply × Recorded ε)) : erase (r.map fun r =>
        (r.1, r.2.note [.returned op s.trace.length s.world r.1 r.2.world])) = erase r := by
      cases r <;> rfl
    rw [exec, hreturn]
    rcases op.kinds with ⟨bytes, callbacks, rfl⟩ | ⟨h, bough, rfl⟩ | ⟨h, rfl⟩ | ⟨c, hc⟩ | hquiet
    · rfl
    · exact erase_drive hperform fuel "start" h (erase_startInstance bough) s
    · exact erase_drive hperform fuel "run" h (erase_runInstance hperform fuel) s
    · rw [enact_change hc, World.exec_change hc]
      exact erase_change hperform fuel c s
    · rw [enact_quiet hquiet]
      cases World.exec (fuel + 1) op s.world <;> rfl

end Recorded

end Dialogue
