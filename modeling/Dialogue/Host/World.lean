import Dialogue.Host.Reaction

/-!
All machines of a process behind handles, and the channel through which they report. An operation
finds the machine, changes it, and then delivers what the machine has queued: diagnostics to the
channel, events to the callbacks of the machine. Callbacks may perform operations themselves.
While a machine runs it is busy for the host functions it calls, and while its events are delivered
it can be neither started nor run.
-/

namespace Dialogue

abbrev HostMachine (ε : Type) := Machine (List Value → Reaction ε)

structure Instance (ε : Type) where
  machine : HostMachine ε
  callbacks : Handle → Event → Reaction ε
  busy : Bool
  /-- Events of the machine are being delivered. -/
  dispatching : Bool

structure Channel (ε : Type) where
  threshold : Severity
  handler : Severity → String → ε → ε

structure World (ε : Type) where
  /-- Numbers of the instances behind live handles. -/
  arena : Arena Nat
  /-- All instances so far. A destroyed one stays until what it is doing is done. -/
  instances : List (Instance ε)
  buffers : List Buffer
  outstanding : Nat
  channel : Channel ε
  host : ε

namespace Reaction

variable {ε : Type}

def perform (exec : Operation ε → World ε → Option (Reply × World ε)) :
    Reaction ε → World ε → Option (HostResult × World ε)
  | done v, w => some (.value v, w)
  | panic message, w => some (.panic message, w)
  | update f next, w => next.perform exec { w with host := f w.host }
  | inspect next, w => (next w.host).perform exec w
  | call op next, w =>
    match exec op w with
    | some (r, w) => (next r).perform exec w
    | none => none

end Reaction

namespace World

variable {ε α : Type}

def create (handler : Severity → String → ε → ε) (host : ε) : World ε where
  arena := .empty
  instances := []
  buffers := []
  outstanding := 0
  channel := ⟨.error, handler⟩
  host := host

def report (w : World ε) (s : Severity) (message : String) : World ε :=
  if s.rank < w.channel.threshold.rank then w
  else { w with host := w.channel.handler s message w.host }

def answer (w : World ε) (r : Except LibraryError α) : Option α × World ε :=
  match r with
  | .ok x => (some x, w)
  | .error e => (none, w.report e.severity e.message)

def answerFlag (w : World ε) (r : Except LibraryError Bool) : Reply × World ε :=
  let (r, w) := w.answer r
  (.flag (r.getD false), w)

def find (w : World ε) (h : Handle) : Except LibraryError (Nat × Instance ε) :=
  match (w.arena.get? h).bind fun i => w.instances[i]?.map fun inst => (i, inst) with
  | some r => .ok r
  | none => .error (.invalidHandle h)

def setInstance (w : World ε) (i : Nat) (inst : Instance ε) : World ε :=
  { w with instances := w.instances.set i inst }

def modifyInstance (w : World ε) (i : Nat) (f : Instance ε → Instance ε) : World ε :=
  { w with instances := w.instances.modify i f }

def query (w : World ε) (h : Handle) (f : HostMachine ε → α) : Except LibraryError α := do
  let (_, inst) ← w.find h
  if inst.busy then .error (.busy h) else .ok (f inst.machine)

def deliver (perform : Reaction ε → World ε → Option (HostResult × World ε))
    (callback : Event → Reaction ε) :
    List Event → World ε → Option (Option (Option String) × World ε)
  | [], w => some (none, w)
  | e :: rest, w =>
    match perform (callback e) w with
    | some (.value _, w) => deliver perform callback rest w
    | some (.panic message, w) => some (some message, w)
    | none => none

/-- Takes what an instance has queued: its diagnostics are reported, and its events are to be
delivered, unless others of it are. -/
def collect (w : World ε) (i : Nat) (inst : Instance ε) : List Event × World ε :=
  let (diagnostics, machine) := inst.machine.takeDiagnostics
  let (events, machine) := if inst.dispatching then ([], machine) else machine.takeEvents
  let w := w.setInstance i { inst with machine := machine }
  (events, diagnostics.foldl (fun w e => w.report e.severity e.message) w)

def dispatch (w : World ε) (i : Nat) (b : Bool) : World ε :=
  w.modifyInstance i fun inst => { inst with dispatching := b }

def abandon (w : World ε) (h : Handle) (i : Nat) (message : Option String) : World ε :=
  (w.modifyInstance i fun inst => { inst with machine := inst.machine.halt }).report .error
    ("Callback for " ++ h.text ++ " panicked: " ++ panicText message)

/-- Reports the diagnostics that an instance has queued and delivers its events, round by round
until there are no more. Events that arise while others of the instance are delivered wait for the
next round. A panic of a callback halts the machine. -/
def flush (perform : Reaction ε → World ε → Option (HostResult × World ε)) (h : Handle) (i : Nat) :
    Nat → World ε → Option (World ε)
  | 0, _ => none
  | fuel + 1, w =>
    match w.instances[i]? with
    | none => some w
    | some inst =>
      if inst.busy then some w
      else
        let (events, w) := w.collect i inst
        if events.isEmpty then some w
        else
          match deliver perform (inst.callbacks h) events (w.dispatch i true) with
          | none => none
          | some (none, w) => flush perform h i fuel (w.dispatch i false)
          | some (some message, w) => some ((w.dispatch i false).abandon h i message)

def change (perform : Reaction ε → World ε → Option (HostResult × World ε)) (fuel : Nat)
    (h : Handle) (f : HostMachine ε → Except MachineError (α × HostMachine ε)) (w : World ε) :
    Option (Except LibraryError α × World ε) :=
  match w.find h with
  | .error e => some (.error e, w)
  | .ok (i, inst) =>
    if inst.busy then some (.error (.busy h), w)
    else
      match f inst.machine with
      | .ok (r, machine) =>
        (flush perform h i fuel (w.setInstance i { inst with machine := machine })).map
          fun w => (.ok r, w)
      | .error e => (flush perform h i fuel w).map fun w => (.error (.machine e), w)

def changeFlag (perform : Reaction ε → World ε → Option (HostResult × World ε)) (fuel : Nat)
    (h : Handle) (f : HostMachine ε → Except MachineError (HostMachine ε)) (w : World ε) :
    Option (Reply × World ε) :=
  (change perform fuel h (fun m => (f m).map fun m => (true, m)) w).map
    fun (r, w) => w.answerFlag r

/-- The answer to a run, and its machine. A panic of a host function halts it. -/
def conclude (machine : HostMachine ε) : RunEnd → Except LibraryError Bool × HostMachine ε
  | .paused => (.ok true, machine)
  | .error e => (.error (.machine e), machine)
  | .panic message =>
    (.error (.machine (.fault machine.ip (.hostPanic (panicText message)))), machine.halt)

def runInstance (perform : Reaction ε → World ε → Option (HostResult × World ε)) (fuel : Nat)
    (i : Nat) (inst : Instance ε) (w : World ε) : Option (Except LibraryError Bool × World ε) :=
  let w := w.setInstance i { inst with busy := true }
  match inst.machine.run (fun body args w => perform (body args) w) fuel w with
  | none => none
  | some (ended, machine, w) =>
    let (r, machine) := conclude machine ended
    some (r, w.modifyInstance i fun inst => { inst with machine := machine, busy := false })

/-- Starts or runs a machine that is neither busy nor having its events delivered. -/
def drive (perform : Reaction ε → World ε → Option (HostResult × World ε)) (fuel : Nat)
    (operation : String) (h : Handle)
    (f : Nat → Instance ε → World ε → Option (Except LibraryError Bool × World ε)) (w : World ε) :
    Option (Reply × World ε) :=
  match w.find h with
  | .error e => some (w.answerFlag (.error e))
  | .ok (i, inst) =>
    if inst.dispatching then some (w.answerFlag (.error (.reentrant operation)))
    else if inst.busy then some (w.answerFlag (.error (.busy h)))
    else
      match f i inst w with
      | none => none
      | some (r, w) => (flush perform h i fuel w).map fun w => w.answerFlag r

def startInstance (bough : String) (i : Nat) (inst : Instance ε) (w : World ε) :
    Option (Except LibraryError Bool × World ε) :=
  match inst.machine.start bough with
  | .ok machine => some (.ok true, w.setInstance i { inst with machine := machine })
  | .error e => some (.error (.machine e), w)

def open? (w : World ε) (bytes : Bytes) (callbacks : Handle → Event → Reaction ε) :
    Except LibraryError Handle × World ε :=
  match Container.parse bytes with
  | .error e => (.error (.format e), w.report .error ("Failed to create VM: " ++ e.message))
  | .ok c =>
    let (h, arena) := w.arena.insert w.instances.length
    (.ok h, { w with
      arena := arena
      instances := w.instances ++ [⟨.create c, callbacks, false, false⟩] })

def destroy (w : World ε) (h : Handle) : Bool × World ε :=
  match w.arena.remove? h with
  | some arena => (true, { w with arena := arena })
  | none => (false, w.report .debug ("Ignoring destroy of stale handle " ++ h.text))

def lend (w : World ε) (h : Handle) (name : String) : Option Nat × World ε :=
  let r := do
    match ← w.query h (·.value name) with
    | .ok v => .ok v
    | .error e => .error (.machine e)
  let (v, w) := w.answer r
  match v with
  | none => (none, w)
  | some v =>
    (some w.buffers.length,
      { w with buffers := w.buffers ++ [.ofValue v], outstanding := w.outstanding + 1 })

def release (w : World ε) (number : Nat) : World ε :=
  match w.buffers[number]? with
  | none => w
  | some b =>
    { w with
      buffers := w.buffers.set number b.release.1
      outstanding := if b.isReleased then w.outstanding else w.outstanding - 1 }

/-- Performs an operation. Fuel bounds the depth of operations within operations, the instructions
that a run executes and the rounds of deliveries. -/
def exec : Nat → Operation ε → World ε → Option (Reply × World ε)
  | 0, _, _ => none
  | fuel + 1, op, w =>
    let perform := Reaction.perform (exec fuel)
    let changeFlag := changeFlag perform fuel
    let queryFlag h f := some (w.answerFlag (w.query h f))
    match op with
    | .create bytes callbacks => let (r, w) := w.open? bytes callbacks; some (.created r, w)
    | .destroy h => let (r, w) := w.destroy h; some (.flag r, w)
    | .isAlive h => some (.flag (w.arena.get? h).isSome, w)
    | .size => some (.count w.arena.live, w)
    | .start h bough => drive perform fuel "start" h (startInstance bough) w
    | .run h => drive perform fuel "run" h (runInstance perform fuel) w
    | .state h => let (r, w) := w.answer (w.query h (·.state)); some (.state r, w)
    | .canContinue h => queryFlag h (·.canContinue)
    | .isWaiting h => queryFlag h (·.isWaiting)
    | .selectContinue h => changeFlag h (·.selectContinue) w
    | .selectChoice h index => changeFlag h (·.selectChoice index) w
    | .subscribe h name => changeFlag h (·.subscribe name) w
    | .unsubscribe h name =>
      (change perform fuel h (fun m => .ok (m.isSubscribed name, m.unsubscribe name)) w).map
        fun (r, w) => w.answerFlag r
    | .setExtern h name v => changeFlag h (·.setExtern name v) w
    | .setFunction h name arity body => changeFlag h (·.setFunction name arity body) w
    | .declareEnum h d => changeFlag h (fun m => .ok (m.declareEnum d)) w
    | .getValue h name => let (r, w) := w.lend h name; some (.buffer r, w)
    | .bufferBytes number => some (.bytes (w.buffers[number]?.map (·.bytes)), w)
    | .release number => some (.unit, w.release number)
    | .outstanding => some (.count w.outstanding, w)
    | .save h =>
      (change perform fuel h (fun m => .ok m.save) w).map
        fun (r, w) => let (r, w) := w.answer r; (.snapshot r, w)
    | .load h s =>
      (change perform fuel h (fun m => let (m, n) := m.load s; .ok (n, m)) w).map
        fun (r, w) => let (r, w) := w.answer r; (.count (r.getD 0), w)
    | .externs h =>
      let (r, w) := w.answer (w.query h (·.container.externs)); some (.names r, w)
    | .boughNames h =>
      let (r, w) := w.answer (w.query h (·.container.boughNames)); some (.names r, w)
    | .setSeverity s => some (.unit, { w with channel := { w.channel with threshold := s } })
    | .report s message => some (.unit, w.report s message)
    | .resetHandler =>
      some (.unit, { w with channel := { w.channel with handler := fun _ _ e => e } })

end World

end Dialogue
