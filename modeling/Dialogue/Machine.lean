import Dialogue.Container
import Dialogue.Machine.Error
import Dialogue.Value.Domain
import Dialogue.Value.Json

/-!
The machine that runs the code of a container. It runs until the host has to answer: a line waits to
be continued, choices wait for a selection. Output is queued as events, and problems that do not
stop the machine as diagnostics.

The functions that the host supplies are data of a type `φ`; a run is told how to apply them.
-/

namespace Dialogue

structure Line where
  speaker : String
  content : String
  tags : List String
deriving DecidableEq, Inhabited

structure Choice where
  content : String
  tags : List String
  /-- How often an option with this target has been selected before. -/
  visits : Nat
  target : UInt32
deriving DecidableEq, Inhabited

inductive Event where
  | line (line : Line)
  | choices (choices : List Choice)
  | changed (name : String) (value : Value)
deriving Inhabited

inductive Slot (φ : Type) where
  | value (v : Value)
  | function (arity : Nat) (body : φ)

structure Global (φ : Type) where
  symbol : GlobalSymbol
  slot : Slot φ
  /-- Whether changes by the script are events. -/
  observed : Bool

structure Machine (φ : Type) where
  container : Container
  globals : List (Global φ)
  state : MachineState
  /-- An offset into the code, always a word. -/
  ip : Nat
  /-- The options on offer while the machine waits for a choice. -/
  pending : List Choice
  /-- The targets of all selections so far. -/
  visited : List UInt32
  domains : EnumDomains
  events : List Event
  diagnostics : List MachineError

namespace Slot

variable {φ : Type}

/-- Functions count as nil where a value is replaced. -/
def current : Slot φ → Value
  | value v => v
  | function .. => .nil

def isTruthy : Slot φ → Bool
  | value v => v.isTruthy
  | function .. => true

def isFunction : Slot φ → Bool
  | value _ => false
  | function .. => true

end Slot

inductive HostResult where
  | value (v : Value)
  /-- A panic, with a message if its payload is text. -/
  | panic (message : Option String)

def panicText (message : Option String) : String := message.getD "unknown panic"

structure HostCall (φ : Type) where
  body : φ
  args : List Value
  ip : Nat
  dest : Option UInt32

inductive Step (φ : Type) where
  | next (m : Machine φ)
  | fault (m : Machine φ) (e : MachineError)
  | call (m : Machine φ) (c : HostCall φ)

inductive RunEnd where
  | paused
  | error (e : MachineError)
  | panic (message : Option String)

namespace Machine

variable {φ σ : Type}

def create (c : Container) : Machine φ where
  container := c
  globals := c.globals.map fun symbol => ⟨symbol, .value .nil, false⟩
  state := .ready
  ip := 0
  pending := []
  visited := []
  domains := .empty
  events := []
  diagnostics := []

def canContinue (m : Machine φ) : Bool :=
  match m.state with
  | .finished | .faulted => false
  | _ => true

def isWaiting (m : Machine φ) : Bool :=
  match m.state with
  | .waiting _ => true
  | _ => false

def start (m : Machine φ) (bough : String) : Except MachineError (Machine φ) :=
  match m.state with
  | .ready | .finished =>
    match m.container.bough? bough with
    | some b => .ok { m with ip := b.entry.toNat, pending := [], state := .running }
    | none => .error (.unknownBough bough)
  | state => .error (.invalidState "start" state)

def halt (m : Machine φ) : Machine φ := { m with state := .faulted, pending := [] }

def diagnose (m : Machine φ) (e : MachineError) : Machine φ :=
  { m with diagnostics := m.diagnostics ++ [e] }

def slotAt? (m : Machine φ) (index : UInt32) : Option (Global φ) :=
  m.globals.find? fun g => g.symbol.index == index

def global? (m : Machine φ) (name : String) : Option (Global φ) :=
  m.globals.find? fun g => g.symbol.name == name

def update (m : Machine φ) (index : UInt32) (f : Global φ → Global φ) : Machine φ :=
  { m with globals := m.globals.map fun g => if g.symbol.index == index then f g else g }

def write (m : Machine φ) (index : UInt32) (slot : Slot φ) : Machine φ :=
  m.update index fun g => { g with slot := slot }

/-- Assignment by the script. An immutable global takes one value that is not nil; a value that its
domain refuses is reported and dropped; a value equal to the current one changes nothing. -/
def assign (m : Machine φ) (index : UInt32) (v : Value) : Except Fault (Machine φ) :=
  match m.slotAt? index with
  | none => .error (.unknownGlobal index)
  | some g =>
    let current := g.slot.current
    if !g.symbol.isMutable && !current.isNil then .error (.immutable g.symbol.name)
    else match m.domains.checkAssignment current v with
      | .error cause => .ok (m.diagnose (.value g.symbol.name cause))
      | .ok () =>
        if current == v then .ok m
        else
          let m := if g.observed then
            { m with events := m.events ++ [.changed g.symbol.name v] } else m
          .ok (m.write index (.value v))

def receive (m : Machine φ) (ip : Nat) (dest : Option UInt32) (v : Value) :
    Except MachineError (Machine φ) :=
  match dest with
  | none => .ok m
  | some index => (m.assign index v).mapError (.fault ip)

def settle (m : Machine φ) (ip : Nat) (dest : Option UInt32) (v : Value) : Step φ :=
  match m.receive ip dest v with
  | .ok m => .next m
  | .error e => .fault m e

def isInside (m : Machine φ) (target : UInt32) : Bool := target.toNat ≤ m.container.code.size

def offer (m : Machine φ) (options : List ChoiceOption) : Machine φ :=
  let choices := options.map fun o =>
    { content := o.content, tags := o.tags, visits := m.visited.count o.target, target := o.target }
  { m with
    events := m.events ++ [.choices choices]
    pending := choices
    state := .waiting .choice }

def perform (m : Machine φ) (ip : Nat) : Instruction → Step φ
  | .stop => .next { m with state := .finished }
  | .line speaker content tags =>
    .next { m with
      events := m.events ++ [.line ⟨speaker, content, tags⟩]
      state := .waiting .continuation }
  | .choices options =>
    if options.isEmpty then .fault m (.fault ip .emptyChoices)
    else match options.find? fun o => !m.isInside o.target with
      | some o => .fault m (.fault ip (.targetOutside o.target))
      | none => .next (m.offer options)
  | .jump target =>
    if m.isInside target then .next { m with ip := target.toNat }
    else .fault m (.fault ip (.targetOutside target))
  | .jumpIfFalse index target =>
    if m.isInside target then
      match m.slotAt? index with
      | some g => .next (if g.slot.isTruthy then m else { m with ip := target.toNat })
      | none => .fault m (.fault ip (.unknownGlobal index))
    else .fault m (.fault ip (.targetOutside target))
  | .set index v => m.settle ip (some index) v
  | .call index args dest =>
    match m.slotAt? index with
    | none => .fault m (.fault ip (.unknownGlobal index))
    | some g =>
      match g.slot with
      | .value _ => (m.diagnose (.unboundFunction g.symbol.name)).settle ip dest .nil
      | .function arity body =>
        if args.length = arity then .call m ⟨body, args, ip, dest⟩
        else (m.diagnose (.arityMismatch g.symbol.name arity args.length)).settle ip dest .nil

def step (m : Machine φ) : Step φ :=
  if m.container.code.size ≤ m.ip then .next { m with state := .finished }
  else match m.container.instruction m.ip with
    | .error cause => .fault m (.fault m.ip (.undecodable cause))
    | .ok (i, next) => { m with ip := next }.perform m.ip i

/-- Executes instructions while the machine runs, at most as many as the fuel allows. Host functions
are applied with `host`, which may change a state. -/
def steps (host : φ → List Value → σ → Option (HostResult × σ)) :
    Nat → Machine φ → σ → Option (RunEnd × Machine φ × σ)
  | 0, _, _ => none
  | fuel + 1, m, s =>
    if m.state = .running then
      match m.step with
      | .next m => steps host fuel m s
      | .fault m e => some (.error e, m.halt, s)
      | .call m c =>
        match host c.body c.args s with
        | none => none
        | some (.panic message, s) => some (.panic message, m, s)
        | some (.value v, s) =>
          match m.receive c.ip c.dest v with
          | .ok m => steps host fuel m s
          | .error e => some (.error e, m.halt, s)
    else some (.paused, m, s)

/-- Runs until the script waits, ends or faults. While waiting this does nothing. -/
def run (host : φ → List Value → σ → Option (HostResult × σ)) (fuel : Nat) (m : Machine φ) (s : σ) :
    Option (RunEnd × Machine φ × σ) :=
  match m.state with
  | .running => steps host fuel m s
  | .waiting _ => some (.paused, m, s)
  | state => some (.error (.invalidState "run" state), m, s)

def setExtern (m : Machine φ) (name : String) (v : Value) : Except MachineError (Machine φ) :=
  match m.global? name with
  | none => .error (.unknownVariable name)
  | some g =>
    if g.symbol.isExtern then
      match m.domains.checkAssignment g.slot.current v with
      | .ok () => .ok (m.write g.symbol.index (.value v))
      | .error cause => .error (.value name cause)
    else .error (.notExtern name)

def setFunction (m : Machine φ) (name : String) (arity : Nat) (body : φ) :
    Except MachineError (Machine φ) :=
  match m.global? name with
  | none => .error (.unknownVariable name)
  | some g =>
    if g.symbol.isExtern then
      .ok (m.update g.symbol.index fun g =>
        { g with slot := .function arity body, observed := false })
    else .error (.notExtern name)

def subscribe (m : Machine φ) (name : String) : Except MachineError (Machine φ) :=
  match m.global? name with
  | none => .error (.unknownVariable name)
  | some g =>
    if g.slot.isFunction then .error (.notObservable name)
    else .ok (m.update g.symbol.index fun g => { g with observed := true })

def isSubscribed (m : Machine φ) (name : String) : Bool :=
  (m.global? name).any (·.observed)

def unsubscribe (m : Machine φ) (name : String) : Machine φ :=
  match m.global? name with
  | some g => m.update g.symbol.index fun g => { g with observed := false }
  | none => m

def value (m : Machine φ) (name : String) : Except MachineError Value :=
  match m.global? name with
  | none => .error (.unknownVariable name)
  | some g =>
    match g.slot with
    | .value v => .ok v
    | .function .. => .error (.notObservable name)

def declareEnum (m : Machine φ) (d : EnumDomain) : Machine φ :=
  { m with domains := m.domains.declare d }

/-- Adds the values of the globals to a snapshot and lists the problems. Functions are left out. -/
def saveGlobals : List (Global φ) → Snapshot → List MachineError → Snapshot × List MachineError
  | [], saved, problems => (saved, problems)
  | g :: rest, saved, problems =>
    match g.slot with
    | .function .. => saveGlobals rest saved problems
    | .value v =>
      match saved.save g.symbol.name v with
      | .ok saved => saveGlobals rest saved problems
      | .error cause =>
        saveGlobals rest saved (problems ++ [.snapshotEntry g.symbol.name cause])

def save (m : Machine φ) : Snapshot × Machine φ :=
  let (saved, problems) := saveGlobals m.globals .empty []
  (saved, { m with diagnostics := m.diagnostics ++ problems })

/-- Takes one saved value and tells whether it was applied. Names that the container does not know
and names of functions are passed over. -/
def loadEntry (m : Machine φ) (name : String) (j : Json) : Machine φ × Bool :=
  match m.global? name with
  | none => (m, false)
  | some g =>
    if g.slot.isFunction then (m, false)
    else
      let checked := do
        let v ← Value.ofJson j
        m.domains.checkAssignment g.slot.current v
        return v
      match checked with
      | .ok v => (m.write g.symbol.index (.value v), true)
      | .error cause => (m.diagnose (.snapshotEntry name cause), false)

def loadEntries (m : Machine φ) : List (String × Json) → Machine φ × Nat
  | [] => (m, 0)
  | (name, j) :: rest =>
    let (m, applied) := m.loadEntry name j
    let (m, count) := m.loadEntries rest
    (m, (if applied then 1 else 0) + count)

def load (m : Machine φ) (s : Snapshot) : Machine φ × Nat := m.loadEntries s.entries

def selectContinue (m : Machine φ) : Except MachineError (Machine φ) :=
  match m.state with
  | .waiting .continuation => .ok { m with state := .running }
  | state => .error (.invalidState "continue" state)

def selectChoice (m : Machine φ) (index : Nat) : Except MachineError (Machine φ) :=
  match m.state with
  | .waiting .choice =>
    match m.pending[index]? with
    | some c =>
      .ok { m with
        visited := c.target :: m.visited
        pending := []
        ip := c.target.toNat
        state := .running }
    | none => .error (.choiceOutOfRange index m.pending.length)
  | state => .error (.invalidState "select a choice" state)

def takeEvents (m : Machine φ) : List Event × Machine φ := (m.events, { m with events := [] })

def takeDiagnostics (m : Machine φ) : List MachineError × Machine φ :=
  (m.diagnostics, { m with diagnostics := [] })

end Machine

end Dialogue
