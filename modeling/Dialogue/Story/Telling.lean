import Dialogue.Host.World
import Dialogue.Story
import Dialogue.Story.Extern
import Dialogue.Story.Files

/-!
Telling a story: conversations are created, started, driven slice by slice or played to the end,
finished and destroyed.

A conversation that starts takes over the saved state and binds the shared variables that its
container asks for; when it finishes, its variables are saved and the bindings are undone.
-/

namespace Dialogue

/-- Actions on a world of stories. What was done before a failure stays done. -/
abbrev Telling (δ : Type) := ExceptT StoryError (StateT (World (Story δ)) Option)

structure Responder (δ : Type) where
  line : SpokenLine → δ → δ
  choose : List Choice → δ → Nat × δ

def Responder.first {δ : Type} : Responder δ := ⟨fun _ s => s, fun _ s => (0, s)⟩

namespace Telling

variable {δ : Type}

def bounded {α : Type} (f : World (Story δ) → Option (α × World (Story δ))) : Telling δ α :=
  ExceptT.lift f

def perform (fuel : Nat) (op : Operation (Story δ)) : Telling δ Reply :=
  bounded (World.exec fuel op)

def performFlag (fuel : Nat) (op : Operation (Story δ)) : Telling δ Bool := do
  match ← perform fuel op with
  | .flag b => return b
  | _ => return false

def story : Telling δ (Story δ) := return (← get).host

def update (f : Story δ → Story δ) : Telling δ Unit := modify fun w => { w with host := f w.host }

def diagnostic : Telling δ String := do
  let w ← get
  return "Engine \x7b sessions: " ++ toString w.host.routes.length ++ ", vms: " ++
    toString w.arena.live ++ " \x7d"

def conversation? (i : Nat) : Telling δ (Option (Conversation δ)) :=
  return (← story).conversations[i]?

/-- Sets a shared variable on behalf of the host. Machines that are bound to it are told. -/
def setShared (fuel : Nat) (name : String) (v : Value) : Telling δ (Except ValueError Bool) := do
  match (← story).share name v with
  | .error e => return .error e
  | .ok none => return .ok false
  | .ok (some (store, told)) =>
    update fun s => { s with store := some store }
    for h in told do
      let _ ← perform fuel (.setExtern h name v)
    return .ok true

/-- Binds one shared variable to the machine of a conversation, unless it is bound already. -/
def bindVariable (fuel i : Nat) (c : Conversation δ) (name : String) : Telling δ Unit := do
  let bound := ((← conversation? i).map (·.isBound name)).getD true
  if !c.externs.contains name || bound then return ()
  if let some v := (← story).store.bind (·.get? name) then
    let _ ← perform fuel (.setExtern c.handle name v)
  let _ ← perform fuel (.subscribe c.handle name)
  if let some store := (← story).store then
    let (id, store) := store.watch name c.handle
    update fun s =>
      { s with store := some store }.modify i fun c =>
        { c with bindings := c.bindings ++ [(name, id)] }

def bindStore (fuel i : Nat) (c : Conversation δ) : Telling δ Unit := do
  if let some store := (← story).store then
    for d in store.domains.values do
      let _ ← perform fuel (.declareEnum c.handle d)
    for name in store.names do
      bindVariable fuel i c name

def unbindStore (fuel i : Nat) (c : Conversation δ) : Telling δ Unit := do
  let bindings := ((← conversation? i).map (·.bindings)).getD []
  update (·.modify i fun c => { c with bindings := [] })
  if (← story).store.isSome then
    for (name, id) in bindings do
      update fun s => { s with store := s.store.map (·.unwatch id) }
      let _ ← perform fuel (.unsubscribe c.handle name)

def inject (fuel : Nat) (h : Handle) : Telling δ Unit := do
  let state := (← story).state
  if !state.isEmpty then
    let _ ← perform fuel (.load h state)

/-- Undoes what a conversation has set up and destroys its machine; false when that has been
done. -/
def destroy (fuel i : Nat) : Telling δ Bool := do
  match ← conversation? i with
  | none => return false
  | some c =>
    if c.phase = .destroyed then return false
    update (·.stopSpeaker i)
    unbindStore fuel i c
    update fun s => { s with routes := s.routes.filter (·.1 != c.handle) }
    let _ ← perform fuel (.destroy c.handle)
    update (·.modify i fun c => { c with phase := .destroyed })
    return true

def takeEvents (i : Nat) : Telling δ (List StoryEvent) := do
  let events := ((← conversation? i).map (·.events)).getD []
  update (·.modify i fun c => { c with events := [] })
  return events

def takeEvent? (i : Nat) : Telling δ (Option StoryEvent) := do
  match (← conversation? i).map (·.events) with
  | some (e :: rest) =>
    update (·.modify i fun c => { c with events := rest })
    return some e
  | _ => return none

def alive (i : Nat) : Telling δ (Conversation δ) := do
  match ← conversation? i with
  | some c => if c.phase = .destroyed then throw (.destroyed c.handle) else return c
  | none => throw (.destroyed default)

def machineState (fuel : Nat) (h : Handle) : Telling δ MachineState := do
  match ← perform fuel (.state h) with
  | .state (some s) => return s
  | _ => throw (.destroyed h)

def create (fuel : Nat) (externs : Externs (Story δ)) (data : CompiledData) (config : Config) :
    Telling δ Nat := do
  if let some s := config.severity then
    let _ ← perform fuel (.setSeverity s)
  match ← perform fuel (.create data.bytes Story.dispatch) with
  | .created (.ok h) =>
    let i := (← story).conversations.length
    update fun s => { s with
      conversations := s.conversations ++ [.create h config data.externs]
      routes := (h, i) :: s.routes.filter (·.1 != h) }
    let _ ← bounded (externs.bind (World.exec fuel) h data.externs)
    update (·.emit i (.created h))
    return i
  | .created (.error e) => throw (.library e)
  | _ => throw (.rejected "create")

def startBough (fuel i : Nat) (bough : String) : Telling δ Unit := do
  let c ← alive i
  inject fuel c.handle
  bindStore fuel i c
  if !(← performFlag fuel (.start c.handle bough)) then throw (.startFailed bough)
  update fun s =>
    ((s.clearPending i).modify i fun c => { c with phase := .started }).emit i (.started bough)

def start (fuel i : Nat) : Telling δ Unit := do
  let bough := ((← conversation? i).map (·.config.bough)).getD ""
  startBough fuel i bough

def saveState (fuel i : Nat) : Telling δ Snapshot := do
  let c ← alive i
  match ← perform fuel (.save c.handle) with
  | .snapshot (some s) => return s
  | _ => throw (.rejected "save")

/-- Saves the variables of a conversation that has started and undoes what its start has set up. -/
def finish (fuel i : Nat) : Telling δ Unit := do
  match ← conversation? i with
  | none => return ()
  | some c =>
    if c.phase ≠ .started then return ()
    let saved ← saveState fuel i
    update fun s => { s with state := s.state.amend saved }.stopSpeaker i
    unbindStore fuel i c
    update fun s => (s.modify i fun c => { c with phase := .finished }).emit i .ended

def pending (i : Nat) : Telling δ Slice :=
  return ((← conversation? i).bind (·.pending)).getD .running

def finishSlice (fuel i : Nat) : Telling δ Slice := do
  finish fuel i
  return .finished

/-- Runs a conversation up to the next answer that it needs, or to its end. -/
def tick (fuel i : Nat) : Telling δ Slice := do
  let c ← alive i
  match ← machineState fuel c.handle with
  | .ready => throw (.library (.machine (.invalidState "tick" .ready)))
  | .faulted => throw (.faulted c.handle)
  | .finished => finishSlice fuel i
  | .waiting _ => pending i
  | .running =>
    update (·.clearPending i)
    let ran ← performFlag fuel (.run c.handle)
    match ← machineState fuel c.handle with
    | .faulted => throw (.faulted c.handle)
    | state =>
      if !ran then throw (.rejected "run")
      match state with
      | .waiting _ => pending i
      | .finished => finishSlice fuel i
      | _ => return .running

def continueLine (fuel i : Nat) : Telling δ Unit := do
  let c ← alive i
  if !(← performFlag fuel (.selectContinue c.handle)) then throw (.rejected "continue")
  update (·.clearPending i)

def selectChoice (fuel i index : Nat) : Telling δ Unit := do
  let c ← alive i
  if !(← performFlag fuel (.selectChoice c.handle index)) then throw (.rejected "select_choice")
  update (·.clearPending i)

def respond (fuel i : Nat) (r : Responder δ) : Slice → Telling δ Bool
  | .finished => return true
  | .running => return false
  | .line spoken => do
    update fun s => { s with host := r.line spoken s.host }
    continueLine fuel i
    return false
  | .choices cs => do
    let (index, host) := r.choose cs (← story).host
    update fun s => { s with host := host }
    tryCatch (selectChoice fuel i index) fun e =>
      match e with
      | .rejected _ => if cs.length ≤ index then return () else throw e
      | e => throw e
    return false

def playSlices (fuel i : Nat) (r : Responder δ) (maxSlices : Option Nat) :
    Nat → Nat → Telling δ Unit
  | 0, _ => bounded fun _ => none
  | rounds + 1, slices => do
    if let some most := maxSlices then
      if most ≤ slices then throw (.slicesExhausted most)
    if ← respond fuel i r (← tick fuel i) then return ()
    playSlices fuel i r maxSlices rounds (slices + 1)

/-- Plays a conversation to its end. An answer out of range is asked for again. -/
def play (fuel i : Nat) (r : Responder δ) : Telling δ Unit := do
  if let some c ← conversation? i then
    if c.phase = .created then start fuel i
    playSlices fuel i r c.config.maxSlices fuel 0

def setExtern (fuel i : Nat) (name : String) (v : Value) : Telling δ Bool := do
  let c ← alive i
  performFlag fuel (.setExtern c.handle name v)

def setFunction (fuel i : Nat) (name : String) (arity : Nat)
    (body : List Value → Reaction (Story δ)) : Telling δ Bool := do
  let c ← alive i
  performFlag fuel (.setFunction c.handle name arity body)

def subscribe (fuel i : Nat) (name : String) : Telling δ Bool := do
  let c ← alive i
  performFlag fuel (.subscribe c.handle name)

def unsubscribe (fuel i : Nat) (name : String) : Telling δ Bool := do
  let c ← alive i
  performFlag fuel (.unsubscribe c.handle name)

def value (fuel i : Nat) (name : String) : Telling δ (Option Value) := do
  let c ← alive i
  match ← perform fuel (.getValue c.handle name) with
  | .buffer (some number) =>
    let bytes := match ← perform fuel (.bufferBytes number) with
      | .bytes (some bytes) => bytes
      | _ => #[]
    let _ ← perform fuel (.release number)
    match Wire.decode bytes with
    | .ok v => return some v
    | .error e => throw (.decode e)
  | _ => return none

def loadState (fuel i : Nat) (s : Snapshot) : Telling δ Nat := do
  let c ← alive i
  match ← perform fuel (.load c.handle s) with
  | .count n => return n
  | _ => return 0

end Telling

end Dialogue
