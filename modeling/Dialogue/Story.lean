import Dialogue.Host.Reaction
import Dialogue.Machine
import Dialogue.Story.Config
import Dialogue.Story.Store

/-!
The host's side of conversations: who speaks, what waits for an answer, what has happened, and which
variables are shared. Machines reach it through `Story.dispatch`.
-/

namespace Dialogue

/-- A speaker acts on the state `δ` of the host, and on that only: it performs no operations, leaves
the registry of speakers alone and does not panic. -/
structure Speaker (δ : Type) where
  name : String
  start : Line → δ → δ
  stop : δ → δ

def Speaker.named {δ : Type} (name : String) : Speaker δ := ⟨name, fun _ s => s, id⟩

abbrev Speakers (δ : Type) := Table (Speaker δ)

namespace Speakers

variable {δ : Type}

def displayName (ss : Speakers δ) (id : String) : String :=
  match ss.get? id with
  | some s => s.name
  | none => id

def diagnostic (ss : Speakers δ) : String :=
  "SpeakerRegistry \x7b speakers: " ++ toString ss.size ++ " \x7d"

end Speakers

structure SpokenLine where
  speakerName : String
  line : Line
deriving DecidableEq, Inhabited

inductive Slice where
  | running
  | line (spoken : SpokenLine)
  | choices (choices : List Choice)
  | finished
deriving DecidableEq, Inhabited

def Slice.isWaiting : Slice → Bool
  | line _ | choices _ => true
  | _ => false

inductive StoryEvent where
  | created (h : Handle)
  | started (bough : String)
  | line (spoken : SpokenLine)
  | choices (choices : List Choice)
  | changed (name : String) (value : Value)
  | ended
deriving Inhabited

inductive Phase where
  | created
  | started
  | finished
  | destroyed
deriving DecidableEq, Inhabited

def Phase.name : Phase → String
  | created => "Created"
  | started => "Started"
  | finished => "Finished"
  | destroyed => "Destroyed"

structure Conversation (δ : Type) where
  handle : Handle
  config : Config
  externs : List String
  phase : Phase
  speaker : Option (Speaker δ)
  pending : Option Slice
  events : List StoryEvent
  /-- Shared variables that are bound, with the ids of the watches. -/
  bindings : List (String × Nat)

/-- Conversations share the speakers, the saved state and the variable store, whose watchers are the
machines that the changes go to. The host keeps a state `δ` besides. -/
structure Story (δ : Type) where
  conversations : List (Conversation δ)
  routes : List (Handle × Nat)
  speakers : Speakers δ
  store : Option (VariableStore Handle)
  state : Snapshot
  host : δ

namespace Conversation

variable {δ : Type}

def create (h : Handle) (config : Config) (externs : List String) : Conversation δ :=
  ⟨h, config, externs, .created, none, none, [], []⟩

def emit (c : Conversation δ) (e : StoryEvent) : Conversation δ :=
  { c with events := c.events ++ [e] }

def boundNames (c : Conversation δ) : List String := c.bindings.map (·.1)

def isBound (c : Conversation δ) (name : String) : Bool := c.bindings.any (·.1 == name)

def diagnostic (c : Conversation δ) : String :=
  "Conversation \x7b handle: VmHandle \x7b index: " ++ toString c.handle.index.toNat ++
    ", generation: " ++ toString c.handle.generation.toNat ++ " \x7d, bough: " ++
    Text.quote c.config.bough ++ ", phase: " ++ c.phase.name ++ " \x7d"

end Conversation

namespace Story

variable {δ : Type}

def create (host : δ) : Story δ := ⟨[], [], .empty, none, .empty, host⟩

def route? (s : Story δ) (h : Handle) : Option Nat :=
  (s.routes.find? (·.1 == h)).map (·.2)

def modify (s : Story δ) (i : Nat) (f : Conversation δ → Conversation δ) : Story δ :=
  { s with conversations := s.conversations.modify i f }

def emit (s : Story δ) (i : Nat) (e : StoryEvent) : Story δ := s.modify i (·.emit e)

def clearPending (s : Story δ) (i : Nat) : Story δ := s.modify i fun c => { c with pending := none }

def stopSpeaker (s : Story δ) (i : Nat) : Story δ :=
  match (s.conversations[i]?).bind (·.speaker) with
  | some speaker =>
    { s with host := speaker.stop s.host }.modify i fun c => { c with speaker := none }
  | none => s

/-- A line goes to its speaker, after the one before has stopped, and waits to be continued. -/
def speak (s : Story δ) (i : Nat) (l : Line) : Story δ :=
  let s := s.stopSpeaker i
  let speaker := s.speakers.get? l.speaker
  let spoken : SpokenLine := ⟨s.speakers.displayName l.speaker, l⟩
  let host := match speaker with
    | some speaker => speaker.start l s.host
    | none => s.host
  { s with host := host }.modify i fun c =>
    { c with speaker := speaker, pending := some (.line spoken) }.emit (.line spoken)

def offer (s : Story δ) (i : Nat) (cs : List Choice) : Story δ :=
  s.modify i fun c => { c with pending := some (.choices cs) }.emit (.choices cs)

/-- Writes a shared variable. With the new store come the machines that have to be told. -/
def share (s : Story δ) (name : String) (v : Value) :
    Except ValueError (Option (VariableStore Handle × List Handle)) :=
  match s.store with
  | none => .ok none
  | some store =>
    (store.set name v).map fun r => r.map fun (store, told) => (store, told.map (·.watcher))

def tell (name : String) (v : Value) (told : List Handle) (last : Reaction (Story δ)) :
    Reaction (Story δ) :=
  .sequence (told.map fun h => .setExtern h name v) last

/-- A change by the script goes to the shared variable, if it is bound, and then to the events. -/
def changed (s : Story δ) (i : Nat) (name : String) (v : Value) : Reaction (Story δ) :=
  let last := .update (·.emit i (.changed name v)) (.done .nil)
  if (s.conversations[i]?).any (·.isBound name) then
    match s.share name v with
    | .ok (some (store, told)) =>
      .update (fun s => { s with store := some store }) (tell name v told last)
    | _ => last
  else last

def eventKind : Event → String
  | .line _ => "line"
  | .choices _ => "choices"
  | .changed .. => "value change"

/-- The callbacks of all machines: an event goes to the conversation of its machine. -/
def dispatch (h : Handle) (e : Event) : Reaction (Story δ) :=
  .inspect fun s =>
    match s.route? h with
    | none =>
      .call (.report .error ("No session for " ++ h.text ++ ", dropping " ++ eventKind e))
        fun _ => .done .nil
    | some i =>
      match e with
      | .line l => .update (·.speak i l) (.done .nil)
      | .choices cs => .update (·.offer i cs) (.done .nil)
      | .changed name v => s.changed i name v

end Story

end Dialogue
