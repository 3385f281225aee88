import Dialogue.Proofs.Story.Round
import Mathlib.Data.List.Chain

/-!
What happens in a conversation, from mark to mark: the stages of its rounds, and the words that its
events form.
-/

namespace Dialogue

variable {δ : Type}

/-- What happens in a conversation: an event is emitted, an answer is accepted, or a tick finds that
it is over. -/
inductive Mark where
  | event (e : StoryEvent)
  | answered
  | finished

namespace Mark

def event? : Mark → Option StoryEvent
  | event e => some e
  | _ => none

def asks : Mark → Bool
  | event e => e.asks
  | _ => false

/-- What is asked is answered next, and nothing else is. The end is told by a tick that finds the
conversation over, and such ticks follow on the end or on each other. -/
structure Precedes (m m' : Mark) : Prop where
  answered : m.asks = true ↔ m' = .answered
  ended : m = .event .ended → m' = .finished
  finished : m' = .finished → m = .event .ended ∨ m = .finished

theorem precedes_event {m : Mark} (hasks : m.asks = false) (hended : m ≠ .event .ended)
    (e : StoryEvent) : m.Precedes (.event e) :=
  ⟨by simp [hasks], fun heq => absurd heq hended, by simp⟩

def ofTick (news : List StoryEvent) (r : Except StoryError Slice) : List Mark :=
  news.map .event ++ if r = .ok .finished then [.finished] else []

end Mark

structure Round where
  bough : String
  body : List StoryEvent

namespace Round

def begun (r : Round) : List StoryEvent := .started r.bough :: r.body

def whole (r : Round) : List StoryEvent := r.begun ++ [.ended]

/-- Created, and rounds of lines, choices and changes, each with its end but for the last one, if that
is `last`. -/
def Spell (h : Handle) (last : Option Round) (es : List StoryEvent) : Prop :=
  ∃ rounds : List Round, (∀ r ∈ rounds ++ last.toList, ∀ e ∈ r.body, e.asks = true ∨ e.isChange = true) ∧
    es = .created h :: (rounds.flatMap whole ++ last.toList.flatMap begun)

end Round

inductive Stage where
  | fresh
  | opened
  | asked
  | closed

namespace Stage

def isOpen : Stage → Bool
  | opened | asked => true
  | _ => false

/-- What the record of a conversation is at the stage, and the state of its machine. -/
inductive Suits (b : Conversation δ) : Stage → MachineState → Prop
  | fresh (hphase : b.phase = .created) : Suits b .fresh .ready
  | opened {state : MachineState} (hphase : b.phase = .started)
    (hstate : state = .running ∨ state = .faulted) : Suits b .opened state
  | asked {kind : WaitKind} {slice : Slice} (hphase : b.phase = .started)
    (hpending : b.pending = some slice) (hslice : slice.isWaiting = true) :
    Suits b .asked (.waiting kind)
  | closed (hphase : b.phase = .finished) : Suits b .closed .finished

theorem Suits.isOpen_iff {b : Conversation δ} {stage : Stage} {state : MachineState}
    (h : Suits b stage state) : stage.isOpen = true ↔ b.phase = .started := by
  cases h with
  | fresh hphase | opened hphase | asked hphase | closed hphase => simp [isOpen, hphase]

def Ends (m : Mark) : Stage → Prop
  | .asked => m.asks = true
  | .closed => m = .finished
  | .fresh | .opened => m.asks = false ∧ m ≠ .event .ended

end Stage

namespace Round

variable {h : Handle} {r : Round} {es : List StoryEvent}

theorem Spell.begin (hes : Spell h none es) (bough : String) :
    Spell h (some ⟨bough, []⟩) (es ++ [.started bough]) := by
  obtain ⟨rounds, hbodies, rfl⟩ := hes
  refine ⟨rounds, ?_, by simp [begun]⟩
  simp only [Option.toList_some, List.forall_mem_append, List.forall_mem_singleton]
  exact ⟨by simpa using hbodies, by simp⟩

theorem Spell.go {e : StoryEvent} (hes : Spell h (some r) es)
    (he : e.asks = true ∨ e.isChange = true) :
    Spell h (some { r with body := r.body ++ [e] }) (es ++ [e]) := by
  obtain ⟨rounds, hbodies, rfl⟩ := hes
  simp only [Option.toList_some, List.forall_mem_append, List.forall_mem_singleton] at hbodies
  refine ⟨rounds, ?_, by simp [begun]⟩
  simp only [Option.toList_some, List.forall_mem_append, List.forall_mem_singleton]
  exact ⟨hbodies.1, hbodies.2, he⟩

theorem Spell.end (hes : Spell h (some r) es) : Spell h none (es ++ [.ended]) := by
  obtain ⟨rounds, hbodies, rfl⟩ := hes
  exact ⟨rounds ++ [r], by simpa using hbodies, by simp [begun, whole]⟩

end Round

inductive Told (h : Handle) : Stage → List Mark → Prop
  | created : Told h .fresh [.event (.created h)]
  | started {stage : Stage} {marks : List Mark} (hm : Told h stage marks)
    (hstage : stage = .fresh ∨ stage = .closed) (bough : String) :
    Told h .opened (marks ++ [.event (.started bough)])
  | changed {marks : List Mark} (hm : Told h .opened marks) (name : String) (v : Value) :
    Told h .opened (marks ++ [.event (.changed name v)])
  | asked {marks : List Mark} {e : StoryEvent} (hm : Told h .opened marks) (he : e.asks = true) :
    Told h .asked (marks ++ [.event e])
  | answered {marks : List Mark} (hm : Told h .asked marks) : Told h .opened (marks ++ [.answered])
  | ended {marks : List Mark} (hm : Told h .opened marks) :
    Told h .closed (marks ++ [.event .ended] ++ [.finished])
  | finished {marks : List Mark} (hm : Told h .closed marks) : Told h .closed (marks ++ [.finished])

namespace Told

variable {h : Handle} {stage : Stage} {marks : List Mark}

theorem changes (hm : Told h .opened marks) {es : List StoryEvent}
    (hes : ∀ e ∈ es, e.isChange = true) : Told h .opened (marks ++ es.map .event) := by
  induction es generalizing marks with
  | nil => simpa using hm
  | cons e es ih =>
    obtain ⟨he, hrest⟩ := List.forall_mem_cons.mp hes
    cases e with
    | changed name v => simpa using ih (hm.changed name v) hrest
    | _ => cases he

theorem spell (hm : Told h stage marks) : ∃ last : Option Round, last.isSome = stage.isOpen ∧
    Round.Spell h last (marks.filterMap Mark.event?) := by
  induction hm with
  | created => exact ⟨none, rfl, [], by simp, by simp [Mark.event?]⟩
  | started hm hstage bough ih =>
    obtain ⟨last, hlast, hes⟩ := ih
    obtain rfl : last = none := by rcases hstage with rfl | rfl <;> simpa [Stage.isOpen] using hlast
    exact ⟨_, rfl, by simpa [Mark.event?] using hes.begin bough⟩
  | changed hm name v ih =>
    obtain ⟨last, hlast, hes⟩ := ih
    obtain ⟨r, rfl⟩ := Option.isSome_iff_exists.mp hlast
    exact ⟨_, rfl, by simpa [Mark.event?] using hes.go (e := .changed name v) (.inr rfl)⟩
  | asked hm he ih =>
    obtain ⟨last, hlast, hes⟩ := ih
    obtain ⟨r, rfl⟩ := Option.isSome_iff_exists.mp hlast
    exact ⟨_, rfl, by simpa [Mark.event?] using hes.go (.inl he)⟩
  | answered hm ih => simpa [List.filterMap_cons, Mark.event?, Stage.isOpen] using ih
  | ended hm ih =>
    obtain ⟨last, hlast, hes⟩ := ih
    obtain ⟨r, rfl⟩ := Option.isSome_iff_exists.mp hlast
    exact ⟨none, rfl, by simpa [List.filterMap_cons, Mark.event?] using hes.end⟩
  | finished hm ih => simpa [List.filterMap_cons, Mark.event?] using ih

theorem isChain_concat {m m' : Mark} (hm : marks.IsChain Mark.Precedes)
    (hlast : marks.getLast? = some m) (hnext : m.Precedes m') :
    (marks ++ [m']).IsChain Mark.Precedes := by
  refine List.isChain_append.mpr ⟨hm, List.isChain_singleton m', ?_⟩
  simpa [hlast] using hnext

theorem chain (hm : Told h stage marks) :
    marks.IsChain Mark.Precedes ∧ ∃ m, marks.getLast? = some m ∧ stage.Ends m := by
  induction hm with
  | created => exact ⟨List.isChain_singleton _, _, rfl, rfl, by simp⟩
  | started hm hstage bough ih =>
    obtain ⟨hchain, m, hlast, hends⟩ := ih
    have hm : m.asks = false ∧ m ≠ .event .ended := by
      rcases hstage with rfl | rfl
      · exact hends
      · rw [show m = .finished from hends]
        exact ⟨rfl, by simp⟩
    exact ⟨isChain_concat hchain hlast (Mark.precedes_event hm.1 hm.2 _), _, List.getLast?_concat, rfl,
      by simp⟩
  | changed hm name v ih =>
    obtain ⟨hchain, m, hlast, hasks, hended⟩ := ih
    exact ⟨isChain_concat hchain hlast (Mark.precedes_event hasks hended _), _, List.getLast?_concat, rfl,
      by simp⟩
  | asked hm he ih =>
    obtain ⟨hchain, m, hlast, hasks, hended⟩ := ih
    exact ⟨isChain_concat hchain hlast (Mark.precedes_event hasks hended _), _, List.getLast?_concat, he⟩
  | answered hm ih =>
    obtain ⟨hchain, m, hlast, hasks⟩ := ih
    have hnext : m.Precedes .answered := by
      refine ⟨⟨fun _ => rfl, fun _ => hasks⟩, fun heq => ?_, by simp⟩
      rw [heq] at hasks
      cases hasks
    exact ⟨isChain_concat hchain hlast hnext, _, List.getLast?_concat, rfl, by simp⟩
  | ended hm ih =>
    obtain ⟨hchain, m, hlast, hasks, hended⟩ := ih
    have hchain := isChain_concat hchain hlast (Mark.precedes_event hasks hended .ended)
    have hnext : (Mark.event .ended).Precedes .finished :=
      ⟨by simp [Mark.asks, StoryEvent.asks], fun _ => rfl, fun _ => .inl rfl⟩
    exact ⟨isChain_concat hchain List.getLast?_concat hnext, _, List.getLast?_concat, rfl⟩
  | finished hm ih =>
    obtain ⟨hchain, m, hlast, rfl⟩ := ih
    have hnext : Mark.finished.Precedes .finished := ⟨by simp [Mark.asks], fun _ => rfl, fun _ => .inr rfl⟩
    exact ⟨isChain_concat hchain hlast hnext, _, List.getLast?_concat, rfl⟩

end Told

namespace World

variable {h : Handle} {i : Nat} {b : Conversation δ} {state : MachineState} {marks : List Mark}
  {w w' : World (Story δ)} {fuel : Nat}

structure Along (h : Handle) (i : Nat) (marks : List Mark) (b : Conversation δ)
    (state : MachineState) (w : World (Story δ)) : Prop extends Untouched h i b (some state) w where
  stage : ∃ stage, Told h stage marks ∧ stage.Suits b state

structure Ticks (h : Handle) (i : Nat) (marks : List Mark) (b : Conversation δ)
    (r : Except StoryError Slice) (news : List StoryEvent) (w' : World (Story δ)) : Prop where
  along : ∃ b' state, Along h i (marks ++ Mark.ofTick news r) b' state w' ∧
    b'.events = b.events ++ news
  ends : .ended ∈ news ↔ r = .ok .finished ∧ b.phase = .started
  holds : .ended ∈ news → ∃ m, w'.machine? h = some m ∧ w'.host.state.Holds m

end World

namespace Telling

open World

variable {h : Handle} {i : Nat} {b : Conversation δ} {state : MachineState} {marks : List Mark}
  {w w' : World (Story δ)} {fuel : Nat}

theorem not_ended_of_changes {changes : List StoryEvent} (h : ∀ e ∈ changes, e.isChange = true) :
    .ended ∉ changes := by
  intro hmem
  cases h _ hmem

theorem ticks_nothing {r : Except StoryError Slice} (hw : Along h i marks b state w)
    (hr : r ≠ .ok .finished) : Ticks h i marks b r [] w := by
  refine ⟨⟨b, state, ?_, by simp⟩, by simp [hr], by simp⟩
  simpa [Mark.ofTick, hr] using hw

theorem ticks_of_ran {r : Except StoryError Slice} {w₁ : World (Story δ)} {a : Reply}
    (hw : Untouched h i b (some .running) w) (hm : Told h .opened marks)
    (hphase : b.phase = .started) (hexec : exec fuel (.run h) w = some (a, w₁))
    (hran : Ran fuel i h a w₁ r w') : ∃ news, Ticks h i marks b r news w' := by
  obtain ⟨b₁, m, hw₁, hconcludes, hphase₁, changes, hchanges, hnews⟩ := hw.run hexec
  rw [hphase] at hphase₁
  obtain ⟨k, c, inst, hs, hbare, hstate, -⟩ := hw₁.scene
  have htold := hm.changes hchanges
  have hfound {m' : HostMachine (Story δ)} (hm' : w₁.machine? h = some m') : m'.state = m.state := by
    obtain rfl := Option.some.inj (hs.machine?.symm.trans hm')
    exact hstate
  cases hran with
  | waits hyes hm' hkind hr =>
    rw [hfound hm'] at hkind
    obtain ⟨-, e, slice, he, hevents, hpending, hslice⟩ := hnews.resolve_left
      fun hidle => by simp [Machine.isWaiting, hkind] at hidle
    have hpending' : c.pending = some slice := (congrArg (·.pending) hbare).trans hpending
    obtain ⟨rfl, rfl⟩ := (yields_pending_of_some hs.conversation hpending').mp hr
    have hwaits : (.ok slice : Except StoryError Slice) ≠ .ok .finished := by
      rintro ⟨⟩
      cases hslice
    have hended : StoryEvent.ended ∉ changes ++ [e] := by
      simp only [List.mem_append, List.mem_singleton, not_or]
      refine ⟨not_ended_of_changes hchanges, ?_⟩
      rintro rfl
      cases he
    rw [hkind] at hw₁
    refine ⟨changes ++ [e], ⟨b₁, _, ⟨hw₁, .asked, ?_, .asked hphase₁ hpending hslice⟩, ?_⟩, ?_, ?_⟩
    · simpa [Mark.ofTick, hwaits] using htold.asked he
    · rw [hevents, List.append_assoc]
    · simp [hended, hwaits]
    · exact fun h => absurd h hended
  | ends hyes hm' hfinished hr =>
    rw [hfound hm'] at hfinished
    obtain ⟨-, hevents⟩ := hnews.resolve_right
      fun hwaits => by simp [Machine.isWaiting, hfinished] at hwaits
    rcases yields_bind.mp hr with ⟨⟨⟩, w₂, hfinish, hr⟩ | ⟨e, hfinish, -⟩
    · obtain ⟨rfl, rfl⟩ := yields_pure.mp hr
      obtain ⟨-, hw₂, hholds⟩ := untouched_finish hw₁ hphase₁ hfinish
      rw [hfinished] at hw₂
      refine ⟨changes ++ [.ended], ⟨_, _, ⟨hw₂, .closed, ?_, .closed rfl⟩, ?_⟩, ?_, fun _ => hholds⟩
      · simpa [Mark.ofTick] using htold.ended
      · simp [hevents]
      · simp [hphase]
    · cases (untouched_finish hw₁ hphase₁ hfinish).1
  | goesOn hyes hm' hgoing hr hsame =>
    rw [hfound hm'] at hgoing
    obtain ⟨-, hends⟩ := hconcludes.ends.resolve_right (by simp [hyes])
    rcases hgoing with hgoing | hgoing <;> simp [Machine.isWaiting, hgoing] at hends
  | fails hm' hcause hr hsame =>
    rw [hfound hm'] at hcause
    have hfaulted : m.state = .faulted :=
      hcause.elim id fun hno => (hconcludes.ends.resolve_left (by simp [hno])).2
    obtain ⟨-, hevents⟩ := hnews.resolve_right
      fun hwaits => by simp [Machine.isWaiting, hfaulted] at hwaits
    subst hr hsame
    refine ⟨changes, ⟨b₁, _, ⟨hw₁, .opened, ?_, .opened hphase₁ (.inr hfaulted)⟩, hevents⟩, ?_, ?_⟩
    · simpa [Mark.ofTick] using htold
    · simp [not_ended_of_changes hchanges]
    · exact fun h => absurd h (not_ended_of_changes hchanges)
  | lost hm' =>
    rw [hs.machine?] at hm'
    cases hm'

theorem ticks {r : Except StoryError Slice} (hw : Along h i marks b state w)
    (hr : (tick fuel i).Yields w r w') : ∃ news, Ticks h i marks b r news w' := by
  obtain ⟨k, c, inst, hs, hbare, hstate, -⟩ := hw.scene
  obtain ⟨stage, htold, hsuits⟩ := hw.stage
  have hphase : c.phase = b.phase := congrArg (·.phase) hbare
  have hfound {m : HostMachine (Story δ)} (hm : w.machine? c.handle = some m) : m.state = state := by
    rw [hs.handle] at hm
    obtain rfl := Option.some.inj (hs.machine?.symm.trans hm)
    exact hstate
  have hlive : c.phase ≠ .destroyed := by
    rw [hphase]
    cases hsuits with
    | fresh hphase | opened hphase | asked hphase | closed hphase => simp [hphase]
  cases tick_cases hw.rest hs.conversation hlive hr with
  | refused hm _ hr hsame =>
    subst hr hsame
    exact ⟨[], ticks_nothing hw (by simp)⟩
  | ended hm hfinished hr =>
    rw [hfound hm] at hfinished
    subst hfinished
    cases hsuits with
    | opened _ hstate => simp at hstate
    | closed hover =>
      have hfinish : (finish fuel i).Yields w (.ok ()) w :=
        (yields_finish_of_ne_started hs.conversation (by simp [hphase, hover])).mpr ⟨rfl, rfl⟩
      unfold finishSlice at hr
      rw [yields_bind_of_ok hfinish] at hr
      obtain ⟨rfl, rfl⟩ := yields_pure.mp hr
      refine ⟨[], ⟨b, _, ⟨hw.toUntouched, .closed, ?_, .closed hover⟩, by simp⟩, ?_, by simp⟩
      · simpa [Mark.ofTick] using htold.finished
      · simp [hover]
  | waiting hm hkind hr =>
    rw [hfound hm] at hkind
    subst hkind
    cases hsuits with
    | opened _ hstate => simp at hstate
    | @asked kind slice _ hpending hslice =>
      have hpending' : c.pending = some slice := (congrArg (·.pending) hbare).trans hpending
      obtain ⟨rfl, rfl⟩ := (yields_pending_of_some hs.conversation hpending').mp hr
      refine ⟨[], ticks_nothing hw ?_⟩
      rintro ⟨⟩
      cases hslice
  | ran hm hrunning hexec hran =>
    rw [hfound hm] at hrunning
    subst hrunning
    rw [hs.handle] at hexec hran
    cases hsuits with
    | opened hstarted _ =>
      have hcleared := hw.toUntouched.modify (f := fun c => { c with pending := none })
        (fun _ => rfl) fun _ => rfl
      obtain ⟨news, halong, hends, hholds⟩ := ticks_of_ran hcleared htold hstarted hexec hran
      exact ⟨news, halong, hends, hholds⟩
  | lost hm =>
    rw [hs.handle, hs.machine?] at hm
    cases hm

end Telling

end Dialogue
