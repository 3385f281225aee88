import Dialogue.Proofs.Story.Stage
import Dialogue.Proofs.Story.Start

namespace Dialogue

open World (Hosts)

variable {δ ν : Type} {view : δ → ν} {w w' v v' : World (Story δ)} {i j : Nat}
  {c c' d : Conversation δ} {m m' m₁ : HostMachine (Story δ)}

namespace Telling

variable {β : Type} {r : Except StoryError β}

theorem yields_machineState_bind (hw : Hosts view w i c m) {h : Handle} (hh : c.handle = h)
    {fuel : Nat} {f : MachineState → Telling δ β} :
    (machineState (fuel + 1) h >>= f).Yields w r w' ↔ (f m.state).Yields w r w' := by
  subst hh
  apply yields_bind_of_ok
  unfold machineState
  exact yields_perform_bind.mpr ⟨_, w, hw.state fuel, yields_pure.mpr ⟨rfl, rfl⟩⟩

theorem finish_yields (hw : Hosts view w i c m) (hphase : c.phase = .started) (fuel : Nat) :
    ∃ w' c', (finish (fuel + 2) i).Yields w (.ok ()) w' ∧
      Hosts view w' i c' { m.save.2 with diagnostics := [] } ∧ c'.phase = .finished ∧
      c'.said = c.said ∧ c'.handle = c.handle ∧ c'.config = c.config ∧
      w'.host.state = w.host.state.amend m.save.1 ∧ w'.host.speakers = w.host.speakers ∧
      view w'.host.host = view w.host.host := by
  obtain ⟨w₁, hexec, hw₁, hturns₁⟩ := hw.change (.save c.handle) rfl rfl fuel
  have hsave : (saveState (fuel + 2) i).Yields w (.ok m.save.1) w₁ := by
    unfold saveState
    rw [yields_alive_bind hw.conversation (by simp [hphase]), yields_perform_bind]
    exact ⟨_, w₁, hexec, yields_pure.mpr ⟨rfl, rfl⟩⟩
  let s₂ : Story δ := { w₁.host with state := w₁.host.state.amend m.save.1 }.stopSpeaker i
  have hstop : Story.Turns view i c { c with speaker := none }
      { w₁.host with state := w₁.host.state.amend m.save.1 } s₂ :=
    Story.turns_stopSpeaker hw₁.conversation ⟨hw₁.quiet.speakers, hw₁.quiet.speaking⟩
  let s₃ : Story δ := s₂.modify i fun c => { c with bindings := [] }
  let s₄ : Story δ := (s₃.modify i fun c => { c with phase := .finished }).emit i .ended
  let c' : Conversation δ :=
    { c with speaker := none, bindings := [], phase := .finished, events := c.events ++ [.ended] }
  have hc' : s₄.conversations[i]? = some c' := by
    simp [s₄, s₃, Story.emit, Story.modify, hstop.conversation, Conversation.emit, c']
  have hunbind : (unbindStore (fuel + 2) i c).Yields { w₁ with host := s₂ } (.ok ())
      { w₁ with host := s₃ } := by
    unfold unbindStore
    rw [yields_conversation?_bind]
    simp only [yields_update_bind, yields_story_bind]
    have hstore : (s₂.modify i fun c => { c with bindings := [] }).store.isSome = false := by
      have hnone : s₂.store = none := hstop.store.trans hw₁.store
      simp [Story.modify, hnone]
    rw [if_neg (by simp [hstore])]
    exact yields_pure.mpr ⟨rfl, rfl⟩
  refine ⟨{ w₁ with host := s₄ }, c', ?_, ?_, rfl, ?_, rfl, rfl, ?_, ?_, ?_⟩
  · unfold finish
    rw [yields_conversation?_bind, hw.conversation]
    simp only [hphase, ne_eq, not_true_eq_false, if_false]
    rw [yields_bind_of_ok hsave, yields_update_bind, yields_bind_of_ok hunbind]
    exact yields_update.mpr ⟨rfl, rfl⟩
  · refine hw₁.restage hc' rfl hstop.routes hstop.store
      ⟨fun id speaker hspeaker => ?_, fun _ h => by cases h⟩
    exact hw₁.quiet.speakers id speaker (hstop.speakers ▸ hspeaker)
  · simp [Conversation.said, c', StoryEvent.line?]
  · exact hstop.state.trans (congrArg (·.amend m.save.1) hturns₁.state)
  · exact hstop.speakers.trans hturns₁.speakers
  · exact hstop.view.trans hturns₁.view

end Telling

def Machine.prompt {φ : Type} (m : Machine φ) : Prompt :=
  match m.state with
  | .waiting .continuation => .line
  | .waiting .choice => .choices m.pending.length
  | _ => .running

theorem Machine.waiting_of_prompt {φ : Type} {m : Machine φ} {count : Nat}
    (h : m.prompt = .choices count) : m.state = .waiting .choice := by
  unfold Machine.prompt at h
  split at h
  · cases h
  · assumption
  · cases h

theorem Machine.Parallel.prompt {φ : Type} {m m' : Machine φ} (hp : m.Parallel m') :
    m'.prompt = m.prompt := by
  have hstate : m'.state = m.state := congrArg Control.state hp.control
  have htargets := congrArg (fun x => x.targets.length) hp.control
  simp only [Machine.control, List.length_map] at htargets
  rw [Machine.prompt, hstate, htargets, Machine.prompt]

theorem Machine.Announced.score {φ : Type} {m : Machine φ} (h : m.Announced)
    (speakers : Speakers δ) : ∃ lines, ∀ said,
      m.cues.foldl (Cue.follow speakers) (.running, said) = (m.prompt, said ++ lines) := by
  rw [Machine.Announced] at h
  rw [Machine.prompt]
  cases hstate : m.state with
  | waiting kind =>
    rw [hstate] at h
    cases kind with
    | continuation =>
      obtain ⟨l, hcues⟩ := h
      rw [hcues]
      exact ⟨[⟨speakers.displayName l.speaker, l⟩], fun said => rfl⟩
    | choice =>
      have hcues : m.cues = [.choices m.pending.length] := h
      rw [hcues]
      exact ⟨[], fun said => by simp [Cue.follow]⟩
  | ready | running | finished | faulted =>
    rw [hstate] at h
    have hcues : m.cues = [] := h
    rw [hcues]
    exact ⟨[], fun said => by simp⟩

def Story.Ended (s : Story δ) (i : Nat) (lines : List SpokenLine) : Prop :=
  ∃ c, s.conversations[i]? = some c ∧ c.phase = .finished ∧ c.said = lines

structure Playing (view : δ → ν) (w : World (Story δ)) (i : Nat) (c : Conversation δ)
    (m : HostMachine (Story δ)) (said : List SpokenLine) : Prop where
  hosts : Hosts view w i c m
  started : c.phase = .started
  prompt : c.prompt = m.prompt
  said : c.said = said

/-- Two plays of the same script: their conversations, the machine with which the first began, the
answers that both get, the speakers, and what had been said before. -/
structure Replay (δ : Type) where
  view : δ → List Nat
  entry : Nat
  answers : List Nat
  speakers : Speakers δ
  config : Config
  first : Nat
  second : Nat
  origin : HostMachine (Story δ)
  before : List SpokenLine
  before' : List SpokenLine
  replays : origin.container.Replays entry answers

namespace Replay

structure Tandem (R : Replay δ) (w v : World (Story δ)) (c d : Conversation δ)
    (m m' : HostMachine (Story δ)) (lines : List SpokenLine) : Prop where
  first : Playing R.view w R.first c m (R.before ++ lines)
  second : Playing R.view v R.second d m' (R.before' ++ lines)
  parallel : m.Parallel m'
  constants : R.origin.SameConstants m
  container : m.container = R.origin.container
  route : m.OnRoute R.entry R.answers (R.view w.host.host)
  answers : R.view v.host.host = R.view w.host.host
  speakers : w.host.speakers = R.speakers ∧ v.host.speakers = R.speakers
  config : c.config = R.config

structure Over (R : Replay δ) (w v : World (Story δ)) : Prop where
  first : ∃ c m, Hosts R.view w R.first c m ∧ c.phase = .finished ∧ m.state = .finished ∧
    m.container = R.origin.container ∧ R.origin.SameConstants m ∧ c.config = R.config ∧
      ∀ g ∈ R.origin.globals, g.symbol.isMutable = false →
        g.slot = .value .nil → w.host.state.get? g.symbol.name = some .null
  speakers : w.host.speakers = R.speakers
  ended : ∃ lines, w.host.Ended R.first (R.before ++ lines) ∧
    v.host.Ended R.second (R.before' ++ lines)

end Replay

theorem prompt_running {φ : Type} {m : Machine φ} (hstate : m.state = .running) :
    m.prompt = .running := by
  rw [Machine.prompt, hstate]

theorem Playing.clearPending {said : List SpokenLine} (hw : Hosts view w i c m)
    (hstarted : c.phase = .started) (hprompt : m.prompt = .running) (hsaid : c.said = said) :
    Playing view { w with host := w.host.clearPending i } i { c with pending := none } m said := by
  have hturns : Story.Turns view i c { c with pending := none } w.host (w.host.clearPending i) :=
    Story.turns_modify (f := fun c => { c with pending := none }) hw.conversation rfl
  refine ⟨hw.restage hturns.conversation rfl rfl rfl ⟨hw.quiet.speakers, hw.quiet.speaking⟩,
    hstarted, ?_, hsaid⟩
  rw [hprompt]
  rfl

theorem Playing.heard {said lines : List SpokenLine} (hp : Playing view w i c m said)
    (hrunning : m.state = .running) (hw' : Hosts view w' i c' (World.cleared m₁))
    (hturns : Story.Turns view i c c' w.host w'.host)
    (hscore : c'.score = m₁.cues.foldl (Cue.follow w.host.speakers) c.score)
    (hlines : ∀ said, m₁.cues.foldl (Cue.follow w.host.speakers) (.running, said) =
      (m₁.prompt, said ++ lines)) : Playing view w' i c' (World.cleared m₁) (said ++ lines) := by
  have hbefore : c.score = (.running, said) := by
    rw [Conversation.score, hp.prompt, hp.said, prompt_running hrunning]
  rw [hbefore, hlines, Conversation.score, Prod.mk.injEq] at hscore
  have hphase : c'.phase = c.phase := congrArg (·.2.2.2) hturns.post
  exact ⟨hw', hphase.trans hp.started, hscore.1, hscore.2⟩

namespace Replay

variable {R : Replay δ} {w w' w₀ v v' v₀ : World (Story δ)} {fuel fuel' : Nat}
  {lines : List SpokenLine}

theorem Tandem.proceed {m₁' : HostMachine (Story δ)} (ht : R.Tandem w v c d m m' lines)
    (hw : Hosts R.view w' R.first c m₁) (hv : Hosts R.view v' R.second d m₁')
    (hparallel : m₁.Parallel m₁') (hsame : m.SameConstants m₁)
    (hcontainer : m₁.container = m.container)
    (hroute : m₁.OnRoute R.entry R.answers (R.view w'.host.host))
    (hview : R.view v'.host.host = R.view w'.host.host)
    (hspeakers : w'.host.speakers = R.speakers ∧ v'.host.speakers = R.speakers)
    (hprompt : m₁.prompt = .running) :
    R.Tandem { w' with host := w'.host.clearPending R.first }
      { v' with host := v'.host.clearPending R.second } { c with pending := none }
      { d with pending := none } m₁ m₁' lines where
  first := .clearPending hw ht.first.started hprompt ht.first.said
  second := .clearPending hv ht.second.started (hparallel.prompt.trans hprompt) ht.second.said
  parallel := hparallel
  constants := ht.constants.trans hsame
  container := hcontainer.trans ht.container
  route := hroute
  answers := hview
  speakers := hspeakers
  config := ht.config

theorem Tandem.run (ht : R.Tandem w v c d m m' lines) (hstate : m.state = .running) {r : Reply}
    (hexec : World.exec fuel (.run c.handle) w = some (r, w')) (hyes : r.isYes = true)
    (hle : fuel + 2 ≤ fuel') : ∃ v' c' d' m₁ m₁' lines',
      World.exec fuel' (.run d.handle) v = some (.flag true, v') ∧ c'.handle = c.handle ∧
      d'.handle = d.handle ∧ R.Tandem w' v' c' d' m₁ m₁' lines' ∧ m₁.state ≠ .running := by
  have hm := ht.first.hosts.isParsed
  have hm' := ht.second.hosts.isParsed
  have hannounced : m.Announced := by
    rw [Machine.announced_running hstate, Machine.cues, ht.first.hosts.idle.1]
    rfl
  have hpar {n : Nat} {m₁ : HostMachine (Story δ)} {s s₁ : World (Story δ)}
      (h : m.run (World.apply n) n s = some (.paused, m₁, s₁)) :=
    ht.parallel.run hm hm' hstate ht.route hannounced (ht.container ▸ R.replays) h
  obtain ⟨n, m₁, c', rfl, ⟨s, hrun⟩, hw', hturns, hscore⟩ :=
    ht.first.hosts.run_paused hexec hyes fun n m₁ s s₁ h => (hpar h).1
  obtain ⟨-, hsame, hrest, ⟨hroute, hannounced₁⟩, m₁', hp₁, hfollow⟩ := hpar hrun
  obtain ⟨k, rfl⟩ : ∃ k, fuel' = k + 3 := ⟨fuel' - 3, by omega⟩
  obtain ⟨v', d', hexec', hv', hturns', hscore'⟩ :=
    ht.second.hosts.run (hfollow (World.apply (k + 2)) (k + 2) (by omega))
  obtain ⟨added, hadded⟩ := hannounced₁.score w.host.speakers
  have hstate' : m'.state = .running := (congrArg Control.state ht.parallel.control).trans hstate
  have hadded' (said : List SpokenLine) :
      m₁'.cues.foldl (Cue.follow v.host.speakers) (.running, said) = (m₁'.prompt, said ++ added) := by
    rw [hp₁.cues, ht.speakers.2, ← ht.speakers.1, hadded, hp₁.prompt]
  have hfirst := ht.first.heard hstate hw' hturns hscore hadded
  have hsecond := ht.second.heard hstate' hv' hturns' hscore' hadded'
  rw [List.append_assoc] at hfirst hsecond
  have hcontainer : m₁.container = m.container := (Machine.progress_run hrun).container
  refine ⟨v', c', d', World.cleared m₁, World.cleared m₁', lines ++ added, hexec',
    congrArg (·.1) hturns.post, congrArg (·.1) hturns'.post,
    ⟨hfirst, hsecond, ?_, ?_, ?_, ?_, ?_, ?_, ?_⟩, hrest⟩
  · exact ⟨hp₁.control, rfl, hp₁.unset⟩
  · exact ht.constants.trans hsame
  · exact hcontainer.trans ht.container
  · rw [hturns.view]
    exact hroute
  · rw [hturns.view, hturns'.view]
    exact ht.answers
  · rw [hturns.speakers, hturns'.speakers]
    exact ht.speakers
  · have hconfig : c'.config = c.config := congrArg (·.2.1) hturns.post
    exact hconfig.trans ht.config

open Telling (yields_pure yields_throw yields_bind_ok yields_bind_of_ok yields_update_bind yields_update
  yields_story_bind yields_conversation?_bind yields_perform_bind yields_performFlag_bind yields_guard
  yields_alive_bind yields_machineState_bind yields_tryCatch yields_throw_bind finish_yields)

theorem Tandem.finish {n : Nat} (ht : R.Tandem w v c d m m' lines) (hstate : m.state = .finished)
    (h : (Telling.finish (n + 2) R.first).Yields w (.ok ()) w') (k : Nat) :
    ∃ v', (Telling.finish (k + 2) R.second).Yields v (.ok ()) v' ∧ R.Over w' v' := by
  obtain ⟨w₁, c', hfinish, hw', hphase, hsaid, -, hconfig, hsaved, hspeakers, -⟩ :=
    finish_yields ht.first.hosts ht.first.started n
  obtain ⟨-, rfl⟩ := hfinish.unique h
  obtain ⟨v', d', hfinish', hv', hphase', hsaid', -⟩ :=
    finish_yields ht.second.hosts ht.second.started k
  refine ⟨v', hfinish', ⟨c', _, hw', hphase, hstate, ht.container, ht.constants,
    hconfig.trans ht.config, fun g hg hconstant hslot => ?_⟩,
    hspeakers.trans ht.speakers.1, lines, ⟨c', hw'.conversation, hphase, hsaid.trans ht.first.said⟩,
    ⟨d', hv'.conversation, hphase', hsaid'.trans ht.second.said⟩⟩
  rw [hsaved]
  apply Table.get?_merge
  exact ht.first.hosts.isParsed.save_nil ((ht.constants g hconstant).mpr hg) hslot

def Stops (R : Replay δ) (w v : World (Story δ)) (slice slice' : Slice) : Prop :=
  (∃ c d m m' lines, R.Tandem w v c d m m' lines ∧ m.state ≠ .running ∧
    slice.prompt = m.prompt ∧ slice'.prompt = m.prompt) ∨
      slice = .finished ∧ slice' = .finished ∧ R.Over w v

theorem Tandem.pending {slice : Slice} (ht : R.Tandem w v c d m m' lines)
    (hstate : m.state ≠ .running) (h : (Telling.pending R.first).Yields w (.ok slice) w') :
    ∃ slice' v', (Telling.pending R.second).Yields v (.ok slice') v' ∧
      R.Stops w' v' slice slice' := by
  unfold Telling.pending at h ⊢
  rw [yields_conversation?_bind, ht.first.hosts.conversation] at h
  obtain ⟨hslice, rfl⟩ := yields_pure.mp h
  cases hslice
  refine ⟨_, v, ?_, .inl ⟨c, d, m, m', lines, ht, hstate, ht.first.prompt,
    ht.second.prompt.trans ht.parallel.prompt⟩⟩
  rw [yields_conversation?_bind, ht.second.hosts.conversation]
  exact yields_pure.mpr ⟨rfl, rfl⟩

theorem Tandem.finishSlice {n : Nat} {slice : Slice} (ht : R.Tandem w v c d m m' lines)
    (hstate : m.state = .finished)
    (h : (Telling.finishSlice (n + 2) R.first).Yields w (.ok slice) w') (k : Nat) :
    ∃ slice' v', (Telling.finishSlice (k + 2) R.second).Yields v (.ok slice') v' ∧
      R.Stops w' v' slice slice' := by
  unfold Telling.finishSlice at h ⊢
  obtain ⟨u, w₁, hfinish, h⟩ := yields_bind_ok.mp h
  obtain ⟨hslice, rfl⟩ := yields_pure.mp h
  cases hslice
  obtain ⟨v', hfinish', hover⟩ := ht.finish hstate hfinish k
  refine ⟨.finished, v', ?_, .inr ⟨rfl, rfl, hover⟩⟩
  rw [yields_bind_of_ok hfinish']
  exact yields_pure.mpr ⟨rfl, rfl⟩

theorem Tandem.tick {n k : Nat} (ht : R.Tandem w v c d m m' lines) {slice : Slice}
    (h : (Telling.tick (n + 2) R.first).Yields w (.ok slice) w') (hle : n + 2 ≤ k) :
    ∃ slice' v', (Telling.tick (k + 2) R.second).Yields v (.ok slice') v' ∧
      R.Stops w' v' slice slice' := by
  have hw := ht.first.hosts
  have hv := ht.second.hosts
  have hstate' : m'.state = m.state := congrArg Control.state ht.parallel.control
  unfold Telling.tick at h ⊢
  simp only [yields_alive_bind hw.conversation (by simp [ht.first.started]),
    yields_machineState_bind hw rfl] at h
  simp only [yields_alive_bind hv.conversation (by simp [ht.second.started]),
    yields_machineState_bind hv rfl, hstate']
  cases hstate : m.state with
  | ready | faulted =>
    rw [hstate] at h
    cases (yields_throw.mp h).1
  | finished =>
    rw [hstate] at h
    exact ht.finishSlice hstate h k
  | waiting kind =>
    rw [hstate] at h
    exact ht.pending (by simp [hstate]) h
  | running =>
    rw [hstate] at h
    simp only [yields_update_bind, yields_performFlag_bind] at h ⊢
    obtain ⟨r, w₁, hexec, h⟩ := h
    cases hyes : r.isYes with
    | false =>
      -- What did not run is rejected, unless it has faulted.
      rw [hyes] at h
      obtain ⟨state, w₂, -, h⟩ := yields_bind_ok.mp h
      cases state with
      | faulted => cases (yields_throw.mp h).1
      | ready | running | waiting | finished => cases (yields_throw_bind.mp h).1
    | true =>
      have hcleared := ht.proceed hw hv ht.parallel (.of_globals rfl) rfl ht.route ht.answers
        ht.speakers (prompt_running hstate)
      obtain ⟨v₁, c₁, d₁, m₁, m₁', lines₁, hexec', hc₁, hd₁, ht₁, hrest⟩ :=
        hcleared.run hstate hexec hyes (Nat.add_le_add_right hle 2)
      have hstate₁' : m₁'.state = m₁.state := congrArg Control.state ht₁.parallel.control
      rw [hyes, yields_machineState_bind ht₁.first.hosts hc₁] at h
      cases hstopped : m₁.state with
      | faulted =>
        rw [hstopped] at h
        cases (yields_throw.mp h).1
      | finished =>
        rw [hstopped] at h
        obtain ⟨slice', v', hfinish, hstops⟩ := ht₁.finishSlice hstopped h k
        refine ⟨slice', v', ⟨_, v₁, hexec', ?_⟩, hstops⟩
        rw [yields_machineState_bind ht₁.second.hosts hd₁, hstate₁', hstopped]
        exact hfinish
      | waiting kind =>
        rw [hstopped] at h
        obtain ⟨slice', v', hpending, hstops⟩ := ht₁.pending (by simp [hstopped]) h
        refine ⟨slice', v', ⟨_, v₁, hexec', ?_⟩, hstops⟩
        rw [yields_machineState_bind ht₁.second.hosts hd₁, hstate₁', hstopped]
        exact hpending
      | ready =>
        rw [hstopped] at h
        obtain ⟨hslice, rfl⟩ := yields_pure.mp h
        cases hslice
        have hprompt : m₁.prompt = .running := by rw [Machine.prompt, hstopped]
        refine ⟨.running, v₁, ⟨_, v₁, hexec', ?_⟩, .inl ⟨c₁, d₁, m₁, m₁', lines₁, ht₁, hrest,
          hprompt.symm, hprompt.symm⟩⟩
        rw [yields_machineState_bind ht₁.second.hosts hd₁, hstate₁', hstopped]
        exact yields_pure.mpr ⟨rfl, rfl⟩
      | running => exact absurd hstopped hrest

structure Paired (R : Replay δ) (w v : World (Story δ)) (c d : Conversation δ)
    (m m' : HostMachine (Story δ)) : Prop where
  first : Hosts R.view w R.first c m
  second : Hosts R.view v R.second d m'
  answers : R.view v.host.host = R.view w.host.host
  speakers : w.host.speakers = R.speakers ∧ v.host.speakers = R.speakers

theorem Tandem.paired (ht : R.Tandem w v c d m m' lines) : R.Paired w v c d m m' :=
  ⟨ht.first.hosts, ht.second.hosts, ht.answers, ht.speakers⟩

theorem Paired.own (hp : R.Paired w v c d m m') {x y : δ} (hview : R.view y = R.view x) :
    R.Paired { w with host := { w.host with host := x } }
      { v with host := { v.host with host := y } } c d m m' :=
  ⟨hp.first.own x, hp.second.own y, hview, hp.speakers⟩

abbrev answer (fuel i : Nat) (op : Handle → Operation (Story δ)) (e : StoryError) :
    Telling δ Unit := do
  let c ← Telling.alive i
  if !(← Telling.performFlag fuel (op c.handle)) then throw e
  Telling.update (·.clearPending i)

theorem Tandem.answer {n : Nat} (op : Handle → Operation (Story δ)) {e : StoryError}
    {f : HostMachine (Story δ) → Except MachineError (HostMachine (Story δ))}
    {r : Except StoryError Unit} (ht : R.Tandem w v c d m m' lines)
    (hp : R.Paired w₀ v₀ c d m m')
    (hop : ∀ h, (op h).change? = some ⟨h, .flag false, fun m => (f m).map (.flag true, ·)⟩)
    (hok : ∀ m₁, f m = .ok m₁ →
      Machine.Resumes R.entry R.answers (R.view w₀.host.host) m m₁ ∧
        ∃ m₁', f m' = .ok m₁' ∧ m₁.Parallel m₁')
    (herror : ∀ cause, f m = .error cause → ∃ cause', f m' = .error cause')
    (h : (Replay.answer (n + 2) R.first op e).Yields w₀ r w') (k : Nat) :
    ∃ v' c' d' m₁ m₁', (Replay.answer (k + 2) R.second op e).Yields v₀ r v' ∧
      R.Paired w' v' c' d' m₁ m₁' ∧ R.view w'.host.host = R.view w₀.host.host ∧
      ((r = .ok () ∧ R.Tandem w' v' c' d' m₁ m₁' lines) ∨
        (r = .error e ∧ (∃ cause, f m = .error cause) ∧ c' = c ∧ d' = d ∧ m₁ = m ∧ m₁' = m')) := by
  unfold Replay.answer at h ⊢
  rw [yields_alive_bind hp.first.conversation (by simp [ht.first.started]), yields_guard] at h
  simp only [yields_alive_bind hp.second.conversation (by simp [ht.second.started]), yields_guard]
  obtain ⟨a, w₁, hexec, h⟩ := h
  obtain ⟨b, w₂, m₁, hexec', hw₁, hturns, hdone⟩ := hp.first.attempt (hop c.handle) n
  cases hexec.symm.trans hexec'
  obtain ⟨b', v₁, m₁', hfollow, hv₁, hturns', hdone'⟩ := hp.second.attempt (hop d.handle) k
  have hanswers : R.view v₁.host.host = R.view w₁.host.host := by
    rw [hturns.view, hturns'.view]
    exact hp.answers
  have hspeakers : w₁.host.speakers = R.speakers ∧ v₁.host.speakers = R.speakers := by
    rw [hturns.speakers, hturns'.speakers]
    exact hp.speakers
  rcases hdone with ⟨rfl, m₂, hf, rfl⟩ | ⟨rfl, ⟨cause, hf⟩, rfl⟩
  · obtain ⟨hresumes, m₂', hf', hparallel⟩ := hok m₂ hf
    rcases hdone' with ⟨rfl, m₃, hf'', rfl⟩ | ⟨-, ⟨cause, hfailed⟩, -⟩
    · cases hf'.symm.trans hf''
      rcases h with ⟨-, h⟩ | ⟨hno, -⟩
      · obtain ⟨rfl, rfl⟩ := yields_update.mp h
        have hnext := ht.proceed hw₁ hv₁ ⟨hparallel.control, hparallel.cues, hparallel.unset⟩
          hresumes.constants hresumes.container (by rw [hturns.view]; exact hresumes.onRoute)
          hanswers hspeakers (prompt_running hresumes.running)
        exact ⟨_, _, _, _, _, ⟨_, v₁, hfollow, .inl ⟨rfl, yields_update.mpr ⟨rfl, rfl⟩⟩⟩, hnext.paired,
          hturns.view, .inl ⟨rfl, hnext⟩⟩
      · cases hno
    · rw [hf'] at hfailed
      cases hfailed
  · obtain ⟨cause', hf'⟩ := herror cause hf
    rcases hdone' with ⟨-, m₃, hf'', -⟩ | ⟨rfl, -, rfl⟩
    · rw [hf'] at hf''
      cases hf''
    · rcases h with ⟨hyes, -⟩ | ⟨-, rfl, rfl⟩
      · cases hyes
      · exact ⟨v₁, c, d, _, _, ⟨_, v₁, hfollow, .inr ⟨rfl, rfl, rfl⟩⟩,
          ⟨hw₁, hv₁, hanswers, hspeakers⟩, hturns.view, .inr ⟨rfl, ⟨cause, hf⟩, rfl, rfl, rfl, rfl⟩⟩

theorem Tandem.again {w v : World (Story δ)} (ht : R.Tandem w₀ v₀ c d m m' lines)
    (hp : R.Paired w v c d m m') (hroute : m.OnRoute R.entry R.answers (R.view w.host.host)) :
    R.Tandem w v c d m m' lines :=
  { ht with
    first := { ht.first with hosts := hp.first }
    second := { ht.second with hosts := hp.second }
    route := hroute
    answers := hp.answers
    speakers := hp.speakers }

theorem Tandem.continueLine {n : Nat} (ht : R.Tandem w v c d m m' lines)
    (hp : R.Paired w₀ v₀ c d m m') (hview : R.view w₀.host.host = R.view w.host.host)
    (h : (Telling.continueLine (n + 2) R.first).Yields w₀ (.ok ()) w') (k : Nat) :
    ∃ v' c' d' m₁ m₁', (Telling.continueLine (k + 2) R.second).Yields v₀ (.ok ()) v' ∧
      R.Tandem w' v' c' d' m₁ m₁' lines := by
  have hroute : m.OnRoute R.entry R.answers (R.view w₀.host.host) := hview ▸ ht.route
  have hanswer := ht.answer .selectContinue (e := .rejected "continue")
    (f := (·.selectContinue)) hp (fun _ => rfl) (fun _ hok => ht.parallel.selectContinue hroute hok)
    (fun _ => ht.parallel.selectContinue_error) h k
  obtain ⟨v', c', d', m₁, m₁', h', -, -, ⟨-, hnext⟩ | ⟨hr, -⟩⟩ := hanswer
  · exact ⟨v', c', d', m₁, m₁', h', hnext⟩
  · cases hr

theorem Tandem.selectChoice {n : Nat} {r : Except StoryError Unit}
    (ht : R.Tandem w v c d m m' lines) (hwaiting : m.state = .waiting .choice)
    (hp : R.Paired w₀ v₀ c d m m') (hview : R.view w₀.host.host = (R.view w.host.host).tail)
    (h : (Telling.selectChoice (n + 2) R.first ((R.view w.host.host).headD 0)).Yields w₀ r w')
    (k : Nat) : ∃ v' c' d' m₁ m₁',
      (Telling.selectChoice (k + 2) R.second ((R.view w.host.host).headD 0)).Yields v₀ r v' ∧
      R.Tandem w' v' c' d' m₁ m₁' lines := by
  have hrefuses {cause : MachineError}
      (herror : m.selectChoice ((R.view w.host.host).headD 0) = .error cause) :=
    ht.parallel.selectChoice_error ht.route hwaiting herror
  have hanswer := ht.answer (.selectChoice · _) (e := .rejected "select_choice")
    (f := (·.selectChoice _)) hp (fun _ => rfl)
    (fun _ hok => hview ▸ ht.parallel.selectChoice ht.route hok)
    (fun _ herror => (hrefuses herror).2) h k
  obtain ⟨v', c', d', m₁, m₁', h', hpaired, hstill,
    ⟨hr, hnext⟩ | ⟨hr, ⟨cause, herror⟩, hsame⟩⟩ := hanswer
  · exact ⟨v', c', d', m₁, m₁', h', hnext⟩
  · obtain ⟨rfl, rfl, rfl, rfl⟩ := hsame
    exact ⟨v', _, _, _, _, h', ht.again hpaired (by rw [hstill, hview]; exact (hrefuses herror).1)⟩

end Replay

structure Responder.Recites (view : δ → List Nat) (r : Responder δ) : Prop where
  line : ∀ spoken x, view (r.line spoken x) = view x
  index : ∀ cs x, (r.choose cs x).1 = (view x).headD 0
  rest : ∀ cs x, view (r.choose cs x).2 = (view x).tail

namespace Replay

variable {R : Replay δ} {w w' w₀ v v' v₀ : World (Story δ)} {lines : List SpokenLine}
  {responder : Responder δ}

open Telling (yields_pure yields_bind_ok yields_bind_of_ok yields_update_bind yields_story_bind
  yields_throw yields_trySelect respond_choices playSlices_succ playSlices_spent)

theorem Tandem.respond {n : Nat} {last : Bool} {slice slice' : Slice}
    (hr : responder.Recites R.view) (ht : R.Tandem w v c d m m' lines)
    (hslice : slice.prompt = m.prompt) (hslice' : slice'.prompt = m.prompt)
    (h : (Telling.respond (n + 2) R.first responder slice).Yields w (.ok last) w') (k : Nat) :
    last = false ∧ ∃ v' c' d' m₁ m₁',
      (Telling.respond (k + 2) R.second responder slice').Yields v (.ok false) v' ∧
        R.Tandem w' v' c' d' m₁ m₁' lines := by
  cases slice with
  | running =>
    obtain ⟨hover, rfl⟩ := yields_pure.mp h
    cases slice' <;> cases hslice'.trans hslice.symm
    exact ⟨Except.ok.inj hover, v, c, d, m, m', yields_pure.mpr ⟨rfl, rfl⟩, ht⟩
  | line spoken =>
    cases slice' <;> cases hslice'.trans hslice.symm
    rename_i spoken'
    unfold Telling.respond at h
    unfold Telling.respond
    rw [yields_update_bind] at h
    simp only [yields_update_bind]
    have hview : R.view (responder.line spoken w.host.host) = R.view w.host.host := hr.line _ _
    have hp := ht.paired.own (x := responder.line spoken w.host.host)
      (y := responder.line spoken' v.host.host) (by rw [hr.line, hr.line, ht.answers])
    obtain ⟨u, w₁, hcontinue, h⟩ := yields_bind_ok.mp h
    obtain ⟨hover, rfl⟩ := yields_pure.mp h
    obtain ⟨v', c', d', m₁, m₁', hcontinue', hnext⟩ := ht.continueLine hp hview hcontinue k
    refine ⟨Except.ok.inj hover, v', c', d', m₁, m₁', ?_, hnext⟩
    rw [yields_bind_of_ok hcontinue']
    exact yields_pure.mpr ⟨rfl, rfl⟩
  | choices cs =>
    cases slice' with
    | running | line | finished => cases hslice'.trans hslice.symm
    | choices cs' =>
      have hlength : cs'.length = cs.length := by
        simpa [Slice.prompt] using hslice'.trans hslice.symm
      have hwaiting := Machine.waiting_of_prompt hslice.symm
      rw [respond_choices, yields_story_bind, yields_update_bind] at h
      simp only [respond_choices, yields_story_bind, yields_update_bind]
      have hview : R.view (responder.choose cs w.host.host).2 = (R.view w.host.host).tail :=
        hr.rest _ _
      have hp := ht.paired.own (x := (responder.choose cs w.host.host).2)
        (y := (responder.choose cs' v.host.host).2) (by rw [hr.rest, hr.rest, ht.answers])
      rw [hr.index, ht.answers]
      rw [hr.index] at h
      obtain ⟨u, w₁, hselect, h⟩ := yields_bind_ok.mp h
      obtain ⟨hover, rfl⟩ := yields_pure.mp h
      rcases yields_trySelect.mp hselect with hselect | ⟨hrange, name, hselect⟩
      · obtain ⟨v', c', d', m₁, m₁', hselect', hnext⟩ := ht.selectChoice hwaiting hp hview hselect k
        refine ⟨Except.ok.inj hover, v', c', d', m₁, m₁', ?_, hnext⟩
        rw [yields_bind_of_ok (yields_trySelect.mpr (.inl hselect'))]
        exact yields_pure.mpr ⟨rfl, rfl⟩
      · obtain ⟨v', c', d', m₁, m₁', hselect', hnext⟩ := ht.selectChoice hwaiting hp hview hselect k
        refine ⟨Except.ok.inj hover, v', c', d', m₁, m₁', ?_, hnext⟩
        rw [yields_bind_of_ok (yields_trySelect.mpr (.inr ⟨hlength ▸ hrange, name, hselect'⟩))]
        exact yields_pure.mpr ⟨rfl, rfl⟩
  | finished =>
    unfold Machine.prompt at hslice
    split at hslice <;> cases hslice

theorem yields_playSlices {fuel i rounds slices : Nat} {most : Option Nat} :
    (Telling.playSlices fuel i responder most (rounds + 1) slices).Yields w (.ok ()) w' ↔
      (∀ n, most = some n → slices < n) ∧ ∃ slice w₁ last w₂,
        (Telling.tick fuel i).Yields w (.ok slice) w₁ ∧
        (Telling.respond fuel i responder slice).Yields w₁ (.ok last) w₂ ∧
        (last = true ∧ w' = w₂ ∨ last = false ∧
          (Telling.playSlices fuel i responder most rounds (slices + 1)).Yields w₂ (.ok ()) w') := by
  let round : Telling δ Unit := do
    if ← Telling.respond fuel i responder (← Telling.tick fuel i) then return ()
    Telling.playSlices fuel i responder most rounds (slices + 1)
  have hround : round.Yields w (.ok ()) w' ↔ ∃ slice w₁ last w₂,
      (Telling.tick fuel i).Yields w (.ok slice) w₁ ∧
      (Telling.respond fuel i responder slice).Yields w₁ (.ok last) w₂ ∧
      (last = true ∧ w' = w₂ ∨ last = false ∧
        (Telling.playSlices fuel i responder most rounds (slices + 1)).Yields w₂ (.ok ()) w') := by
    simp only [round, yields_bind_ok, exists_and_left]
    refine exists_congr fun slice => exists_congr fun w₁ => and_congr_right fun _ =>
      exists_congr fun last => exists_congr fun w₂ => and_congr_right fun _ => ?_
    cases last with
    | true => simp [yields_pure]
    | false => simp
  rw [← hround]
  by_cases hmost : ∀ n, most = some n → slices < n
  · rw [playSlices_succ hmost]
    exact ⟨fun h => ⟨hmost, h⟩, And.right⟩
  · obtain ⟨n, rfl, hn⟩ : ∃ n, most = some n ∧ n ≤ slices := by simpa using hmost
    rw [playSlices_spent hn]
    constructor
    · intro h
      cases (yields_throw.mp h).1
    · exact fun h => absurd h.1 hmost

theorem Tandem.playSlices {n k rounds rounds' slices : Nat} {most : Option Nat}
    (hr : responder.Recites R.view) (ht : R.Tandem w v c d m m' lines)
    (h : (Telling.playSlices (n + 2) R.first responder most rounds slices).Yields w (.ok ()) w')
    (hle : n + 2 ≤ k) (hrounds : rounds ≤ rounds') : ∃ v',
      (Telling.playSlices (k + 2) R.second responder most rounds' slices).Yields v (.ok ()) v' ∧
        R.Over w' v' := by
  induction rounds generalizing rounds' slices w v c d m m' lines with
  | zero =>
    obtain ⟨a, hnone, -⟩ := Telling.yields_bounded.mp h
    cases hnone
  | succ rounds ih =>
    obtain ⟨rounds', rfl⟩ := Nat.exists_eq_add_of_lt (Nat.lt_of_succ_le hrounds)
    obtain ⟨hmost, slice, w₁, last, w₂, htick, hrespond, hnext⟩ := yields_playSlices.mp h
    obtain ⟨slice', v₁, htick', hstops⟩ := ht.tick htick hle
    rcases hstops with ⟨c₁, d₁, m₁, m₁', lines₁, ht₁, -, hslice, hslice'⟩ | ⟨rfl, rfl, hover⟩
    · obtain ⟨rfl, v₂, c₂, d₂, m₂, m₂', hrespond', ht₂⟩ :=
        ht₁.respond hr hslice hslice' hrespond k
      rcases hnext with ⟨hyes, -⟩ | ⟨-, hnext⟩
      · cases hyes
      · obtain ⟨v', hnext', hover⟩ := ih ht₂ hnext (Nat.le_add_right rounds rounds')
        refine ⟨v', ?_, hover⟩
        exact yields_playSlices.mpr ⟨hmost, slice', v₁, false, v₂, htick', hrespond', .inr ⟨rfl, hnext'⟩⟩
    · obtain ⟨hyes, rfl⟩ := yields_pure.mp hrespond
      rcases hnext with ⟨-, rfl⟩ | ⟨hno, -⟩
      · refine ⟨v₁, ?_, hover⟩
        exact yields_playSlices.mpr ⟨hmost, .finished, v₁, true, v₁, htick', yields_pure.mpr ⟨rfl, rfl⟩,
          .inl ⟨rfl, rfl⟩⟩
      · rw [hno] at hyes
        cases hyes

end Replay

end Dialogue
