import Dialogue.Proofs.Machine.Saving
import Dialogue.Proofs.Story.Own

namespace Dialogue

variable {δ ν : Type} {view : δ → ν}

structure Speaker.Discreet (view : δ → ν) (speaker : Speaker δ) : Prop where
  start : ∀ l x, view (speaker.start l x) = view x
  stop : ∀ x, view (speaker.stop x) = view x

inductive Prompt where
  | running
  | line
  | choices (count : Nat)
  | finished
deriving DecidableEq

def Slice.prompt : Slice → Prompt
  | .running => .running
  | .line _ => .line
  | .choices cs => .choices cs.length
  | .finished => .finished

def StoryEvent.line? : StoryEvent → Option SpokenLine
  | .line spoken => some spoken
  | _ => none

namespace Conversation

def prompt (c : Conversation δ) : Prompt := (c.pending.getD .running).prompt

def said (c : Conversation δ) : List SpokenLine := c.events.filterMap StoryEvent.line?

def score (c : Conversation δ) : Prompt × List SpokenLine := (c.prompt, c.said)

def post (c : Conversation δ) : Handle × Config × List String × Phase :=
  (c.handle, c.config, c.externs, c.phase)

end Conversation

def Cue.follow (speakers : Speakers δ) (score : Prompt × List SpokenLine) :
    Cue → Prompt × List SpokenLine
  | .line l => (.line, score.2 ++ [⟨speakers.displayName l.speaker, l⟩])
  | .choices count => (.choices count, score.2)

namespace Story

def hear (s : Story δ) (i : Nat) : Event → Story δ
  | .line l => s.speak i l
  | .choices cs => s.offer i cs
  | .changed name v => s.emit i (.changed name v)

structure Turns (view : δ → ν) (i : Nat) (c c' : Conversation δ) (s s' : Story δ) : Prop where
  conversation : s'.conversations[i]? = some c'
  post : c'.post = c.post
  routes : s'.routes = s.routes
  speakers : s'.speakers = s.speakers
  store : s'.store = s.store
  state : s'.state = s.state
  view : view s'.host = view s.host

variable {s s' s'' : Story δ} {i : Nat} {c c' c'' : Conversation δ}

theorem Turns.refl (hc : s.conversations[i]? = some c) : Turns view i c c s s :=
  ⟨hc, rfl, rfl, rfl, rfl, rfl, rfl⟩

theorem Turns.trans (h : Turns view i c c' s s') (h' : Turns view i c' c'' s' s'') :
    Turns view i c c'' s s'' :=
  ⟨h'.conversation, h'.post.trans h.post, h'.routes.trans h.routes, h'.speakers.trans h.speakers,
    h'.store.trans h.store, h'.state.trans h.state, h'.view.trans h.view⟩

structure Quiet (view : δ → ν) (s : Story δ) (c : Conversation δ) : Prop where
  speakers : ∀ id speaker, s.speakers.get? id = some speaker → speaker.Discreet view
  speaking : ∀ speaker, c.speaker = some speaker → speaker.Discreet view

theorem turns_modify (hc : s.conversations[i]? = some c) {f : Conversation δ → Conversation δ}
    (hf : (f c).post = c.post) : Turns view i c (f c) s (s.modify i f) :=
  ⟨by simp [modify, hc], hf, rfl, rfl, rfl, rfl, rfl⟩

theorem turns_stopSpeaker (hc : s.conversations[i]? = some c) (hquiet : Quiet view s c) :
    Turns view i c { c with speaker := none } s (s.stopSpeaker i) := by
  unfold stopSpeaker
  simp only [hc, Option.bind_some]
  split
  · rename_i speaker hspeaker
    exact ⟨by simp [modify, hc], rfl, rfl, rfl, rfl, rfl, (hquiet.speaking speaker hspeaker).stop _⟩
  · rename_i hspeaker
    have hsame : ({ c with speaker := none } : Conversation δ) = c := by rw [← hspeaker]
    rw [hsame]
    exact .refl hc

theorem turns_speak (hc : s.conversations[i]? = some c) (hquiet : Quiet view s c) (l : Line) :
    ∃ c', Turns view i c c' s (s.speak i l) ∧ Quiet view (s.speak i l) c' ∧
      c'.score = (Cue.line l).follow s.speakers c.score := by
  have hstop := turns_stopSpeaker hc hquiet
  let spoken : SpokenLine := ⟨s.speakers.displayName l.speaker, l⟩
  let c' : Conversation δ := { c with
    speaker := s.speakers.get? l.speaker
    pending := some (.line spoken)
    events := c.events ++ [.line spoken] }
  have hview : view (s.speak i l).host = view s.host := by
    rw [← hstop.view]
    unfold speak
    simp only [modify, hstop.speakers]
    cases hspeaker : s.speakers.get? l.speaker with
    | none => rfl
    | some speaker => exact (hquiet.speakers _ _ hspeaker).start l _
  refine ⟨c', ⟨?_, rfl, hstop.routes, hstop.speakers, hstop.store, hstop.state, hview⟩,
    ⟨?_, ?_⟩, ?_⟩
  · simp [speak, modify, hstop.conversation, hstop.speakers, Conversation.emit, c', spoken]
  · rw [speak]
    simp only [modify, hstop.speakers]
    exact hquiet.speakers
  · exact fun speaker hspeaker => hquiet.speakers _ _ hspeaker
  · simp [Conversation.score, Conversation.prompt, Conversation.said, Cue.follow, Slice.prompt,
      StoryEvent.line?, c', spoken]

theorem turns_hear (hc : s.conversations[i]? = some c) (hquiet : Quiet view s c) (e : Event) :
    ∃ c', Turns view i c c' s (s.hear i e) ∧ Quiet view (s.hear i e) c' ∧
      c'.score = (e.cue?.toList).foldl (Cue.follow s.speakers) c.score := by
  cases e with
  | line l => exact turns_speak hc hquiet l
  | choices cs =>
    let offered (c : Conversation δ) : Conversation δ :=
      { c with pending := some (.choices cs) }.emit (.choices cs)
    refine ⟨offered c, turns_modify hc rfl, ⟨hquiet.speakers, hquiet.speaking⟩, ?_⟩
    simp [Event.cue?, Cue.follow, Conversation.score, Conversation.prompt, Conversation.said,
      Conversation.emit, Slice.prompt, StoryEvent.line?, offered]
  | changed name v =>
    refine ⟨c.emit (.changed name v), turns_modify (f := (·.emit (.changed name v))) hc rfl,
      ⟨hquiet.speakers, hquiet.speaking⟩, ?_⟩
    simp [Event.cue?, Conversation.score, Conversation.prompt, Conversation.said, Conversation.emit,
      StoryEvent.line?]

theorem turns_foldl_hear (hc : s.conversations[i]? = some c) (hquiet : Quiet view s c)
    (es : List Event) : ∃ c', Turns view i c c' s (es.foldl (·.hear i ·) s) ∧
      Quiet view (es.foldl (·.hear i ·) s) c' ∧
        c'.score = (es.filterMap Event.cue?).foldl (Cue.follow s.speakers) c.score := by
  induction es generalizing s c with
  | nil => exact ⟨c, .refl hc, hquiet, rfl⟩
  | cons e es ih =>
    obtain ⟨c₁, hturns₁, hquiet₁, hscore₁⟩ := turns_hear hc hquiet e
    obtain ⟨c₂, hturns₂, hquiet₂, hscore₂⟩ := ih hturns₁.conversation hquiet₁
    refine ⟨c₂, hturns₁.trans hturns₂, hquiet₂, ?_⟩
    rw [hscore₂, hscore₁, hturns₁.speakers, ← List.foldl_append]
    cases he : e.cue? <;> simp [he]

end Story

namespace World

open Story (Turns Quiet)

variable {w w' : World (Story δ)} {i k : Nat} {c c' : Conversation δ} {h : Handle}
  {m m₁ : HostMachine (Story δ)} {inst : Instance (Story δ)}

/-- The conversation `i` is live. Its machine `m` tells it its events, and no variables are shared. -/
structure Hosts (view : δ → ν) (w : World (Story δ)) (i : Nat) (c : Conversation δ)
    (m : HostMachine (Story δ)) : Prop where
  settled : w.Settled view
  conversation : w.host.conversations[i]? = some c
  found : ∃ k inst, w.find c.handle = .ok (k, inst) ∧ inst.machine = m ∧
    inst.callbacks = Story.dispatch
  route : w.host.route? c.handle = some i
  store : w.host.store = none
  quiet : w.host.Quiet view c

theorem Hosts.machine? (hw : Hosts view w i c m) : w.machine? c.handle = some m := by
  obtain ⟨k, inst, hfind, rfl, -⟩ := hw.found
  exact machine?_of_find hfind

theorem Hosts.isParsed (hw : Hosts view w i c m) : m.IsParsed := by
  obtain ⟨k, inst, hfind, rfl, -⟩ := hw.found
  exact hw.settled.rest.parsed inst (List.mem_of_getElem? (find_eq_ok hfind).2)

theorem Hosts.idle (hw : Hosts view w i c m) : m.events = [] ∧ m.diagnostics = [] := by
  obtain ⟨k, inst, hfind, rfl, -⟩ := hw.found
  have hidle := hw.settled.rest.idle inst (List.mem_of_getElem? (find_eq_ok hfind).2)
  exact ⟨congrArg Status.events hidle, congrArg Status.diagnostics hidle⟩

theorem Hosts.restage (hw : Hosts view w i c m) {s' : Story δ}
    (hc : s'.conversations[i]? = some c') (hhandle : c'.handle = c.handle)
    (hroutes : s'.routes = w.host.routes) (hstore : s'.store = w.host.store)
    (hquiet : s'.Quiet view c') : Hosts view { w with host := s' } i c' m := by
  refine ⟨hw.settled.update fun _ => s', hc, ?_, ?_, hstore.trans hw.store, hquiet⟩
  · rw [hhandle]
    exact hw.found
  · rw [hhandle, Story.route?, hroutes]
    exact hw.route

theorem Hosts.own (hw : Hosts view w i c m) (x : δ) :
    Hosts view { w with host := { w.host with host := x } } i c m :=
  hw.restage hw.conversation rfl rfl rfl ⟨hw.quiet.speakers, hw.quiet.speaking⟩

theorem find_modifyMachine (hfind : w.find h = .ok (k, inst))
    (f : HostMachine (Story δ) → HostMachine (Story δ)) :
    (w.modifyMachine h f).find h = .ok (k, { inst with machine := f inst.machine }) := by
  obtain ⟨hget, hinst⟩ := find_eq_ok hfind
  obtain ⟨hk, -⟩ := List.getElem?_eq_some_iff.mp hinst
  rw [modifyMachine_of_find hfind]
  exact find_eq_of_get? hget (by simp [setInstance, hk])

theorem Hosts.modifyMachine (hw : Hosts view w i c m)
    {f : HostMachine (Story δ) → HostMachine (Story δ)}
    (hsettled : Settled view (w.modifyMachine c.handle f)) :
    Hosts view (w.modifyMachine c.handle f) i c (f m) := by
  obtain ⟨k, inst, hfind, rfl, hcallbacks⟩ := hw.found
  have hhost := host_modifyMachine w c.handle f
  refine ⟨hsettled, ?_, ⟨k, _, find_modifyMachine hfind f, rfl, hcallbacks⟩, ?_, ?_, ?_⟩
  · rw [hhost]
    exact hw.conversation
  · rw [hhost]
    exact hw.route
  · rw [hhost]
    exact hw.store
  · rw [hhost]
    exact hw.quiet

theorem Hosts.change (hw : Hosts view w i c m) (op : Operation (Story δ))
    {ch : Change (Story δ)} (hc : op.change? = some ch) (hhandle : ch.handle = c.handle)
    (fuel : Nat) : ∃ w', exec (fuel + 2) op w = some (ch.reply (some m), w') ∧
      Hosts view w' i c (ch.effect m) ∧ Turns view i c c w.host w'.host := by
  obtain ⟨w', hexec, hlogs⟩ := change_returns hw.settled.rest hc fuel
  obtain ⟨-, hsame, hsettled⟩ := hw.settled.exec hc hexec
  rw [hhandle, hw.machine?] at hexec
  have haffect : w.affect op = w.modifyMachine c.handle ch.effect := by
    rw [World.affect, hc, ← hhandle]
  have hw₁ := hw.modifyMachine (haffect ▸ hsame.symm.settled hsettled)
  rw [← haffect] at hw₁
  obtain ⟨x, hx, rfl⟩ := hsame
  rw [affect_host] at hx
  refine ⟨_, hexec, hw₁.own x, ?_⟩
  simp only [withOwn, affect_host]
  exact ⟨hw.conversation, rfl, rfl, rfl, rfl, rfl, hx⟩

theorem Hosts.attempt (hw : Hosts view w i c m) {op : Operation (Story δ)}
    {f : HostMachine (Story δ) → Except MachineError (HostMachine (Story δ))}
    (hc : op.change? = some ⟨c.handle, .flag false, fun m => (f m).map (.flag true, ·)⟩)
    (fuel : Nat) : ∃ b w' m', exec (fuel + 2) op w = some (.flag b, w') ∧
      Hosts view w' i c m' ∧ Turns view i c c w.host w'.host ∧
      (b = true ∧ (∃ m₁, f m = .ok m₁ ∧ m' = { m₁ with diagnostics := [] }) ∨
        b = false ∧ (∃ e, f m = .error e) ∧ m' = m) := by
  obtain ⟨w', hexec, hw', hturns⟩ := hw.change op hc rfl fuel
  unfold Change.effect Change.reply at *
  cases hf : f m with
  | ok m₁ =>
    simp only [hf, Except.map] at hexec hw'
    exact ⟨true, w', _, hexec, hw', hturns, .inl ⟨rfl, m₁, rfl, rfl⟩⟩
  | error e =>
    simp only [hf, Except.map] at hexec hw'
    exact ⟨false, w', _, hexec, hw', hturns, .inr ⟨rfl, ⟨e, rfl⟩, rfl⟩⟩

theorem Hosts.state (hw : Hosts view w i c m) (fuel : Nat) :
    exec (fuel + 1) (.state c.handle) w = some (.state (some m.state), w) := by
  obtain ⟨k, inst, hfind, rfl, -⟩ := hw.found
  exact hw.settled.rest.exec_state (machine?_of_find hfind) fuel

theorem deliver_dispatch (exec : Operation (Story δ) → World (Story δ) → Option (Reply × World (Story δ)))
    (hroute : w.host.route? h = some i) (hstore : w.host.store = none)
    (hc : w.host.conversations[i]? = some c) (hquiet : w.host.Quiet view c) (es : List Event) :
    deliver (Reaction.perform exec) (Story.dispatch h) es w =
      some (none, { w with host := es.foldl (·.hear i ·) w.host }) := by
  induction es generalizing w c with
  | nil => rfl
  | cons e es ih =>
    have hperform : (Story.dispatch h e).perform exec w =
        some (.value .nil, { w with host := w.host.hear i e }) := by
      rw [Story.dispatch, Reaction.perform, hroute]
      cases e with
      | line l => rfl
      | choices cs => rfl
      | changed name v =>
        have hlast : w.host.changed i name v =
            .update (·.emit i (.changed name v)) (.done .nil) := by
          unfold Story.changed Story.share
          rw [hstore]
          split <;> rfl
        simp only [hlast]
        rfl
    rw [deliver, hperform]
    obtain ⟨c', hturns, hquiet', -⟩ := Story.turns_hear hc hquiet e
    refine ih ?_ (hturns.store.trans hstore) hturns.conversation hquiet'
    rw [Story.route?, hturns.routes]
    exact hroute

theorem flush_succ {perform : Reaction (Story δ) → World (Story δ) →
      Option (HostResult × World (Story δ))} (hinst : w.instances[k]? = some inst)
    (hbusy : inst.busy = false) (h : Handle) (fuel : Nat) :
    World.flush perform h k (fuel + 1) w =
      if (w.collect k inst).1.isEmpty then some (w.collect k inst).2
      else
        match deliver perform (inst.callbacks h) (w.collect k inst).1
          ((w.collect k inst).2.dispatch k true) with
        | none => none
        | some (none, w) => World.flush perform h k fuel (w.dispatch k false)
        | some (some message, w) => some ((w.dispatch k false).abandon h k message) := by
  rw [World.flush, hinst]
  simp only [hbusy, Bool.false_eq_true, if_false]
  refine if_congr Iff.rfl rfl ?_
  rcases deliver perform (inst.callbacks h) (w.collect k inst).1
    ((w.collect k inst).2.dispatch k true) with _ | ⟨_ | _, _⟩ <;> rfl

theorem flush_dispatch
    (exec : Operation (Story δ) → World (Story δ) → Option (Reply × World (Story δ)))
    (hinst : w.instances[k]? = some inst) (hbusy : inst.busy = false)
    (hdispatching : inst.dispatching = false) (hcallbacks : inst.callbacks = Story.dispatch)
    (hd : Discreet view w.channel.handler) (hroute : w.host.route? h = some i)
    (hstore : w.host.store = none) (hc : w.host.conversations[i]? = some c)
    (hquiet : w.host.Quiet view c) (fuel : Nat) : ∃ w' c',
      World.flush (Reaction.perform exec) h k (fuel + 2) w = some w' ∧ w'.arena = w.arena ∧
      w'.instances[k]? = some inst.drained ∧
      (∃ x, w'.host = inst.machine.events.foldl (·.hear i ·) { w.host with host := x }) ∧
      Turns view i c c' w.host w'.host ∧ w'.host.Quiet view c' ∧
      c'.score = (inst.machine.events.filterMap Event.cue?).foldl (Cue.follow w.host.speakers)
        c.score := by
  obtain ⟨hk, -⟩ := List.getElem?_eq_some_iff.mp hinst
  have hevents : (w.collect k inst).1 = inst.machine.events := by
    rw [collect_events, hdispatching]
    rfl
  obtain ⟨x, hx, hcollect⟩ : Same view (w.setInstance k inst.drained) (w.collect k inst).2 := by
    rw [collect_snd]
    exact same_of_logs hd (logs_reports _ _)
  let w₁ := w.setInstance k inst.drained
  have hinst₁ : (w₁.withOwn x).instances[k]? = some inst.drained := by
    simp [w₁, withOwn, setInstance, hk]
  have hown : Turns view i c c w.host (w₁.withOwn x).host := ⟨hc, rfl, rfl, rfl, rfl, rfl, hx⟩
  rw [flush_succ hinst hbusy, hevents, hcollect]
  split
  · rename_i hempty
    rw [List.isEmpty_iff.mp hempty]
    exact ⟨_, c, rfl, rfl, hinst₁, ⟨x, rfl⟩, hown, ⟨hquiet.speakers, hquiet.speaking⟩, rfl⟩
  · -- The second round finds nothing.
    have hdispatch (b : Bool) : (w₁.withOwn x).dispatch k b =
        (w₁.withOwn x).setInstance k { inst.drained with dispatching := b } :=
      Conduct.dispatch_eq hinst₁ b
    obtain ⟨c', hturns, hquiet', hscore⟩ := Story.turns_foldl_hear (s := (w₁.withOwn x).host)
      hown.conversation ⟨hquiet.speakers, hquiet.speaking⟩ inst.machine.events
    have hdeliver : deliver (Reaction.perform exec) (inst.callbacks h) inst.machine.events
        ((w₁.withOwn x).dispatch k true) =
          some (none, { (w₁.withOwn x).dispatch k true with
            host := inst.machine.events.foldl (·.hear i ·) (w₁.withOwn x).host }) := by
      rw [hcallbacks, hdispatch]
      exact deliver_dispatch (w := (w₁.withOwn x).setInstance k _) exec hroute hstore
        hown.conversation ⟨hquiet.speakers, hquiet.speaking⟩ _
    rw [hdeliver]
    simp only
    generalize hheard : inst.machine.events.foldl (·.hear i ·) (w₁.withOwn x).host = s at *
    have hsame : ({ inst.drained with dispatching := false } : Instance (Story δ)) = inst.drained := by
      rw [← hdispatching]
      rfl
    have hback : ({ (w₁.withOwn x).dispatch k true with host := s } : World (Story δ)).dispatch k
        false = { w₁ with host := s } := by
      rw [hdispatch, Conduct.dispatch_eq
        (show _ = some { inst.drained with dispatching := true } by simp [w₁, withOwn, setInstance, hk])]
      simp only [hsame, w₁, withOwn, setInstance, List.set_set]
    have hinst₂ : ({ w₁ with host := s } : World (Story δ)).instances[k]? = some inst.drained := hinst₁
    have hdrained : inst.drained.machine.events = [] := by simp [Instance.drained, hdispatching]
    rw [hback, flush_settled hinst₂ hbusy hdrained]
    have hagain : inst.drained.drained = inst.drained := by simp [Instance.drained, hdispatching]
    rw [hagain, setInstance_self hinst₂]
    exact ⟨_, c', rfl, rfl, hinst₂, ⟨x, hheard.symm⟩, hown.trans hturns, hquiet', hscore⟩

def cleared (m : HostMachine (Story δ)) : HostMachine (Story δ) :=
  { m with events := [], diagnostics := [] }

abbrev apply (fuel : Nat) (body : List Value → Reaction (Story δ)) (args : List Value)
    (w : World (Story δ)) : Option (HostResult × World (Story δ)) :=
  (body args).perform (exec fuel) w

theorem run_eq_of_find (hfind : w.find h = .ok (k, inst)) (hidle : inst.status = .idle) (fuel : Nat) :
    exec (fuel + 1) (.run h) w =
      match inst.machine.run (apply fuel) fuel (w.setInstance k { inst with busy := true }) with
      | none => none
      | some (ended, m, w) =>
        (World.flush (Reaction.perform (exec fuel)) h k fuel (w.modifyInstance k fun inst =>
          { inst with machine := (conclude m ended).2, busy := false })).map
            fun w => w.answerFlag (conclude m ended).1 := by
  change drive _ fuel "run" h (runInstance _ fuel) w = _
  rw [drive_of_find hfind hidle]
  unfold runInstance
  simp only
  rcases inst.machine.run (apply fuel) fuel (w.setInstance k { inst with busy := true }) with
    _ | ⟨ended, m, w⟩ <;> rfl

theorem flush_mono {perform : Reaction (Story δ) → World (Story δ) →
      Option (HostResult × World (Story δ))} {fuel : Nat}
    (hf : World.flush perform h k fuel w = some w') :
    World.flush perform h k (fuel + 1) w = some w' := by
  induction fuel generalizing w with
  | zero => cases hf
  | succ fuel ih =>
    cases hinst : w.instances[k]? with
    | none =>
      rw [World.flush, hinst] at hf ⊢
      exact hf
    | some inst =>
      cases hbusy : inst.busy with
      | true =>
        rw [World.flush, hinst] at hf ⊢
        simp only [hbusy, if_true] at hf ⊢
        exact hf
      | false =>
        rw [flush_succ hinst hbusy] at hf ⊢
        split at hf
        · rename_i hempty
          rwa [if_pos hempty]
        · rename_i hempty
          rw [if_neg hempty]
          rcases hd : deliver perform (inst.callbacks h) (w.collect k inst).1
            ((w.collect k inst).2.dispatch k true) with _ | ⟨_ | message, w₁⟩
          · simp only [hd] at hf
            cases hf
          · simp only [hd] at hf ⊢
            exact ih hf
          · simp only [hd] at hf ⊢
            exact hf

theorem setInstance_ran (hinst : w.instances[k]? = some inst) (hbusy : inst.busy = false)
    (m₁ : HostMachine (Story δ)) :
    (w.setInstance k { inst with busy := true }).modifyInstance k (fun inst =>
      { inst with machine := m₁, busy := false }) = w.setInstance k { inst with machine := m₁ } := by
  obtain ⟨hk, -⟩ := List.getElem?_eq_some_iff.mp hinst
  rw [Conduct.modifyInstance_eq
    (show _ = some { inst with busy := true } by simp [setInstance, hk])]
  simp [setInstance, List.set_set, hbusy]

section

variable {fuel : Nat}

theorem Hosts.heard (hw : Hosts view w i c m) (hfind : w.find c.handle = .ok (k, inst))
    (hcallbacks : inst.callbacks = Story.dispatch)
    (exec : Operation (Story δ) → World (Story δ) → Option (Reply × World (Story δ)))
    (m₁ : HostMachine (Story δ)) (fuel : Nat) :
    ∃ w' c', World.flush (Reaction.perform exec) c.handle k (fuel + 2)
        ((w.setInstance k { inst with busy := true }).modifyInstance k fun inst =>
          { inst with machine := m₁, busy := false }) = some w' ∧
      w'.find c.handle = .ok (k, { inst with machine := cleared m₁ }) ∧
      (∃ x, w'.host = m₁.events.foldl (·.hear i ·) { w.host with host := x }) ∧
      Turns view i c c' w.host w'.host ∧ w'.host.Quiet view c' ∧
      c'.score = (m₁.events.filterMap Event.cue?).foldl (Cue.follow w.host.speakers) c.score := by
  obtain ⟨hget, hinst⟩ := find_eq_ok hfind
  obtain ⟨hk, -⟩ := List.getElem?_eq_some_iff.mp hinst
  have hidle := hw.settled.rest.idle inst (List.mem_of_getElem? hinst)
  have hbusy : inst.busy = false := congrArg Status.busy hidle
  have hdispatching : inst.dispatching = false := congrArg Status.dispatching hidle
  rw [setInstance_ran hinst hbusy]
  obtain ⟨w', c', hflush, harena, hinst', hhost, hturns, hquiet, hscore⟩ :=
    flush_dispatch (w := w.setInstance k { inst with machine := m₁ })
      (h := c.handle) (k := k) exec
      (show _ = some { inst with machine := m₁ } by simp [setInstance, hk]) hbusy hdispatching
      hcallbacks hw.settled.discreet hw.route hw.store hw.conversation hw.quiet fuel
  refine ⟨w', c', hflush, find_eq_of_get? (harena ▸ hget) ?_, hhost, hturns, hquiet, hscore⟩
  rw [hinst']
  simp [Instance.drained, hdispatching, cleared]

theorem Hosts.ran (hw : Hosts view w i c m) (hcallbacks : inst.callbacks = Story.dispatch) {r : Reply}
    (hexec : exec fuel (.run c.handle) w = some (r, w'))
    (hhost : w'.find c.handle = .ok (k, { inst with machine := cleared m₁ }))
    (hturns : Turns view i c c' w.host w'.host) (hquiet : w'.host.Quiet view c') :
    Hosts view w' i c' (cleared m₁) := by
  have hhandle : c'.handle = c.handle := congrArg (·.1) hturns.post
  refine ⟨⟨atRest_exec hw.settled.rest hexec, ?_⟩, hturns.conversation, ?_, ?_, ?_, hquiet⟩
  · exact handler_exec (fun _ _ s => ⟨s.host, rfl, rfl⟩) hw.settled.rest hw.settled.discreet hexec
  · rw [hhandle]
    exact ⟨k, _, hhost, rfl, hcallbacks⟩
  · rw [hhandle, Story.route?, hturns.routes]
    exact hw.route
  · exact hturns.store.trans hw.store

theorem Hosts.run (hw : Hosts view w i c m)
    (hrun : ∀ s, m.run (apply (fuel + 2)) (fuel + 2) s = some (.paused, m₁, s)) :
    ∃ w' c', exec (fuel + 3) (.run c.handle) w = some (.flag true, w') ∧
      Hosts view w' i c' (cleared m₁) ∧ Turns view i c c' w.host w'.host ∧
      c'.score = (m₁.events.filterMap Event.cue?).foldl (Cue.follow w.host.speakers) c.score := by
  obtain ⟨k, inst, hfind, rfl, hcallbacks⟩ := hw.found
  have hidle := hw.settled.rest.idle inst (List.mem_of_getElem? (find_eq_ok hfind).2)
  obtain ⟨w', c', hflush, hfind', -, hturns, hquiet, hscore⟩ :=
    hw.heard hfind hcallbacks (exec (fuel + 2)) m₁ fuel
  have hexec : exec (fuel + 3) (.run c.handle) w = some (.flag true, w') := by
    rw [run_eq_of_find hfind hidle, hrun]
    simp only [conclude, hflush]
    rfl
  exact ⟨w', c', hexec, hw.ran hcallbacks hexec hfind' hturns hquiet, hturns, hscore⟩

theorem Hosts.run_paused (hw : Hosts view w i c m) {r : Reply}
    (hexec : exec fuel (.run c.handle) w = some (r, w')) (hyes : r.isYes = true)
    (hquiet : ∀ n m₁ s s₁, m.run (apply n) n s = some (.paused, m₁, s₁) → s₁ = s) :
    ∃ n m₁ c', fuel = n + 1 ∧ (∃ s, m.run (apply n) n s = some (.paused, m₁, s)) ∧
      Hosts view w' i c' (cleared m₁) ∧ Turns view i c c' w.host w'.host ∧
      c'.score = (m₁.events.filterMap Event.cue?).foldl (Cue.follow w.host.speakers) c.score := by
  obtain ⟨k, inst, hfind, rfl, hcallbacks⟩ := hw.found
  have hidle := hw.settled.rest.idle inst (List.mem_of_getElem? (find_eq_ok hfind).2)
  rcases fuel with _ | n
  · cases hexec
  have heq := hexec
  rw [run_eq_of_find hfind hidle] at heq
  split at heq
  · cases heq
  · rename_i ended m₁ w₁ hrun
    obtain ⟨w₂, hflush, hr⟩ := Option.map_eq_some_iff.mp heq
    cases ended with
    | error e =>
      cases hr
      cases hyes
    | panic message =>
      cases hr
      cases hyes
    | paused =>
      cases hr
      have hw₁ := hquiet n m₁ _ _ hrun
      subst hw₁
      obtain ⟨w₃, c', hheard, hfind', -, hturns, hquiet', hscore⟩ :=
        hw.heard hfind hcallbacks (exec n) m₁ n
      have hsame := flush_mono (flush_mono hflush)
      rw [conclude] at hsame
      cases hsame.symm.trans hheard
      exact ⟨n, m₁, c', rfl, ⟨_, hrun⟩, hw.ran hcallbacks hexec hfind' hturns hquiet', hturns, hscore⟩

end

end World

end Dialogue
