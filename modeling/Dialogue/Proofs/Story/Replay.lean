import Dialogue.Proofs.Container.Assembly
import Dialogue.Proofs.Story.Creation
import Dialogue.Proofs.Story.Tandem

/-!
A script that is played again with the same answers, by the conversation that has played it or by
another one.
-/

namespace Dialogue

variable {δ ν : Type} {view : δ → ν} {w w' : World (Story δ)} {i : Nat} {c : Conversation δ}
  {m m' : HostMachine (Story δ)} {bough : String}

namespace World

theorem Hosts.inject (hw : Hosts view w i c m) (fuel : Nat) :
    ∃ w', (Telling.inject (fuel + 2) c.handle).Yields w (.ok ()) w' ∧
      Hosts view w' i c (m.resumed w.host.state) ∧ Story.Turns view i c c w.host w'.host := by
  unfold Telling.inject Machine.resumed
  simp only [Telling.yields_story_bind]
  cases hempty : w.host.state.isEmpty with
  | true => exact ⟨w, Telling.yields_pure.mpr ⟨rfl, rfl⟩, hw, .refl hw.conversation⟩
  | false =>
    obtain ⟨w', hexec, hw', hturns⟩ := hw.change (.load c.handle w.host.state) rfl rfl fuel
    exact ⟨w', Telling.yields_perform_bind.mpr ⟨_, w', hexec, Telling.yields_pure.mpr ⟨rfl, rfl⟩⟩,
      hw', hturns⟩

theorem Hosts.start (hw : Hosts view w i c m) (hstart : m.start bough = .ok m') (fuel : Nat) :
    ∃ w', exec (fuel + 2) (.start c.handle bough) w = some (.flag true, w') ∧
      Hosts view w' i c m' ∧ w'.host = w.host := by
  obtain ⟨k, inst, hfind, rfl, -⟩ := id hw.found
  have hidle := hw.settled.rest.idle inst (List.mem_of_getElem? (find_eq_ok hfind).2)
  have hexec := start_eq_of_find hfind hidle bough fuel
  simp only [hstart, ← modifyMachine_of_find hfind fun _ => m'] at hexec
  have hsettled : Settled view (w.modifyMachine c.handle fun _ => m') := by
    refine ⟨atRest_exec hw.settled.rest hexec, ?_⟩
    exact handler_exec (fun _ _ s => ⟨s.host, rfl, rfl⟩) hw.settled.rest hw.settled.discreet hexec
  exact ⟨_, hexec, hw.modifyMachine hsettled, host_modifyMachine w _ _⟩

end World

namespace Telling

open World

theorem bindStore_yields (hstore : w.host.store = none) (fuel i : Nat) (c : Conversation δ) :
    (bindStore fuel i c).Yields w (.ok ()) w := by
  unfold bindStore
  rw [yields_story_bind, hstore]
  exact yields_pure.mpr ⟨rfl, rfl⟩

theorem startBough_playing (hw : Hosts view w i c m) (hphase : c.phase ≠ .destroyed)
    (hstart : (m.resumed w.host.state).start bough = .ok m') (fuel : Nat) :
    ∃ w' c', (startBough (fuel + 2) i bough).Yields w (.ok ()) w' ∧
      Playing view w' i c' m' c.said ∧ c'.config = c.config ∧ w'.host.state = w.host.state ∧
      w'.host.speakers = w.host.speakers ∧ view w'.host.host = view w.host.host := by
  obtain ⟨w₁, hinject, hw₁, hturns⟩ := hw.inject fuel
  obtain ⟨w₂, hexec, hw₂, hhost⟩ := hw₁.start hstart fuel
  let c' : Conversation δ :=
    { c with pending := none, phase := .started, events := c.events ++ [.started bough] }
  let s' : Story δ := ((w₂.host.clearPending i).modify i fun c => { c with phase := .started }).emit i
    (.started bough)
  have hc' : s'.conversations[i]? = some c' := by
    simp [s', c', Story.clearPending, Story.modify, Story.emit, hw₂.conversation, Conversation.emit]
  refine ⟨{ w₂ with host := s' }, c', ?_, ⟨?_, rfl, ?_, ?_⟩, rfl, ?_, ?_, ?_⟩
  · unfold startBough
    rw [yields_alive_bind hw.conversation hphase, yields_bind_of_ok hinject,
      yields_bind_of_ok (bindStore_yields hw₁.store _ _ _), yields_guard]
    exact ⟨_, w₂, hexec, .inl ⟨rfl, yields_update.mpr ⟨rfl, rfl⟩⟩⟩
  · exact hw₂.restage hc' rfl rfl rfl ⟨hw₂.quiet.speakers, hw₂.quiet.speaking⟩
  · obtain ⟨b, -, rfl⟩ := Machine.start_eq_ok hstart
    rfl
  · simp [Conversation.said, c', StoryEvent.line?]
  · exact (congrArg Story.state hhost).trans hturns.state
  · exact (congrArg Story.speakers hhost).trans hturns.speakers
  · exact (congrArg (fun s => view s.host) hhost).trans hturns.view

theorem startBough_starts (hw : Hosts view w i c m) (hempty : w.host.state.isEmpty = true)
    {fuel : Nat} (hr : (startBough fuel i bough).Yields w (.ok ()) w') :
    ∃ n m' c', fuel = n + 2 ∧ m.start bough = .ok m' ∧ Playing view w' i c' m' c.said ∧
      c'.config = c.config ∧ w'.host.speakers = w.host.speakers ∧
      view w'.host.host = view w.host.host := by
  have hplaying := hr
  unfold startBough at hr
  rcases alive_bind hr with ⟨c₁, hc₁, hphase, hr⟩ | ⟨-, ⟨h, hr⟩, -⟩
  · cases hw.conversation.symm.trans hc₁
    have hinject : (Telling.inject fuel c.handle).Yields w (.ok ()) w := by
      unfold Telling.inject
      rw [yields_story_bind]
      simp only [hempty, Bool.not_true, Bool.false_eq_true, if_false]
      exact yields_pure.mpr ⟨rfl, rfl⟩
    rw [yields_bind_of_ok hinject, yields_bind_of_ok (bindStore_yields hw.store _ _ _),
      yields_guard] at hr
    obtain ⟨a, w₁, hexec, ⟨hyes, -⟩ | ⟨-, hr, -⟩⟩ := hr
    · obtain ⟨k, inst, hfind, -, -⟩ := hw.found
      have hidle := hw.settled.rest.idle inst (List.mem_of_getElem? (find_eq_ok hfind).2)
      obtain ⟨n, rfl⟩ := start_fuel hfind hidle hexec
      rcases start_cases hw.settled.rest hexec with ⟨m₁, m', hm₁, hstart, -, -⟩ | ⟨-, rfl, -⟩
      · cases hw.machine?.symm.trans hm₁
        have hresumed : m.resumed w.host.state = m := if_pos hempty
        obtain ⟨w₂, c', hok, hw₂, hconfig, -, hspeakers, hview⟩ :=
          startBough_playing hw hphase (hresumed ▸ hstart) n
        obtain ⟨-, rfl⟩ := hplaying.unique hok
        exact ⟨n, m', c', rfl, hstart, hw₂, hconfig, hspeakers, hview⟩
      · cases hyes
    · cases hr
  · cases hr

/-- The ways to play the conversation `c` from a bough. One that has only been created starts by
itself when it is played. -/
inductive Plays (fuel i : Nat) (r : Responder δ) (c : Conversation δ) : String → Telling δ Unit → Prop
  | startBough (bough : String) : Plays fuel i r c bough do
      Telling.startBough fuel i bough
      Telling.play fuel i r
  | start : Plays fuel i r c c.config.bough do
      Telling.start fuel i
      Telling.play fuel i r
  | play (hc : c.phase = .created) : Plays fuel i r c c.config.bough (Telling.play fuel i r)

variable {t : Telling δ Unit} {fuel : Nat} {responder : Responder δ}

theorem yields_play_started (hc : w.host.conversations[i]? = some c) (hphase : c.phase = .started)
    {r : Except StoryError Unit} : (play fuel i responder).Yields w r w' ↔
      (playSlices fuel i responder c.config.maxSlices fuel 0).Yields w r w' := by
  unfold play
  rw [yields_conversation?_bind, hc]
  simp only [hphase, reduceCtorEq, if_false]

theorem yields_start_bind (hc : w.host.conversations[i]? = some c) {β : Type}
    {f : Unit → Telling δ β} {r : Except StoryError β} :
    (Telling.start fuel i >>= f).Yields w r w' ↔
      (Telling.startBough fuel i c.config.bough >>= f).Yields w r w' := by
  unfold Telling.start
  rw [bind_assoc, yields_conversation?_bind, hc]
  rfl

theorem yields_play_created (hc : w.host.conversations[i]? = some c) (hphase : c.phase = .created)
    {r : Except StoryError Unit} : (play fuel i responder).Yields w r w' ↔
      (Telling.startBough fuel i c.config.bough >>= fun _ =>
        playSlices fuel i responder c.config.maxSlices fuel 0).Yields w r w' := by
  unfold play
  rw [yields_conversation?_bind, hc]
  simp only [hphase, if_true]
  exact yields_start_bind hc

theorem Plays.starts (ht : Plays fuel i responder c bough t)
    (hc : w.host.conversations[i]? = some c) (h : t.Yields w (.ok ()) w') :
    ∃ w₁, (Telling.startBough fuel i bough).Yields w (.ok ()) w₁ := by
  cases ht with
  | startBough =>
    obtain ⟨_, w₁, hstart, -⟩ := yields_bind_ok.mp h
    exact ⟨w₁, hstart⟩
  | start =>
    obtain ⟨_, w₁, hstart, -⟩ := yields_bind_ok.mp ((yields_start_bind hc).mp h)
    exact ⟨w₁, hstart⟩
  | play hcreated =>
    obtain ⟨_, w₁, hstart, -⟩ := yields_bind_ok.mp ((yields_play_created hc hcreated).mp h)
    exact ⟨w₁, hstart⟩

theorem Plays.yields_iff (ht : Plays fuel i responder c bough t)
    (hc : w.host.conversations[i]? = some c)
    (hstarts : ∀ w₁, (Telling.startBough fuel i bough).Yields w (.ok ()) w₁ →
      ∃ c₁, w₁.host.conversations[i]? = some c₁ ∧ c₁.phase = .started ∧ c₁.config = c.config) :
    t.Yields w (.ok ()) w' ↔ ∃ w₁, (Telling.startBough fuel i bough).Yields w (.ok ()) w₁ ∧
      (playSlices fuel i responder c.config.maxSlices fuel 0).Yields w₁ (.ok ()) w' := by
  have hstart : ((do
      Telling.startBough fuel i bough
      Telling.play fuel i responder : Telling δ Unit).Yields w (.ok ()) w' ↔
        ∃ w₁, (Telling.startBough fuel i bough).Yields w (.ok ()) w₁ ∧
          (playSlices fuel i responder c.config.maxSlices fuel 0).Yields w₁ (.ok ()) w') := by
    rw [yields_bind_ok]
    constructor
    · rintro ⟨_, w₁, hstart, hplay⟩
      obtain ⟨c₁, hc₁, hphase, hconfig⟩ := hstarts w₁ hstart
      rw [yields_play_started hc₁ hphase, hconfig] at hplay
      exact ⟨w₁, hstart, hplay⟩
    · rintro ⟨w₁, hstart, hplay⟩
      obtain ⟨c₁, hc₁, hphase, hconfig⟩ := hstarts w₁ hstart
      refine ⟨(), w₁, hstart, ?_⟩
      rw [yields_play_started hc₁ hphase, hconfig]
      exact hplay
  cases ht with
  | startBough => exact hstart
  | start => exact (yields_start_bind hc).trans hstart
  | play hcreated =>
    rw [yields_play_created hc hcreated, yields_bind_ok]
    exact ⟨fun ⟨_, w₁, h⟩ => ⟨w₁, h⟩, fun ⟨w₁, h⟩ => ⟨(), w₁, h⟩⟩

end Telling

namespace Replay

open Telling World

variable {R : Replay δ} {v : World (Story δ)} {d : Conversation δ} {t s : Telling δ Unit}
  {fuel k : Nat} {responder : Responder δ}

theorem again (hr : responder.Recites R.view) (hw : Hosts R.view w R.first c R.origin)
    (hconfig : c.config = R.config) (hsaid : c.said = R.before)
    (hempty : w.host.state.isEmpty = true) (hspeakers : w.host.speakers = R.speakers)
    (hanswers : R.view w.host.host = R.answers)
    (hentry : ∀ b, R.origin.container.bough? bough = some b → b.entry.toNat = R.entry)
    (ht : Plays fuel R.first responder c bough t) (hplay : t.Yields w (.ok ()) w')
    (hv : Hosts R.view v R.second d m) (hphase : d.phase ≠ .destroyed)
    (hstate : m.state = .ready ∨ m.state = .finished) (hcontainer : m.container = R.origin.container)
    (hsame : R.origin.SameConstants m) (hconfig' : d.config = R.config) (hsaid' : d.said = R.before')
    (hsaved : v.host.state.isEmpty = true ∨ ∀ g ∈ R.origin.globals, g.symbol.isMutable = false →
      g.slot = .value .nil → v.host.state.get? g.symbol.name = some .null)
    (hspeakers' : v.host.speakers = R.speakers) (hanswers' : R.view v.host.host = R.answers)
    (ht' : Plays k R.second responder d bough s) (hle : fuel + 2 ≤ k) :
    ∃ v', s.Yields v (.ok ()) v' ∧ R.Over w' v' := by
  have hstarts (w₁ : World (Story δ)) (hstart : (startBough fuel R.first bough).Yields w (.ok ()) w₁) :=
    startBough_starts hw hempty hstart
  have hplays := (ht.yields_iff hw.conversation fun w₁ hstart => by
    obtain ⟨n, m', c₁, -, -, hw₁, hconfig₁, -⟩ := hstarts w₁ hstart
    exact ⟨c₁, hw₁.hosts.conversation, hw₁.started, hconfig₁⟩).mp hplay
  obtain ⟨w₁, hstart, hplay⟩ := hplays
  obtain ⟨n, m₁, c₁, rfl, hm₁, hw₁, hconfig₁, hspeakers₁, hview₁⟩ := hstarts w₁ hstart
  obtain ⟨m₁', hm₁', hparallel⟩ := Machine.parallel_resumed hw.isParsed hv.isParsed hcontainer hstate
    (hv.idle.1.trans hw.idle.1.symm) hsame hsaved hm₁
  obtain ⟨k, rfl⟩ : ∃ k', k = k' + 2 := ⟨k - 2, by omega⟩
  obtain ⟨v₁, d₁, hstart', hv₁, hconfig₁', -, hspeakers₁', hview₁'⟩ :=
    startBough_playing hv hphase hm₁' k
  obtain ⟨b, hb, heq⟩ := Machine.start_eq_ok hm₁
  have htandem : R.Tandem w₁ v₁ c₁ d₁ m₁ m₁' [] := by
    refine ⟨?_, ?_, hparallel, ?_, ?_, ?_, ?_, ⟨hspeakers₁.trans hspeakers, hspeakers₁'.trans hspeakers'⟩,
      hconfig₁.trans hconfig⟩
    · rw [List.append_nil, ← hsaid]
      exact hw₁
    · rw [List.append_nil, ← hsaid']
      exact hv₁
    · exact .of_globals (by rw [heq])
    · rw [heq]
    · rw [Machine.onRoute_running (congrArg Machine.state heq), hview₁, hanswers, heq, hentry b hb]
      exact .entry
    · rw [hview₁, hview₁', hanswers, hanswers']
  obtain ⟨v', hplay', hover⟩ := htandem.playSlices hr hplay (Nat.le_of_add_le_add_right hle)
    (show n + 2 ≤ k + 2 by omega)
  refine ⟨v', ?_, hover⟩
  refine (ht'.yields_iff hv.conversation fun v₂ hstart₂ => ?_).mpr ⟨v₁, hstart', ?_⟩
  · obtain ⟨-, rfl⟩ := hstart'.unique hstart₂
    exact ⟨d₁, hv₁.hosts.conversation, hv₁.started, hconfig₁'⟩
  · rw [hconfig', ← hconfig]
    exact hplay'

end Replay

/-- With the answers given, the data replays from its boughs of this name. -/
def CompiledData.Replays (data : CompiledData) (bough : String) (answers : List Nat) : Prop :=
  ∀ k b, Container.parse data.bytes = .ok k → k.bough? bough = some b →
    k.Replays b.entry.toNat answers

theorem CompiledData.along_of_follow {data : CompiledData} {answers : List Nat} {fuel : Nat}
    {P : Container → Instruction → Prop} {p : Container → Instruction → Bool}
    (hp : ∀ k i, p k i = true → P k i) (h : ((Container.parse data.bytes).map fun k =>
      (k.bough? bough).map fun b => k.follow (p k) fuel b.entry.toNat answers) = .ok (some true))
    (k : Container) (b : Bough) (hparse : Container.parse data.bytes = .ok k)
    (hb : k.bough? bough = some b) : k.Along (P k) b.entry.toNat answers := by
  rw [hparse, Except.map, hb, Except.ok.injEq, Option.map_some, Option.some.injEq] at h
  exact Container.along_of_follow (hp k) h

namespace Telling

open World

theorem plays_again {log : Severity → String → δ → δ} {view : δ → List Nat} {w w₁ w₂ : World (Story δ)}
    {responder : Responder δ} {externs : Externs (Story δ)} {data : CompiledData} {config : Config}
    {n fuel : Nat} {t : Telling δ Unit} (hw : Story.Reachable log w)
    (hlog : ∀ severity message x, view (log severity message x) = view x)
    (hspeakers : ∀ id speaker, w.host.speakers.get? id = some speaker → speaker.Discreet view)
    (hresponder : responder.Recites view) (hempty : w.host.state.isEmpty = true)
    (hstore : w.host.store = none) (hroom : w.arena.HasRoom)
    (hcreate : (create n externs data config).Yields w (.ok i) w₁)
    (hc : w₁.host.conversations[i]? = some c) (ht : Plays fuel i responder c bough t)
    (hplay : t.Yields w₁ (.ok ()) w₂) (hreplays : data.Replays bough (view w.host.host)) :
    ∃ lines, w₂.host.Ended i lines ∧
      (∀ x c' fuel' t', view x = view w.host.host → w₂.host.conversations[i]? = some c' →
        Plays fuel' i responder c' bough t' → fuel + 2 ≤ fuel' →
          ∃ v, t'.Yields (w₂.withOwn x) (.ok ()) v ∧ v.host.Ended i (lines ++ lines)) ∧
      ∀ x j v₁ d n' fuel' t', view x = view w.host.host → w₂.arena.HasRoom →
        (create n' externs data config).Yields w₂ (.ok j) v₁ → v₁.host.conversations[j]? = some d →
          Plays fuel' j responder d bough t' → fuel + 2 ≤ fuel' →
            ∃ v, t'.Yields (v₁.withOwn x) (.ok ()) v ∧ v.host.Ended j lines := by
  have hsettled := hw.settled hlog
  obtain ⟨k, c₁, hparse, hw₁, hphase, hconfig, -, hsaid, hstate, hcast, hview⟩ :=
    create_hosts hsettled hroom hstore hspeakers hcreate
  cases hw₁.conversation.symm.trans hc
  have hstanding := Externs.standing_provide data.externs externs.entries
    (Machine.create k : HostMachine (Story δ))
  generalize hm₀ : Externs.provide data.externs externs.entries
    (Machine.create k : HostMachine (Story δ)) = m₀ at hstanding hw₁
  have hempty₁ : w₁.host.state.isEmpty = true := hstate ▸ hempty
  have hcontainer : m₀.container = k := congrArg Standing.container hstanding
  have hready : m₀.state = .ready := congrArg Standing.state hstanding
  obtain ⟨w₃, hstart⟩ := ht.starts hc hplay
  obtain ⟨-, m₁, -, -, hm₁, -⟩ := startBough_starts hw₁ hempty₁ hstart
  obtain ⟨b, hb, -⟩ := Machine.start_eq_ok hm₁
  let R (j : Nat) (before : List SpokenLine) : Replay δ :=
    ⟨view, b.entry.toNat, view w.host.host, w.host.speakers, config, i, j, m₀, [], before,
      hcontainer ▸ hreplays k b hparse (hcontainer ▸ hb)⟩
  have hentry (b' : Bough) (hb' : m₀.container.bough? bough = some b') :
      b'.entry.toNat = b.entry.toNat := by
    rw [hb] at hb'
    cases hb'
    rfl
  have hagain (j : Nat) (before : List SpokenLine) {k : Nat} {v : World (Story δ)}
      {d : Conversation δ} {m : HostMachine (Story δ)} {s : Telling δ Unit} :=
    Replay.again (R := R j before) (v := v) (d := d) (m := m) (k := k) (s := s) hresponder
      hw₁ hconfig hsaid hempty₁ hcast hview hentry ht hplay
  -- Side by side with itself the first play shows where it ends.
  obtain ⟨w₄, -, hover⟩ := hagain i [] hw₁ (by simp [hphase]) (.inl hready) rfl
    (.of_globals rfl) hconfig hsaid (.inl hempty₁) hcast hview (.startBough bough) Nat.le.refl
  obtain ⟨⟨c₂, m₂, hw₂, hphase₂, hstate₂, hcontainer₂, hsame₂, hconfig₂, hsaved⟩, hcast₂, -⟩ := hover
  have hended {lines : List SpokenLine} (h : w₂.host.Ended i ([] ++ lines)) : lines = c₂.said := by
    obtain ⟨c', hc', -, hsaid'⟩ := h
    cases hw₂.conversation.symm.trans hc'
    exact hsaid'.symm
  refine ⟨c₂.said, ⟨c₂, hw₂.conversation, hphase₂, rfl⟩, ?_, ?_⟩
  · intro x c' fuel' t' hx hc' ht' hle
    cases hw₂.conversation.symm.trans hc'
    obtain ⟨v, hplay', -, -, lines, hfirst, hsecond⟩ := hagain i c₂.said
      (hw₂.own x) (by simp [hphase₂]) (.inr hstate₂) hcontainer₂ hsame₂ hconfig₂ rfl (.inr hsaved)
      hcast₂ hx ht' hle
    exact ⟨v, hplay', hended hfirst ▸ hsecond⟩
  · intro x j v₁ d n' fuel' t' hx hroom' hcreate' hd ht' hle
    obtain ⟨k', d', hparse', hv₁, hphase', hconfig', -, hsaid', hstate', hcast', hview'⟩ :=
      create_hosts hw₂.settled hroom' hw₂.store hw₂.quiet.speakers hcreate'
    cases hv₁.conversation.symm.trans hd
    cases hparse.symm.trans hparse'
    rw [hm₀] at hv₁
    obtain ⟨v, hplay', -, -, lines, hfirst, hsecond⟩ := hagain j []
      (hv₁.own x) (by simp [hphase']) (.inl hready) rfl (.of_globals rfl) hconfig' hsaid'
      (.inr (hstate' ▸ hsaved)) (hcast'.trans hcast₂) hx ht' hle
    exact ⟨v, hplay', hended hfirst ▸ hsecond⟩

def reciter : Responder (List Nat) where
  line _ answers := answers
  choose _ answers := (answers.headD 0, answers.tail)

theorem recites_reciter : reciter.Recites id := ⟨fun _ _ => rfl, fun _ _ => rfl, fun _ _ => rfl⟩

def engine (answers : List Nat) : World (Story (List Nat)) :=
  .create (Story.logging fun _ _ x => x) (Story.create answers)

theorem hasRoom_engine (answers : List Nat) : (engine answers).arena.HasRoom :=
  show 0 < UInt32.size by decide

def market : List Builder.Call :=
  [.scriptVariable "fed", .constant "town", .bough "main", .label, .label,
    .line "mara" "Bread or fish?" [], .choices [("Bread", 0), ("Fish", 1)],
    .bind 0, .set 0 (.bool true), .line "mara" "Fresh from the oven." [], .stop,
    .bind 1, .line "mara" "Caught at dawn." [], .stop]

theorem exists_yields {δ α : Type} {t : Telling δ α} {w : World (Story δ)}
    {f : Except StoryError α × World (Story δ) → Bool} (h : (t.run.run w).any f = true) :
    ∃ r w', t.Yields w r w' ∧ f (r, w') = true := by
  rw [Option.any_eq_true] at h
  obtain ⟨⟨r, w'⟩, hyields, hf⟩ := h
  exact ⟨r, w', hyields, hf⟩

theorem play_market : ∃ (data : CompiledData) (w₁ w₂ v₁ : World (Story (List Nat)))
    (c c₂ d : Conversation (List Nat)),
    (create 9 .empty data {}).Yields (engine [7, 1]) (.ok 0) w₁ ∧
      w₁.host.conversations[0]? = some c ∧ c.phase = .created ∧ c.config = {} ∧
      (play 9 0 reciter).Yields w₁ (.ok ()) w₂ ∧ data.Replays "main" [7, 1] ∧
      w₂.host.conversations[0]? = some c₂ ∧
      c₂.said.map (·.line.content) = ["Bread or fish?", "Caught at dawn."] ∧
      (create 9 .empty data {}).Yields w₂ (.ok 1) v₁ ∧ w₂.arena.HasRoom ∧
      v₁.host.conversations[1]? = some d ∧ d.phase = .created ∧ d.config = {} := by
  have h : ((Builder.run .offset market).build.map fun bytes =>
      (CompiledData.ofBytes bytes).map fun data =>
        (((Container.parse data.bytes).map fun k => (k.bough? "main").map fun b =>
          k.follow (fun i => decide (i.Replays k.globals)) 9 b.entry.toNat [7, 1]),
        ((create 9 .empty data {}).run.run (engine [7, 1])).any fun (r, w₁) =>
          decide (r = .ok 0) && (w₁.host.conversations[0]?).any (fun c =>
              decide (c.phase = .created ∧ c.config = {})) &&
            ((play 9 0 reciter).run.run w₁).any fun (r', w₂) =>
              decide (r' = .ok ()) && (w₂.host.conversations[0]?).any (fun c =>
                decide (c.said.map (·.line.content) = ["Bread or fish?", "Caught at dawn."])) &&
              decide (w₂.arena.slots.length < UInt32.size) &&
                ((create 9 .empty data {}).run.run w₂).any fun (r'', v₁) => decide (r'' = .ok 1) &&
                  (v₁.host.conversations[1]?).any (fun c =>
                    decide (c.phase = .created ∧ c.config = {})))) =
      .ok (.ok (.ok (some true), true)) := by
    decide +kernel
  obtain ⟨bytes, -, h⟩ := Except.map_eq_ok_iff.mp h
  obtain ⟨data, -, h⟩ := Except.map_eq_ok_iff.mp h.symm
  obtain ⟨hfollow, hplay⟩ := Prod.mk.inj h
  obtain ⟨r, w₁, hcreate, h⟩ := exists_yields hplay.symm
  simp only [Bool.and_eq_true, decide_eq_true_eq, Option.any_eq_true] at h
  obtain ⟨⟨rfl, c, hc, hphase, hconfig⟩, ⟨r', w₂⟩, hplay, h⟩ := h
  obtain ⟨⟨⟨rfl, c₂, hc₂, hlines⟩, hroom⟩, ⟨r'', v₁⟩, hcreate', h⟩ := h
  obtain ⟨rfl, d, hd, hphase', hconfig'⟩ := h
  exact ⟨data, w₁, w₂, v₁, c, c₂, d, hcreate, hc, hphase, hconfig, hplay,
    CompiledData.along_of_follow (fun _ _ => of_decide_eq_true) hfollow.symm, hc₂, hlines, hcreate',
    hroom, hd, hphase', hconfig'⟩

theorem plays_again_market : ∃ (data : CompiledData) (w₂ v v₁ v' : World (Story (List Nat)))
    (lines : List SpokenLine),
    lines.map (·.line.content) = ["Bread or fish?", "Caught at dawn."] ∧ w₂.host.Ended 0 lines ∧
      (do
        startBough 11 0 "main"
        play 11 0 reciter : Telling (List Nat) Unit).Yields (w₂.withOwn [7, 1]) (.ok ()) v ∧
      v.host.Ended 0 (lines ++ lines) ∧ (create 9 .empty data {}).Yields w₂ (.ok 1) v₁ ∧
      (play 11 1 reciter).Yields (v₁.withOwn [7, 1]) (.ok ()) v' ∧ v'.host.Ended 1 lines := by
  obtain ⟨data, w₁, w₂, v₁, c, c₂, d, hcreate, hc, hphase, hconfig, hplay, hreplays, hc₂, hlines,
    hcreate', hroom, hd, hphase', hconfig'⟩ := play_market
  have ht : Plays 9 0 reciter c "main" (play 9 0 reciter) := by
    have hbough : Plays 9 0 reciter c c.config.bough _ := .play hphase
    rwa [hconfig] at hbough
  have ht' : Plays 11 1 reciter d "main" (play 11 1 reciter) := by
    have hbough : Plays 11 1 reciter d d.config.bough _ := .play hphase'
    rwa [hconfig'] at hbough
  obtain ⟨lines, ⟨c₃, hc₃, hphase₃, hlines₃⟩, hrestart, hsecond⟩ := plays_again
    (.create _) (fun _ _ _ => rfl) (fun _ _ h => by cases h) recites_reciter rfl rfl
    (hasRoom_engine _) hcreate hc ht hplay hreplays
  cases hc₂.symm.trans hc₃
  obtain ⟨v, hv, hended⟩ := hrestart [7, 1] c₂ 11 _ rfl hc₂ (.startBough "main") (by decide)
  obtain ⟨v', hv', hended'⟩ := hsecond [7, 1] 1 v₁ d 9 11 _ rfl hroom hcreate' hd ht' (by decide)
  exact ⟨data, w₂, v, v₁, v', lines, hlines₃ ▸ hlines, ⟨c₂, hc₂, hphase₃, hlines₃⟩, hv, hended,
    hcreate', hv', hended'⟩

def oath : List Builder.Call :=
  [.constant "oath", .bough "main", .set 0 (.bool true), .line "mara" "Sworn." [], .stop]

/-- The constant has its value from the first time, which makes the second time fail. -/
theorem not_plays_again : ¬∀ {w w₁ w₂ v : World (Story (List Nat))} {responder : Responder (List Nat)}
    {data : CompiledData} {i n fuel fuel' : Nat} {r : Except StoryError Unit},
    Story.Reachable (fun _ _ x => x) w → responder.Recites id → w.host.state.isEmpty = true →
      w.host.store = none → w.arena.HasRoom → (create n .empty data {}).Yields w (.ok i) w₁ →
        (play fuel i responder).Yields w₁ (.ok ()) w₂ →
          (∀ k b, Container.parse data.bytes = .ok k → k.bough? "main" = some b →
            k.Along (·.isStraight = true) b.entry.toNat w.host.host) →
            (do
              startBough fuel' i "main"
              play fuel' i responder : Telling (List Nat) Unit).Yields (w₂.withOwn w.host.host) r v →
              r = .ok () := by
  intro hagain
  have h : ((Builder.run .offset oath).build.map fun bytes =>
      (CompiledData.ofBytes bytes).map fun data =>
        (((Container.parse data.bytes).map fun k => (k.bough? "main").map fun b =>
          k.follow Instruction.isStraight 9 b.entry.toNat []),
        ((create 9 .empty data {}).run.run (engine [])).any fun (r, w₁) =>
          decide (r = .ok 0) && ((play 9 0 reciter).run.run w₁).any fun (r', w₂) =>
            decide (r' = .ok ()) && ((do
              startBough 11 0 "main"
              play 11 0 reciter : Telling (List Nat) Unit).run.run (w₂.withOwn [])).any
                fun (r'', _) => decide (r'' ≠ .ok ()))) =
      .ok (.ok (.ok (some true), true)) := by
    decide +kernel
  obtain ⟨bytes, -, h⟩ := Except.map_eq_ok_iff.mp h
  obtain ⟨data, -, h⟩ := Except.map_eq_ok_iff.mp h.symm
  obtain ⟨hfollow, hplay⟩ := Prod.mk.inj h
  obtain ⟨r, w₁, hcreate, h⟩ := exists_yields hplay.symm
  simp only [Bool.and_eq_true, decide_eq_true_eq] at h
  obtain ⟨rfl, h⟩ := h
  obtain ⟨r', w₂, hplay, h⟩ := exists_yields h
  simp only [Bool.and_eq_true, decide_eq_true_eq] at h
  obtain ⟨rfl, h⟩ := h
  obtain ⟨r'', v, hsecond, h⟩ := exists_yields h
  simp only [decide_eq_true_eq] at h
  exact h (hagain (.create _) recites_reciter rfl rfl (hasRoom_engine _) hcreate hplay
    (CompiledData.along_of_follow (fun _ _ => id) hfollow.symm) hsecond)

end Telling

end Dialogue
