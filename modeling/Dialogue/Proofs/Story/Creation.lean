import Dialogue.Proofs.Story.Stage

namespace Dialogue

namespace Externs

variable {ε : Type}

def bindChange (h : Handle) (name : String) : Extern ε → Change ε
  | .value v => ⟨h, .flag false, fun m => (m.setExtern name v).map (.flag true, ·)⟩
  | .function arity body =>
    ⟨h, .flag false, fun m => (m.setFunction name arity body).map (.flag true, ·)⟩

theorem change?_bindOperation (h : Handle) (name : String) (e : Extern ε) :
    (bindOperation h name e).change? = some (bindChange h name e) := by
  cases e <;> rfl

theorem handle_bindChange (h : Handle) (name : String) (e : Extern ε) :
    (bindChange h name e).handle = h := by
  cases e <;> rfl

def provide (declared : List String) : List (String × Extern ε) → HostMachine ε → HostMachine ε
  | [], m => m
  | (name, e) :: rest, m =>
    provide declared rest
      (if declared.contains name then (bindChange default name e).effect m else m)

theorem effect_bindChange (h : Handle) (name : String) (e : Extern ε) :
    (bindChange h name e).effect = (bindChange default name e).effect := by
  cases e <;> rfl

theorem standing_bindChange (h : Handle) (name : String) (e : Extern ε) (m : HostMachine ε) :
    ((bindChange h name e).effect m).standing = m.standing := by
  cases e with
  | value v =>
    simp only [Change.effect, bindChange]
    cases hset : m.setExtern name v with
    | ok m' => exact (Machine.standing_setExtern hset :)
    | error e => rfl
  | function arity body =>
    simp only [Change.effect, bindChange]
    cases hset : m.setFunction name arity body with
    | ok m' => exact (Machine.standing_setFunction hset :)
    | error e => rfl

theorem standing_provide (declared : List String) (entries : List (String × Extern ε))
    (m : HostMachine ε) : (provide declared entries m).standing = m.standing := by
  induction entries generalizing m with
  | nil => rfl
  | cons entry entries ih =>
    obtain ⟨name, e⟩ := entry
    refine (ih _).trans ?_
    split
    · exact standing_bindChange default name e m
    · rfl

end Externs

namespace World

variable {δ ν : Type} {view : δ → ν} {w w' : World (Story δ)} {h : Handle}

theorem Same.modifyMachine (hs : Same view w w') (h : Handle)
    (f : HostMachine (Story δ) → HostMachine (Story δ)) :
    Same view (w.modifyMachine h f) (w'.modifyMachine h f) := by
  obtain ⟨x, hx, rfl⟩ := hs
  refine ⟨x, ?_, withOwn_modifyMachine w x h f⟩
  rw [hx, World.modifyMachine]
  split <;> rfl

theorem bindEntries_same {fuel n : Nat} {declared : List String}
    {entries : List (String × Extern (Story δ))} (hw : Settled view w)
    (hbind : Externs.bindEntries (exec fuel) h declared entries w = some (n, w')) :
    Same view (w.modifyMachine h (Externs.provide declared entries)) w' ∧ Settled view w' := by
  induction entries generalizing w n with
  | nil =>
    cases hbind
    refine ⟨?_, hw⟩
    have hid : Externs.provide declared [] = (id : HostMachine (Story δ) → _) := rfl
    rw [hid, modifyMachine_id]
    exact .refl _
  | cons entry entries ih =>
    obtain ⟨name, e⟩ := entry
    unfold Externs.bindEntries at hbind
    split at hbind
    · rename_i hdeclared
      have hnext {r : Reply} {w₁ : World (Story δ)} {n : Nat}
          (hexec : exec fuel (Externs.bindOperation h name e) w = some (r, w₁))
          (hrest : Externs.bindEntries (exec fuel) h declared entries w₁ = some (n, w')) :
          Same view (w.modifyMachine h (Externs.provide declared ((name, e) :: entries))) w' ∧
            Settled view w' := by
        have hchange := Externs.change?_bindOperation h name e
        obtain ⟨-, hsame, hw₁⟩ := hw.exec hchange hexec
        have haffect : w.affect (Externs.bindOperation h name e) =
            w.modifyMachine h (Externs.bindChange default name e).effect := by
          rw [World.affect, hchange, ← Externs.effect_bindChange h]
          simp only [Externs.handle_bindChange]
        rw [haffect] at hsame
        have hsame' := hsame.modifyMachine h (Externs.provide declared entries)
        rw [modifyMachine_modifyMachine] at hsame'
        have hprovide : Externs.provide declared ((name, e) :: entries) =
            Externs.provide declared entries ∘ (Externs.bindChange default name e).effect := by
          funext m
          exact congrArg _ (if_pos hdeclared)
        rw [hprovide]
        obtain ⟨hsame'', hw'⟩ := ih hw₁ hrest
        exact ⟨hsame'.trans hsame'', hw'⟩
      split at hbind
      · rename_i hexec
        obtain ⟨⟨n', w₁⟩, hrest, heq⟩ := Option.map_eq_some_iff.mp hbind
        cases heq
        exact hnext hexec hrest
      · rename_i hexec
        exact hnext hexec hbind
      · cases hbind
    · rename_i hundeclared
      have hsame := same_of_logs hw.discreet (logs_report w .warn
        ("Container of " ++ h.text ++ " declares no extern `" ++ name ++ "`, skipping binding"))
      have hprovide : Externs.provide declared ((name, e) :: entries) =
          (Externs.provide declared entries : HostMachine (Story δ) → _) := by
        funext m
        exact congrArg _ (if_neg hundeclared)
      rw [hprovide]
      obtain ⟨hsame', hw'⟩ := ih (hsame.settled hw) hbind
      exact ⟨(hsame.modifyMachine h _).trans hsame', hw'⟩

def enrolled (w : World (Story δ)) (k : Container) (data : CompiledData) (config : Config) :
    World (Story δ) :=
  let (h, arena) := w.arena.insert w.instances.length
  { w with
    arena := arena
    instances := w.instances ++ [⟨.create k, Story.dispatch, false, false⟩]
    host := { w.host with
      conversations := w.host.conversations ++ [.create h config data.externs]
      routes := (h, w.host.conversations.length) :: w.host.routes.filter (·.1 != h) } }

theorem exec_create_parsed {k : Container} {data : CompiledData} (config : Config)
    (hparse : Container.parse data.bytes = .ok k) (fuel : Nat) :
    exec (fuel + 1) (.create data.bytes Story.dispatch) w =
      some (.created (.ok (w.arena.insert w.instances.length).1),
        { w.enrolled k data config with host := w.host }) := by
  rw [exec]
  simp only [World.open?, hparse, World.enrolled]

theorem hosts_enrolled {k : Container} {data : CompiledData} (config : Config)
    (hw : Settled view w) (hroom : w.arena.HasRoom) (hstore : w.host.store = none)
    (hspeakers : ∀ id speaker, w.host.speakers.get? id = some speaker → speaker.Discreet view)
    (hparse : Container.parse data.bytes = .ok k) :
    Hosts view (w.enrolled k data config) w.host.conversations.length
      (.create (w.arena.insert w.instances.length).1 config data.externs) (.create k) := by
  have hrest : (w.enrolled k data config).AtRest :=
    (atRest_exec hw.rest (exec_create_parsed config hparse 0)).congr rfl rfl
  have hget : (w.enrolled k data config).arena.get? (w.arena.insert w.instances.length).1 =
      some w.instances.length := Arena.get?_insert_self hw.rest.sound hroom
  refine ⟨⟨hrest, hw.discreet⟩, ?_, ⟨w.instances.length, ⟨.create k, Story.dispatch, false, false⟩,
    find_eq_of_get? hget ?_, rfl, rfl⟩, ?_, hstore, hspeakers, fun _ h => by cases h⟩
  · simp [enrolled]
  · simp [enrolled]
  · simp [enrolled, Story.route?, Conversation.create]

end World

namespace Telling

open World

variable {δ ν : Type} {view : δ → ν} {w w' : World (Story δ)} {h : Handle}

theorem enroll_cases {fuel : Nat} {externs : Externs (Story δ)} {data : CompiledData}
    {config : Config} {r : Except StoryError Nat}
    (hr : (enroll fuel externs data config).Yields w r w') :
    (∃ a message e, exec fuel (.create data.bytes Story.dispatch) w = some (a, w') ∧
        w' = w.report .error message ∧ r = .error e) ∨
      ∃ k n w₁, Container.parse data.bytes = .ok k ∧
        externs.bind (exec fuel) (w.arena.insert w.instances.length).1 data.externs
          (w.enrolled k data config) = some (n, w₁) ∧ r = .ok w.host.conversations.length ∧
        w' = { w₁ with
          host := w₁.host.emit w.host.conversations.length
            (.created (w.arena.insert w.instances.length).1) } := by
  unfold enroll at hr
  obtain ⟨a, w₁, hexec, hr⟩ := yields_perform_bind.mp hr
  rcases fuel with _ | fuel
  · cases hexec
  cases hparse : Container.parse data.bytes with
  | error e =>
    have hfailed := hexec
    rw [exec] at hfailed
    simp only [World.open?, hparse] at hfailed
    cases hfailed
    obtain ⟨rfl, rfl⟩ := yields_throw.mp hr
    exact .inl ⟨_, _, _, hexec, rfl, rfl⟩
  | ok k =>
    rw [exec_create_parsed config hparse] at hexec
    cases hexec
    simp only [yields_story_bind, yields_update_bind] at hr
    rcases yields_bind.mp hr with ⟨n, w₁, hbound, hr⟩ | ⟨e, hbound, -⟩
    · rw [yields_update_bind] at hr
      obtain ⟨rfl, rfl⟩ := yields_pure.mp hr
      obtain ⟨n', hbind, -⟩ := yields_bounded.mp hbound
      exact .inr ⟨k, n', w₁, rfl, hbind, rfl, rfl⟩
    · obtain ⟨n, -, heq⟩ := yields_bounded.mp hbound
      cases heq

theorem enrolls_of_create {fuel : Nat} {externs : Externs (Story δ)} {data : CompiledData}
    {config : Config} {r : Except StoryError Nat}
    (hr : (create fuel externs data config).Yields w r w') :
    ∃ w₁, (w₁ = w ∨ ∃ s a, exec fuel (.setSeverity s) w = some (a, w₁)) ∧ w₁.arena = w.arena ∧
      (enroll fuel externs data config).Yields w₁ r w' := by
  cases hseverity : config.severity with
  | none =>
    rw [create_of_none hseverity] at hr
    exact ⟨w, .inl rfl, rfl, hr⟩
  | some s =>
    rw [create_of_some hseverity] at hr
    obtain ⟨a, w₁, hexec, hr⟩ := yields_perform_bind.mp hr
    refine ⟨w₁, .inr ⟨s, a, hexec⟩, ?_, hr⟩
    rcases fuel with _ | fuel <;> cases hexec
    rfl

theorem enroll_hosts {fuel i : Nat} {externs : Externs (Story δ)} {data : CompiledData}
    {config : Config} (hw : Settled view w) (hroom : w.arena.HasRoom) (hstore : w.host.store = none)
    (hspeakers : ∀ id speaker, w.host.speakers.get? id = some speaker → speaker.Discreet view)
    (hr : (enroll fuel externs data config).Yields w (.ok i) w') :
    ∃ k c, Container.parse data.bytes = .ok k ∧
      Hosts view w' i c (Externs.provide data.externs externs.entries (.create k)) ∧
      c.phase = .created ∧ c.config = config ∧ c.pending = none ∧ c.said = [] ∧
      w'.host.state = w.host.state ∧ w'.host.speakers = w.host.speakers ∧
      view w'.host.host = view w.host.host := by
  unfold enroll at hr
  obtain ⟨r, w₁, hexec, hr⟩ := yields_perform_bind.mp hr
  rcases fuel with _ | fuel
  · cases hexec
  rw [exec] at hexec
  simp only [World.open?] at hexec
  split at hexec
  · cases hexec
    cases (yields_throw.mp hr).1
  · rename_i k hparse
    cases hexec
    simp only [yields_story_bind, yields_update_bind] at hr
    have henrolled := hosts_enrolled config hw hroom hstore hspeakers hparse
    obtain ⟨n, w₂, hbound, hr⟩ := yields_bind_ok.mp hr
    obtain ⟨_, w₃, hemit, hr⟩ := yields_bind_ok.mp hr
    obtain ⟨n', hbind, -⟩ := yields_bounded.mp hbound
    obtain ⟨-, rfl⟩ := yields_update.mp hemit
    obtain ⟨hi, rfl⟩ := yields_pure.mp hr
    cases hi
    obtain ⟨hsame, hw₂⟩ := bindEntries_same henrolled.settled hbind
    have hprovided := henrolled.modifyMachine (hsame.symm.settled hw₂)
    obtain ⟨x, hx, rfl⟩ := hsame
    have hown := hprovided.own x
    have hturns : Story.Turns view .. := Story.turns_modify
      (f := (·.emit (.created (w.arena.insert w.instances.length).1))) hown.conversation rfl
    have hemitted := hown.restage hturns.conversation rfl rfl rfl
      ⟨hown.quiet.speakers, hown.quiet.speaking⟩
    have hhost := host_modifyMachine (w.enrolled k data config)
      (w.arena.insert w.instances.length).1 (Externs.provide data.externs externs.entries)
    refine ⟨k, _, hparse, hemitted, rfl, rfl, rfl, rfl, ?_, ?_, hx.trans ?_⟩
    · exact (congrArg Story.state hhost :)
    · exact (congrArg Story.speakers hhost :)
    · exact (congrArg (fun s => view s.host) hhost :)

theorem create_hosts {fuel i : Nat} {externs : Externs (Story δ)} {data : CompiledData}
    {config : Config} (hw : Settled view w) (hroom : w.arena.HasRoom) (hstore : w.host.store = none)
    (hspeakers : ∀ id speaker, w.host.speakers.get? id = some speaker → speaker.Discreet view)
    (hr : (create fuel externs data config).Yields w (.ok i) w') :
    ∃ k c, Container.parse data.bytes = .ok k ∧
      Hosts view w' i c (Externs.provide data.externs externs.entries (.create k)) ∧
      c.phase = .created ∧ c.config = config ∧ c.pending = none ∧ c.said = [] ∧
      w'.host.state = w.host.state ∧ w'.host.speakers = w.host.speakers ∧
      view w'.host.host = view w.host.host := by
  cases hseverity : config.severity with
  | none =>
    rw [create_of_none hseverity] at hr
    exact enroll_hosts hw hroom hstore hspeakers hr
  | some s =>
    rw [create_of_some hseverity] at hr
    obtain ⟨r, w₁, hexec, hr⟩ := yields_perform_bind.mp hr
    rcases fuel with _ | fuel
    · cases hexec
    · cases hexec
      have hw₁ : Settled view { w with channel := { w.channel with threshold := s } } :=
        ⟨hw.rest.congr rfl rfl, hw.discreet⟩
      exact (enroll_hosts hw₁ hroom hstore hspeakers hr :)

end Telling

end Dialogue
