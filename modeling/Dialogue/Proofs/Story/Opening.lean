import Dialogue.Proofs.Story.Agreement

namespace Dialogue

open World (Hosts Twinned)

variable {n : Nat}

def World.opened {δ : Type} (handler : Severity → String → Story δ → Story δ) (host : δ)
    (state : Snapshot) (threshold : Severity) : World (Story δ) :=
  let w := World.create handler { Story.create host with state := state }
  { w with channel := { w.channel with threshold := threshold } }

def World.created {δ : Type} (w : World (Story δ)) (k : Container) (data : CompiledData)
    (config : Config) : World (Story δ) :=
  { w.enrolled k data config with
    host := (w.enrolled k data config).host.emit w.host.conversations.length
      (.created (w.arena.insert w.instances.length).1) }

theorem World.conversation_created {δ : Type} (k : Container) (data : CompiledData)
    (config : Config) (w : World (Story δ)) : ∃ c,
      (w.created k data config).host.conversations[w.host.conversations.length]? = some c ∧
        c.phase = .created := by
  simp [created, enrolled, Story.emit, Story.modify, Conversation.create, Conversation.emit]

theorem Telling.enroll_eq {δ : Type} {data : CompiledData} {config : Config} (w : World (Story δ)) :
    (enroll (n + 1) .empty data config).run.run w = match Container.parse data.bytes with
      | .error e => some (.error (.library (.format e)),
          w.report .error ("Failed to create VM: " ++ e.message))
      | .ok k => some (.ok w.host.conversations.length, w.created k data config) := by
  unfold enroll
  rw [run_bind, run_perform, World.exec]
  simp only [World.open?]
  cases Container.parse data.bytes <;> rfl

theorem Telling.create_zero {δ : Type} {data : CompiledData} {config : Config}
    (w : World (Story δ)) : (create 0 .empty data config).run.run w = none := by
  cases hseverity : config.severity with
  | none =>
    rw [create_of_none hseverity]
    rfl
  | some s =>
    rw [create_of_some hseverity]
    rfl

theorem Telling.create_opened {δ : Type} {data : CompiledData} {config : Config}
    (handler : Severity → String → Story δ → Story δ) (host : δ) (state : Snapshot)
    (threshold : Severity) :
    (create (n + 1) .empty data config).run.run (.opened handler host state threshold) =
      let w := World.opened handler host state (config.severity.getD threshold)
      match Container.parse data.bytes with
      | .error e => some (.error (.library (.format e)),
          w.report .error ("Failed to create VM: " ++ e.message))
      | .ok k => some (.ok 0, w.created k data config) := by
  refine Eq.trans ?_ (enroll_eq (n := n) (.opened handler host state (config.severity.getD threshold)))
  cases hseverity : config.severity with
  | none =>
    rw [create_of_none hseverity]
    rfl
  | some s =>
    rw [create_of_some hseverity, run_bind, run_perform]
    rfl

section

variable {δ δ' ν : Type} {view : δ → ν} {handler : Severity → String → Story δ → Story δ}
  {handler' : Severity → String → Story δ' → Story δ'} {k : Container} {data : CompiledData}

theorem World.hosts_opened (hd : Discreet view handler) (hparse : Container.parse data.bytes = .ok k)
    (config : Config) (host : δ) (state : Snapshot) (threshold : Severity) :
    Hosts view ((World.opened handler host state threshold).enrolled k data config) 0
      (.create ((Arena.empty : Arena Nat).insert 0).1 config data.externs)
      (Machine.create k : Machine Empty).hosted := by
  have hrest := atRest_create handler { Story.create host with state := state }
  have hroom : (Arena.empty : Arena Nat).HasRoom := show 0 < UInt32.size by decide
  rw [Machine.hosted, Machine.create_map]
  exact hosts_enrolled (w := .opened handler host state threshold) config
    ⟨hrest.congr rfl rfl, hd⟩ hroom rfl (fun _ _ h => by cases h) hparse

theorem Machine.unwatched_create (k : Container) : (create k : Machine Empty).Unwatched := by
  intro o ho
  simp only [outlines, create, List.map_map, List.mem_map] at ho
  obtain ⟨symbol, -, rfl⟩ := ho
  rfl

theorem World.twinned_created (hd : Discreet view handler) (hd' : Discreet (fun _ => ()) handler')
    (hparse : Container.parse data.bytes = .ok k) (config : Config) (host : δ) (host' : δ')
    (state : Snapshot) (threshold threshold' : Severity) :
    Twinned view 0 ((Arena.empty : Arena Nat).insert 0).1 (view host)
      ((World.opened handler host state threshold).created k data config)
      ((World.opened handler' host' state threshold').created k data config) := by
  have hfirst := hosts_opened hd hparse config host state threshold
  have hsecond := hosts_opened hd' hparse config host' state threshold'
  have henrolled : Twinned view 0 ((Arena.empty : Arena Nat).insert 0).1 (view host)
      ((World.opened handler host state threshold).enrolled k data config)
      ((World.opened handler' host' state threshold').enrolled k data config) :=
    ⟨_, _, .create k, ⟨hfirst, hsecond, ⟨⟨hfirst.conversation, hfirst.route, rfl, rfl, rfl⟩,
      ⟨hsecond.conversation, hsecond.route, rfl, rfl, rfl⟩, ⟨rfl, rfl, rfl, rfl⟩, rfl,
      fun name v h => by cases h⟩, rfl, nofun, Machine.unwatched_create k,
      fun _ _ => Nat.zero_le _⟩, rfl⟩
  exact henrolled.modify (edits_emit nofun)

end

end Dialogue
