import Dialogue.Proofs.Machine.Transition
import Dialogue.Proofs.Story.Awaiting
import Dialogue.Proofs.Story.Binding
import Dialogue.Proofs.Story.Completion

namespace Dialogue

variable {δ : Type} {w w' : World (Story δ)} {i : Nat} {c : Conversation δ} {b : Bough}
  {bough : String} {m : HostMachine (Story δ)}

structure World.Begins (i : Nat) (c : Conversation δ) (b : Bough) (w' : World (Story δ)) :
    Prop where
  conversation : ∃ c', w'.host.conversations[i]? = some c' ∧ c'.handle = c.handle ∧
    c'.phase = .started ∧ c'.pending = none ∧ c'.events = c.events ++ [.started b.name]
  machine : ∃ m', w'.machine? c.handle = some m' ∧ m'.state = .running ∧ m'.ip = b.entry.toNat ∧
    m'.container.bough? b.name = some b

namespace World

theorem bindNames_record {s : Story δ} (hc : s.conversations[i]? = some c) (h : Handle)
    (names : List String) : ∃ bindings,
      (s.bindNames i h names).conversations[i]? = some { c with bindings := bindings } := by
  cases hstore : s.store with
  | none => exact ⟨c.bindings, by rw [Story.bindNames, hstore]; exact hc⟩
  | some store => exact ⟨_, Story.bindNames_conversation hstore hc h names⟩

theorem begins_begun {m' : HostMachine (Story δ)} {x : δ} (hw : w.AtRest)
    (hc : w.host.conversations[i]? = some c) (hm : (w.prepared i c).machine? c.handle = some m)
    (hb : m.container.bough? bough = some b) (hstart : m.start bough = .ok m') :
    Begins i c b (((w.prepared i c).begun i c.handle m' bough).withOwn x) := by
  have hname : b.name = bough := by simpa using List.find?_some hb
  obtain ⟨b', hb', heq⟩ := Machine.start_eq_ok hstart
  obtain rfl : b = b' := Option.some.inj (hb.symm.trans hb')
  have hsound : (w.prepared i c).arena.Sound := (primes_prepared hw.sound i c).sound hw.sound
  obtain ⟨bindings, hown⟩ := bindNames_record hc c.handle ((w.host.unbound c).map (·.1))
  rw [← host_prepared] at hown
  subst hname
  refine ⟨⟨_, conversation_begun hown c.handle m' b.name, rfl, rfl, rfl, rfl⟩,
    m', machine?_begun hsound hm i m' b.name, ?_⟩
  rw [heq]
  exact ⟨rfl, rfl, hb⟩

end World

namespace Telling

variable {log : Severity → String → δ → δ}

/-- A bough of a conversation that is over can be started if and only if its machine has come to its
end as well, or has never run. Then it is told from its entry; otherwise the start fails, and leaves
the conversation as it prepared it. -/
theorem startBough_finished (hw : Story.Reachable log w)
    (hc : w.host.conversations[i]? = some c) (hphase : c.phase = .finished)
    (hm : w.machine? c.handle = some m) (hb : m.container.bough? bough = some b) (fuel : Nat) :
    ∃ r w', (startBough (fuel + 2) i bough).Yields w r w' ∧
      (r = .ok () ↔ m.state = .ready ∨ m.state = .finished) ∧
      (r = .ok () → World.Begins i c b w') ∧
      (r ≠ .ok () → r = .error (.startFailed bough) ∧ World.Refused i c w w') := by
  have hsettled : w.Settled fun _ => () := hw.settled fun _ _ _ => rfl
  obtain ⟨r, w', hr, -⟩ := completes_startBough fuel i bough w hw.atRest
  refine ⟨r, w', hr, ?_⟩
  obtain ⟨m₁, hm₁, hprimed⟩ := (World.primes_prepared hw.atRest.sound i c).machine m hm
    (World.machine?_isParsed hw.atRest hm)
  have hstate : m₁.state = m.state := congrArg Standing.state hprimed.standing
  have hb₁ : m₁.container.bough? bough = some b := by
    rw [show m₁.container = m.container from congrArg Standing.container hprimed.standing, hb]
  rcases startBough_outcome hsettled hr with ⟨hdestroyed, -⟩ | ⟨c', hc', -, hcases⟩
  · simp [hdestroyed c hc] at hphase
  · obtain rfl : c = c' := Option.some.inj (hc.symm.trans hc')
    rcases hcases with ⟨rfl, hsame, hno⟩ | ⟨m', m'', hm', hstart, rfl, hsame⟩
    · refine ⟨⟨nofun, fun hready => ?_⟩, nofun, fun _ => ⟨rfl, World.refused_of_same hw.atRest hsame⟩⟩
      obtain ⟨m', hstart⟩ := (Machine.isOk_start_iff m₁ bough).mpr ⟨hstate ▸ hready, b, hb₁⟩
      exact absurd hstart (hno m₁ m' hm₁)
    · obtain rfl : m₁ = m' := Option.some.inj (hm₁.symm.trans hm')
      obtain ⟨x, -, rfl⟩ := hsame
      refine ⟨⟨fun _ => hstate ▸ Machine.state_of_start hstart, fun _ => rfl⟩, fun _ => ?_,
        fun hne => absurd rfl hne⟩
      exact World.begins_begun hw.atRest hc hm₁ hb₁ hstart

/-- A conversation is finished while its machine waits, and cannot be started again. -/
theorem startBough_greeting : ∃ (w w' : World (Story Unit)) (c : Conversation Unit)
    (m : HostMachine (Story Unit)) (b : Bough), Story.Reachable (fun _ _ x => x) w ∧
      w.host.conversations[0]? = some c ∧ c.phase = .finished ∧ w.machine? c.handle = some m ∧
        m.state = .waiting .continuation ∧ m.container.bough? "main" = some b ∧
          (startBough 3 0 "main").Yields w (.error (.startFailed "main")) w' ∧
            World.Refused 0 c w w' := by
  let w₀ : World (Story Unit) := .create (Story.logging fun _ _ x => x) (.create ())
  have h : (do
      let bytes ← (Builder.run .offset greeting).build.toOption
      let data ← (CompiledData.ofBytes bytes).toOption
      let x ← (greet data).run.run w₀
      let y ← (finish 9 0).run.run x.2
      let c ← y.2.host.conversations[0]?
      let m ← y.2.machine? c.handle
      let b ← m.container.bough? "main"
      return (decide (x.1 = .ok ()), decide (c.phase = .finished),
        decide (m.state = .waiting .continuation), b.name)) = some (true, true, true, "main") := by
    decide +kernel
  obtain ⟨bytes, -, h⟩ := Option.bind_eq_some_iff.mp h
  obtain ⟨data, -, h⟩ := Option.bind_eq_some_iff.mp h
  obtain ⟨⟨r₁, w₁⟩, hgreet, h⟩ := Option.bind_eq_some_iff.mp h
  obtain ⟨⟨r₂, w⟩, hfinish, h⟩ := Option.bind_eq_some_iff.mp h
  obtain ⟨c, hc, h⟩ := Option.bind_eq_some_iff.mp h
  obtain ⟨m, hm, h⟩ := Option.bind_eq_some_iff.mp h
  obtain ⟨b, hb, h⟩ := Option.bind_eq_some_iff.mp h
  simp only [pure, Option.some.injEq, Prod.mk.injEq, decide_eq_true_eq] at h
  obtain ⟨rfl, hphase, hstate, -⟩ := h
  obtain ⟨_, v, hcreate, hrest⟩ := yields_bind_ok.mp hgreet
  obtain ⟨_, v', hstart, htick⟩ := yields_bind_ok.mp hrest
  have hv := Story.reachable_act 9 (.create .empty data {}) w₀ _ v (.create _) hcreate
  have hv' := Story.reachable_act 9 (.start 0) v _ v' hv hstart
  have hw₁ := Story.reachable_act 9 (.tick 0) v' _ w₁ hv' htick
  have hw := Story.reachable_act 9 (.finish 0) w₁ r₂ w hw₁ hfinish
  obtain ⟨r, w', hr, hok, -, hrefused⟩ := startBough_finished hw hc hphase hm hb 1
  have hfails : r ≠ .ok () := by
    rw [ne_eq, hok, hstate]
    simp
  obtain ⟨rfl, hsame⟩ := hrefused hfails
  exact ⟨w, w', c, m, b, hw, hc, hphase, hm, hstate, hb, hr, hsame⟩

end Telling

end Dialogue
