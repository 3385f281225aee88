import Dialogue.Proofs.Story.Abstention
import Dialogue.Proofs.Story.Conclusion

/-!
A round of a conversation, from its start to the tick that ends it: what its own acts do to its record
and to the state of its machine.
-/

namespace Dialogue

variable {δ : Type}

namespace StoryEvent

def asks : StoryEvent → Bool
  | line _ | choices _ => true
  | _ => false

def isChange : StoryEvent → Bool
  | changed .. => true
  | _ => false

end StoryEvent

theorem HearsAll.exists_changes {es : List Event} {c c' : Conversation δ} (h : HearsAll es c c')
    (hes : ∀ e ∈ es, e.isChange = true) :
    ∃ news, c'.events = c.events ++ news ∧ ∀ e ∈ news, e.isChange = true := by
  induction h with
  | nil c => exact ⟨[], by simp, by simp⟩
  | cons first rest ih =>
    rename_i e es c c₁ c'
    obtain ⟨he, hes⟩ := List.forall_mem_cons.mp hes
    obtain ⟨spoken, hfirst⟩ := first.events
    obtain ⟨news, hnews, hchanges⟩ := ih hes
    refine ⟨e.heard spoken :: news, by simp [hnews, hfirst], List.forall_mem_cons.mpr ⟨?_, hchanges⟩⟩
    cases e with
    | changed name v => rfl
    | line | choices => cases he

theorem exists_news {m : HostMachine (Story δ)} {c c' : Conversation δ} (hm : m.Announces)
    (h : HearsAll m.events c c') : ∃ changes : List StoryEvent, (∀ e ∈ changes, e.isChange = true) ∧
      (m.isWaiting = false ∧ c'.events = c.events ++ changes ∨
        m.isWaiting = true ∧ ∃ e slice, e.asks = true ∧ c'.events = c.events ++ changes ++ [e] ∧
          c'.pending = some slice ∧ slice.isWaiting = true) := by
  cases hm with
  | changes idle events =>
    obtain ⟨news, hnews, hchanges⟩ := h.exists_changes events
    exact ⟨news, hchanges, .inl ⟨idle, hnews⟩⟩
  | line state es changes l events =>
    rw [events] at h
    obtain ⟨c₁, hes, hl⟩ := h.last
    obtain ⟨news, hnews, hchanges⟩ := hes.exists_changes changes
    obtain ⟨spoken, hspoken⟩ := hl.events
    obtain ⟨spoken', hpending, -⟩ := hl.line l rfl
    refine ⟨news, hchanges, .inr ⟨Machine.isWaiting_iff.mpr ⟨_, state⟩, .line spoken, _, rfl, ?_,
      hpending, rfl⟩⟩
    rw [hspoken, hnews]
    rfl
  | choices state es changes events =>
    rw [events] at h
    obtain ⟨c₁, hes, hcs⟩ := h.last
    obtain ⟨news, hnews, hchanges⟩ := hes.exists_changes changes
    obtain ⟨spoken, hspoken⟩ := hcs.events
    refine ⟨news, hchanges, .inr ⟨Machine.isWaiting_iff.mpr ⟨_, state⟩, .choices m.pending, _, rfl, ?_,
      hcs.choices _ rfl, rfl⟩⟩
    rw [hspoken, hnews]
    rfl

namespace World

variable {h : Handle} {i k : Nat} {b c : Conversation δ} {state : MachineState}
  {w w' : World (Story δ)} {inst : Instance (Story δ)} {fuel : Nat} {op : Operation (Story δ)}
  {r : Reply}

theorem Untouched.arrive (hw : Untouched h i b (some state) w) (hop : op.Grants (.abstaining h))
    (hexec : World.exec fuel op w = some (r, w')) (hs : Scene h i k c inst w') :
    Untouched h i c.bare (some inst.machine.state) w' := by
  have hretains := retains_exec hw.orderly hop hexec
  exact ⟨heeding_exec hw.orderly hop hexec, atRest_exec hw.rest hexec, hretains.routed hw.routed,
    hs.handle, .here hs rfl (hretains.only (hw.only (by simp)))⟩

theorem Untouched.start {bough : String} (hw : Untouched h i b (some state) w)
    (hexec : World.exec fuel (.start h bough) w = some (r, w')) :
    r.isYes = true ∧ (state = .ready ∨ state = .finished) ∧ Untouched h i b (some .running) w' ∨
      r.isYes = false ∧ Untouched h i b (some state) w' := by
  obtain ⟨k, c, inst, hs, rfl, rfl, -⟩ := hw.scene
  rcases start_cases hw.rest hexec with ⟨m, m', hm, hstart, rfl, rfl⟩ | ⟨-, rfl, hlogs⟩
  · obtain rfl := Option.some.inj (hs.machine?.symm.trans hm)
    rw [modifyMachine_of_find (find_eq_of_get? hs.alive hs.found)] at hexec ⊢
    have hset : Scene h i k c { inst with machine := m' } (w.setInstance k { inst with machine := m' }) :=
      hs.set rfl
    have hw' := hw.arrive (by trivial) hexec hset
    obtain ⟨b, -, rfl⟩ := Machine.start_eq_ok hstart
    exact .inl ⟨rfl, Machine.state_of_start hstart, hw'⟩
  · exact .inr ⟨rfl, hw.arrive (by trivial) hexec (leaves_of_logs hw.orderly.handler hlogs c _ hs)⟩

theorem Untouched.answer (hw : Untouched h i b (some state) w) (hop : op.Answers h)
    (hexec : World.exec fuel op w = some (r, w')) :
    r.isYes = true ∧ (∃ kind, state = .waiting kind) ∧ Untouched h i b (some .running) w' ∨
      r.isYes = false ∧ Untouched h i b (some state) w' := by
  obtain ⟨k, c, inst, hs, rfl, rfl, -⟩ := hw.scene
  obtain ⟨inst', hs', hanswer⟩ := hs.answered hw.rest hw.orderly hop hexec
  have hw' := hw.arrive hop.grants hexec hs'
  rcases hanswer with ⟨hyes, hwaiting, hrunning⟩ | ⟨hno, hsame⟩
  · rw [hrunning] at hw'
    exact .inl ⟨hyes, Machine.isWaiting_iff.mp hwaiting, hw'⟩
  · rw [hsame] at hw'
    exact .inr ⟨hno, hw'⟩

theorem Untouched.run (hw : Untouched h i b (some .running) w)
    (hexec : World.exec fuel (.run h) w = some (r, w')) :
    ∃ (b' : Conversation δ) (m : HostMachine (Story δ)), Untouched h i b' (some m.state) w' ∧
      Concludes r.isYes m ∧ b'.phase = b.phase ∧ ∃ changes : List StoryEvent,
        (∀ e ∈ changes, e.isChange = true) ∧
        (m.isWaiting = false ∧ b'.events = b.events ++ changes ∨
          m.isWaiting = true ∧ ∃ e slice, e.asks = true ∧ b'.events = b.events ++ changes ++ [e] ∧
            b'.pending = some slice ∧ slice.isWaiting = true) := by
  obtain ⟨k, c, inst, hs, rfl, hrunning, hidle⟩ := hw.scene
  obtain ⟨c', inst', m, hs', hstate, hconcludes, hall⟩ := hs.ran hw.orderly hidle hrunning hexec
  have hw' := hw.arrive (by trivial) hexec hs'
  rw [hstate] at hw'
  exact ⟨c'.bare, m, hw', hconcludes, congrArg (·.2.2.2) hall.post,
    (exists_news hconcludes.announces hall :)⟩

end World

namespace Telling

open World

variable {h : Handle} {i : Nat} {b : Conversation δ} {state : MachineState} {w w' : World (Story δ)}
  {fuel : Nat}

theorem untouched_startBough {bough : String} {r : Except StoryError Unit}
    (hw : Untouched h i b (some state) w) (hr : (startBough fuel i bough).Yields w r w') :
    Untouched h i b (some state) w' ∨ (state = .ready ∨ state = .finished) ∧
      Untouched h i { b with pending := none, phase := .started, events := b.events ++ [.started bough] }
        (some .running) w' := by
  unfold startBough at hr
  rcases alive_bind hr with ⟨c, hc, -, hr⟩ | ⟨-, -, rfl⟩
  · have hhandle : c.handle = h := by
      obtain ⟨own, hown, rfl⟩ := hw.record
      obtain rfl : c = own := Option.some.inj (hc.symm.trans hown)
      exact hw.handle
    have hkeeps : Sustained (Untouched (δ := δ) h i b (some state)) := sustained_untouched
    rcases yields_bind.mp hr with ⟨_, w₁, hinject, hr⟩ | ⟨e, hinject, -⟩
    swap
    · exact .inl (hkeeps.inject fuel _ _ _ _ hw hinject)
    rcases yields_bind.mp hr with ⟨_, w₂, hbind, hr⟩ | ⟨e, hbind, -⟩
    swap
    · exact .inl (hkeeps.bindStore fuel c _ _ _ (hkeeps.inject fuel _ _ _ _ hw hinject) hbind)
    have hw₂ := hkeeps.bindStore fuel c _ _ _ (hkeeps.inject fuel _ _ _ _ hw hinject) hbind
    obtain ⟨a, w₃, hexec, hcases⟩ := yields_guard.mp hr
    rw [(hw.own hc).2] at hexec
    rcases hw₂.start hexec with ⟨hyes, hstate, hw₃⟩ | ⟨hno, hw₃⟩
    · obtain ⟨-, hr⟩ := hcases.resolve_right (by simp [hyes])
      obtain ⟨-, rfl⟩ := yields_update.mp hr
      rw [Story.emit, Story.clearPending, Story.modify_modify, Story.modify_modify]
      refine .inr ⟨hstate, hw₃.modify (f := fun c => { c with
        pending := none
        phase := .started
        events := c.events ++ [.started bough] }) (fun _ => rfl) fun _ => rfl⟩
    · obtain ⟨-, -, rfl⟩ := hcases.resolve_left (by simp [hno])
      exact .inl hw₃
  · exact .inl hw

theorem untouched_answer {e : StoryError} {op : Handle → Operation (Story δ)}
    {r : Except StoryError Unit} (hop : ∀ h, (op h).Answers h) (hw : Untouched h i b (some state) w)
    (hr : (alive i >>= fun c => performFlag fuel (op c.handle) >>= fun b =>
      if !b then throw e >>= fun _ : PUnit => update (·.clearPending i)
      else update (·.clearPending i)).Yields w r w') :
    (∃ e, r = .error e) ∧ Untouched h i b (some state) w' ∨
      r = .ok () ∧ (∃ kind, state = .waiting kind) ∧
        Untouched h i { b with pending := none } (some .running) w' := by
  rcases alive_bind hr with ⟨c, hc, -, hr⟩ | ⟨-, ⟨_, rfl⟩, rfl⟩
  · have hhandle : c.handle = h := by
      obtain ⟨own, hown, rfl⟩ := hw.record
      obtain rfl : c = own := Option.some.inj (hc.symm.trans hown)
      exact hw.handle
    obtain ⟨a, w₁, hexec, hcases⟩ := yields_guard.mp hr
    rw [(hw.own hc).2] at hexec
    rcases hw.answer (hop h) hexec with ⟨hyes, hstate, hw₁⟩ | ⟨hno, hw₁⟩
    · obtain ⟨-, hr⟩ := hcases.resolve_right (by simp [hyes])
      obtain ⟨rfl, rfl⟩ := yields_update.mp hr
      refine .inr ⟨rfl, hstate, ?_⟩
      exact hw₁.modify (f := fun c => { c with pending := none }) (fun _ => rfl) fun _ => rfl
    · obtain ⟨-, rfl, rfl⟩ := hcases.resolve_left (by simp [hno])
      exact .inl ⟨⟨e, rfl⟩, hw₁⟩
  · exact .inl ⟨⟨_, rfl⟩, hw⟩

theorem untouched_finish {r : Except StoryError Unit} (hw : Untouched h i b (some state) w)
    (hphase : b.phase = .started) (hr : (finish fuel i).Yields w r w') :
    r = .ok () ∧
      Untouched h i { b with phase := .finished, events := b.events ++ [.ended] } (some state) w' ∧
      ∃ m, w'.machine? h = some m ∧ w'.host.state.Holds m := by
  obtain ⟨k, c, inst, hs, rfl, rfl, -⟩ := hw.scene
  have hstarted : c.phase = .started := hphase
  have hm := hs.machine?
  rw [← hs.handle] at hm
  obtain ⟨m', hm', -, hholds⟩ := held_of_finish hw.rest hs.conversation hstarted hm hr
  obtain ⟨rfl, a, w₁, w₂, hexec, hunbind, rfl⟩ := finish_steps hw.rest hs.conversation hstarted hm hr
  have hkeeps : Sustained (Untouched (δ := δ) h i c.bare (some inst.machine.state)) :=
    sustained_untouched
  have hw₁ := (hkeeps.exec rfl hw hexec).even
    (w₁.host.even_silence (w₁.host.state.amend inst.machine.save.1) i)
  have hw₂ := hkeeps.unbindStore fuel c _ _ _ hw₁ hunbind
  rw [Story.emit, Story.modify_modify]
  rw [hs.handle] at hm'
  exact ⟨rfl, hw₂.modify (f := fun c => { c with
    phase := .finished
    events := c.events ++ [.ended] }) (fun _ => rfl) fun _ => rfl, m', hm', hholds⟩

end Telling

end Dialogue
