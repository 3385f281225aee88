import Dialogue.Proofs.Story.Deference

namespace Dialogue

theorem Operation.change?_stays {δ : Type} {op : Operation (Story δ)} {c : Change (Story δ)}
    (hc : op.change? = some c) (hop : ¬op.Answers c.handle) {m m' : HostMachine (Story δ)}
    {r : Reply} (h : c.apply m = .ok (r, m')) : Machine.Stays m m' := by
  cases op <;> cases hc
  case selectContinue => exact absurd .line hop
  case selectChoice index => exact absurd (.choice index) hop
  case unsubscribe h' name =>
    cases h
    exact Machine.stays_unsubscribe m name
  case load h' snapshot =>
    cases h
    exact Machine.stays_of_standing (Machine.standing_loadEntries m snapshot.entries)
  case declareEnum | save =>
    cases h
    exact ⟨rfl, rfl, rfl⟩
  all_goals
    obtain ⟨m₁, h₁, heq⟩ := Except.map_eq_ok_iff.mp h
    cases heq
  case subscribe => exact Machine.stays_of_standing (Machine.standing_subscribe h₁)
  case setExtern => exact Machine.stays_of_standing (Machine.standing_setExtern h₁)
  case setFunction => exact Machine.stays_of_standing (Machine.standing_setFunction h₁)

namespace World

open Story (Aside Retains Spares)

variable {δ : Type} {h h' : Handle} {i k k' : Nat} {w w' : World (Story δ)} {c c' : Conversation δ}
  {inst inst' : Instance (Story δ)} {K : Operation (Story δ) → Prop} {hK : Reserves h K}

theorem heeding_create {handler : Severity → String → Story δ → Story δ} (s : Story δ)
    (hhandler : ∀ severity message s, Spares h s (handler severity message s)) :
    Heeding hK none (.create handler s) := by
  have hrest := atRest_create handler s
  exact ⟨hhandler, by simp [World.create], by simp [World.create], by simp [World.create], hrest.sound,
    hrest.housed⟩

theorem heeding_exec {fuel : Nat} {op : Operation (Story δ)} {r : Reply} (hw : Heeding hK none w)
    (hop : op.Grants (.sparing K h)) (hexec : exec fuel op w = some (r, w')) :
    Heeding hK none w' :=
  (Conduct.preserves_exec (C := hK.conduct) ⟨trivial, hop⟩ hexec hw).1

theorem retains_exec {fuel : Nat} {op : Operation (Story δ)} {r : Reply} (hw : Heeding hK none w)
    (hop : op.Grants (.sparing K h)) (hexec : exec fuel op w = some (r, w')) :
    Retains h w.host w'.host :=
  (Conduct.preserves_exec (C := hK.conduct) ⟨trivial, hop⟩ hexec hw).2.host

theorem preserves_reaction {fuel : Nat} {r : Reaction (Story δ)} {x : HostResult}
    (hr : r.Upholds hK.conduct.operation (Retains h w.host) w.host)
    (hperform : r.perform (exec fuel) w = some (x, w')) : hK.conduct.Preserves none none w w' :=
  Conduct.preserves_perform (fun hop hexec => Conduct.preserves_exec hop hexec) r w hr hperform

theorem heeding_store {op : Operation (Story δ)} {ch : Change (Story δ)}
    {m : HostMachine (Story δ)} {r : Reply} (hw : Heeding hK (some k) w)
    (hinst : w.instances[k]? = some inst) (hc : op.change? = some ch)
    (hop : op.Grants (.sparing K h)) (happly : ch.apply inst.machine = .ok (r, m)) :
    Heeding hK (some k) (w.setInstance k { inst with machine := m }) := by
  have hframe := Operation.change?_frame hc happly
  refine (Conduct.preserves_set hinst ?_ ?_ (.inl rfl) hw).1
  · simp [Instance.profile, hframe]
  · refine Operation.change?_bodies hc (fun heq => ?_) happly
    subst heq
    exact hop

theorem Scene.ne_of_find (hs : Scene h i k c inst w) (hw : Heeding hK none w) (hne : h' ≠ h)
    (hget : w.arena.get? h' = some k') : k' ≠ k := by
  rintro rfl
  exact hne (hw.sound.injective h' h k' hget hs.alive)

/-- The instance after a step whose events are still to be delivered: who hears of them will be in
accord with its machine. -/
structure Prepares (c : Conversation δ) (inst inst' : Instance (Story δ)) : Prop where
  busy : inst'.busy = inst.busy
  dispatching : inst'.dispatching = inst.dispatching
  accord : ∀ c' told, HearsAll inst'.machine.events c c' → Accord told c inst.machine →
    Accord told c' inst'.machine

/-- A run that succeeds gets the machine to where it waits, or to its end; one that fails halts it.
What it announces is that it waits, if it does. -/
structure Concludes (succeeds : Bool) (m : HostMachine (Story δ)) : Prop where
  announces : m.Announces
  ends : succeeds = true ∧ (m.state = .finished ∨ m.isWaiting = true) ∨
    succeeds = false ∧ m.state = .faulted

theorem concludes_run {σ : Type} {n : Nat} {s s' : σ} {m m' : HostMachine (Story δ)} {ended : RunEnd}
    {host : (List Value → Reaction (Story δ)) → List Value → σ → Option (HostResult × σ)}
    (hrunning : m.state = .running) (htaken : m.events = [])
    (hrun : m.run host n s = some (ended, m', s')) :
    Concludes ((conclude m' ended).1.toOption.getD false) (conclude m' ended).2 := by
  obtain ⟨hannounces, hidle⟩ := Machine.announces_run hrunning htaken hrun
  rw [Machine.run_of_running hrunning] at hrun
  have hends := Machine.ends_steps (Machine.alive_of_running hrunning) hrun
  cases ended with
  | paused => exact ⟨hannounces, .inl ⟨rfl, hends⟩⟩
  | error e => exact ⟨hannounces, .inr ⟨rfl, hends⟩⟩
  | panic message => exact ⟨hannounces.halt (hidle.resolve_left (by simp)), .inr ⟨rfl, rfl⟩⟩

theorem Scene.hear (hs : Scene h i k c inst w) (e : Event) :
    ∃ c', Scene h i k c' inst { w with host := w.host.hear i e } ∧ c.Hears e c' := by
  obtain ⟨c', hc', hhears⟩ := Story.hears_hear hs.conversation e
  have hstirs := Story.stirs_hear w.host i e
  have hretains : Retains h w.host (w.host.hear i e) := hstirs.retains
  refine ⟨c', ⟨hc', ?_, hretains.routed hs.routed, ?_, hs.alive, hs.found, hs.callbacks⟩, hhears⟩
  · exact (congrArg (·.1) hhears.post).trans hs.handle
  · rw [Story.route?, hstirs.routes]
    exact hs.route

theorem Scene.flush_taken {perform : Reaction (Story δ) → World (Story δ) →
      Option (HostResult × World (Story δ))} {fuel : Nat} (hs : Scene h i k c inst w)
    (htaken : inst.machine.events = []) (hw : w.Considerate h)
    (hf : flush perform h k fuel w = some w') :
    ∃ inst', Scene h i k c inst' w' ∧ inst'.machine.events = [] ∧ Stands inst inst' := by
  cases fuel with
  | zero => cases hf
  | succ fuel =>
    cases hbusy : inst.busy with
    | true =>
      rw [flush, hs.found] at hf
      simp only [hbusy, if_true, Option.some.injEq] at hf
      exact hf ▸ ⟨inst, hs, htaken, rfl, rfl, rfl, rfl⟩
    | false =>
      have hempty : (w.collect k inst).1 = [] := by
        rw [collect_events, htaken, ite_self]
      rw [flush_succ hs.found hbusy, hempty, collect_snd] at hf
      simp only [List.isEmpty_nil, if_true, Option.some.injEq] at hf
      have hdrained : Scene h i k c inst.drained (w.setInstance k inst.drained) := hs.set rfl
      subst hf
      have hleaves := leaves_reports (w := w.setInstance k inst.drained) (i := i) (k := k) hw
        inst.machine.diagnostics
      refine ⟨inst.drained, hleaves c _ hdrained, ?_, rfl, rfl, rfl, rfl⟩
      simp [Instance.drained, htaken]

section

variable {fuel : Nat}
variable (hexec : ∀ {op : Operation (Story δ)} {w r w'}, (Discipline.sparing K h).Permits op →
  Heeding hK none w → exec fuel op w = some (r, w') → Follows K h i k w w')

include hexec

theorem follows_perform {x : HostResult} : ∀ (r : Reaction (Story δ)) (w : World (Story δ)),
    r.Within (Discipline.sparing K h).Permits (Aside h i) → Heeding hK none w →
      r.perform (exec fuel) w = some (x, w') → Follows K h i k w w'
  | .done v, w => by
    intro _ _ hr
    cases hr
    exact .refl h i k _
  | .panic message, w => by
    intro _ _ hr
    cases hr
    exact .refl h i k _
  | .update f next, w => by
    intro hwithin hw hr
    have haside := hwithin.1 w.host
    exact (leaves_host haside).follows.trans
      (follows_perform next _ hwithin.2 (hw.host _) hr)
  | .inspect next, w => by
    intro hwithin hw hr
    exact follows_perform (next w.host) w (hwithin w.host) hw hr
  | .call op next, w => by
    intro hwithin hw hr
    rw [Reaction.perform] at hr
    split at hr
    · rename_i r w₁ hop
      exact (hexec hwithin.1 hw hop).trans
        (follows_perform (next r) w₁ (hwithin.2 r) (heeding_exec hw hwithin.1.2 hop) hr)
    · cases hr

theorem perform_tell {name : String} {v : Value} {told : List Handle} {last : Reaction (Story δ)}
    {x : HostResult} (hw : Heeding hK none w)
    (hr : (Story.tell name v told last).perform (exec fuel) w = some (x, w')) :
    ∃ w₁, Heeding hK none w₁ ∧ Follows K h i k w w₁ ∧
      last.perform (exec fuel) w₁ = some (x, w') := by
  induction told generalizing w with
  | nil => exact ⟨w, hw, .refl h i k w, hr⟩
  | cons h' told ih =>
    change (Reaction.call _ fun _ => Story.tell name v told last).perform _ w = _ at hr
    rw [Reaction.perform] at hr
    split at hr
    · rename_i r w₁ hop
      have htells : (Discipline.sparing K h).Permits (.setExtern h' name v) :=
        ⟨hK.tells h' name v, trivial⟩
      obtain ⟨w₂, hw₂, hfollows, hlast⟩ := ih (heeding_exec hw htells.2 hop) hr
      exact ⟨w₂, hw₂, (hexec htells hw hop).trans hfollows, hlast⟩
    · cases hr

theorem perform_dispatch {e : Event} {x : HostResult} (hw : Heeding hK none w)
    (hr : (Story.dispatch h' e).perform (exec fuel) w = some (x, w')) :
    x = .value .nil ∧ ∃ w₁, Heeding hK none w₁ ∧ Follows K h i k w w₁ ∧
      (w.host.route? h' = none ∧ w' = w₁ ∨
        ∃ j, w.host.route? h' = some j ∧ w' = { w₁ with host := w₁.host.hear j e }) := by
  rw [Story.dispatch, Reaction.perform] at hr
  cases hroute : w.host.route? h' with
  | none =>
    simp only [hroute] at hr
    rw [Reaction.perform] at hr
    split at hr
    · rename_i hop
      cases hr
      have hreports : (Discipline.sparing K h).Permits (.report .error
        ("No session for " ++ h'.text ++ ", dropping " ++ Story.eventKind e)) :=
        ⟨hK.reports _ _, trivial⟩
      exact ⟨rfl, w', heeding_exec hw hreports.2 hop, hexec hreports hw hop, .inl ⟨rfl, rfl⟩⟩
    · cases hr
  | some j =>
    simp only [hroute] at hr
    cases e with
    | line l =>
      cases hr
      exact ⟨rfl, w, hw, .refl h i k w, .inr ⟨j, rfl, rfl⟩⟩
    | choices cs =>
      cases hr
      exact ⟨rfl, w, hw, .refl h i k w, .inr ⟨j, rfl, rfl⟩⟩
    | changed name v =>
      have hlast {w : World (Story δ)} (hr : (Reaction.update (·.emit j (.changed name v))
          (.done .nil)).perform (exec fuel) w = some (x, w')) :
          x = .value .nil ∧ w' = { w with host := w.host.hear j (.changed name v) } := by
        cases hr
        exact ⟨rfl, rfl⟩
      simp only [Story.changed] at hr
      split at hr
      · split at hr
        · rename_i store told _
          rw [Reaction.perform] at hr
          have haside : Aside h i w.host { w.host with store := some store } :=
            Story.aside_same rfl rfl
          have hw₁ := hw.host { w.host with store := some store }
          obtain ⟨w₂, hw₂, hfollows, hr⟩ := perform_tell hexec hw₁ hr
          obtain ⟨hx, hw'⟩ := hlast hr
          exact ⟨hx, w₂, hw₂, (leaves_host haside).follows.trans hfollows, .inr ⟨j, rfl, hw'⟩⟩
        · obtain ⟨hx, hw'⟩ := hlast hr
          exact ⟨hx, w, hw, .refl h i k w, .inr ⟨j, rfl, hw'⟩⟩
      · obtain ⟨hx, hw'⟩ := hlast hr
        exact ⟨hx, w, hw, .refl h i k w, .inr ⟨j, rfl, hw'⟩⟩

theorem follows_callback {callbacks : Handle → Event → Reaction (Story δ)} {e : Event}
    {x : HostResult} (hcallbacks : hK.conduct.callbacks callbacks) (hne : h' ≠ h)
    (hw : Heeding hK none w) (hr : (callbacks h' e).perform (exec fuel) w = some (x, w')) :
    Follows K h i k w w' := by
  rcases hcallbacks with rfl | hobeys
  · obtain ⟨-, w₁, -, hfollows, ⟨-, rfl⟩ | ⟨j, hroute, rfl⟩⟩ := perform_dispatch hexec hw hr
    · exact hfollows
    · intro c inst hs
      -- The route of the other machine leads to its own conversation.
      have hj : i ≠ j := by
        rintro rfl
        obtain ⟨c', hc', hhandle⟩ := hs.routed h' i hroute
        rw [hs.conversation, Option.some.injEq] at hc'
        rw [← hc', hs.handle] at hhandle
        exact hne hhandle.symm
      have haside : Aside h i w₁.host (w₁.host.hear j e) := (Story.stirs_hear _ j e).aside hj
      exact (hfollows.trans (leaves_host haside).follows) c inst hs
  · exact follows_perform hexec _ w
      (Discipline.within_of_obeys (d := .sparing K h) (fun hs => hs.aside i) (hobeys h' e)) hw hr

theorem follows_deliver {callbacks : Handle → Event → Reaction (Story δ)} {events : List Event}
    {x : Option (Option String)} (hcallbacks : hK.conduct.callbacks callbacks)
    (hne : h' ≠ h) (hw : Heeding hK none w)
    (hd : deliver (Reaction.perform (exec fuel)) (callbacks h') events w = some (x, w')) :
    Follows K h i k w w' := by
  induction events generalizing w with
  | nil =>
    cases hd
    exact .refl h i k _
  | cons e events ih =>
    have hupholds := hK.conduct.upholds_of_callbacks hcallbacks h' e w.host
    rw [deliver] at hd
    split at hd
    · rename_i w₁ he
      exact (follows_callback hexec hcallbacks hne hw he).trans
        (ih (preserves_reaction hupholds he hw).1 hd)
    · rename_i he
      cases hd
      exact follows_callback hexec hcallbacks hne hw he
    · cases hd

theorem Scene.deliver {events : List Event} {x : Option (Option String)}
    (hs : Scene h i k c inst w) (htaken : inst.machine.events = []) (hd : inst.dispatching = true)
    (hw : Heeding hK none w)
    (hdeliver : deliver (Reaction.perform (exec fuel)) (Story.dispatch h) events w = some (x, w')) :
    x = none ∧ ∃ c' inst', Scene h i k c' inst' w' ∧ inst'.machine.events = [] ∧
      Stands inst inst' ∧ HearsAll events c c' := by
  induction events generalizing w c inst with
  | nil =>
    cases hdeliver
    exact ⟨rfl, c, inst, hs, htaken, ⟨rfl, rfl, rfl, rfl⟩, .nil c⟩
  | cons e events ih =>
    rw [World.deliver] at hdeliver
    split at hdeliver
    · rename_i v w₁ he
      obtain ⟨-, w₂, hw₂, hfollows, hend⟩ := perform_dispatch hexec hw he
      obtain ⟨c₂, inst₂, hs₂, htaken₂, hattends⟩ := hfollows c inst hs htaken
      obtain ⟨rfl, hstands⟩ := hattends.occupied (.inr (.inl hd))
      obtain ⟨j, hroute, rfl⟩ := hend.resolve_left (by simp [hs.route])
      rw [hs.route, Option.some.injEq] at hroute
      subst hroute
      obtain ⟨c₃, hs₃, hhears⟩ := hs₂.hear e
      obtain ⟨hx, c', inst', hs', htaken', hstands', hall⟩ := ih hs₃ htaken₂
        (hstands.dispatching.trans hd) (hw₂.host _) hdeliver
      exact ⟨hx, c', inst', hs', htaken', hstands.trans hstands', .cons hhears hall⟩
    · rename_i he
      cases (perform_dispatch hexec hw he).1
    · cases hdeliver

theorem Scene.flush {n : Nat} (hs : Scene h i k c inst w) (hbusy : inst.busy = false)
    (hidle : inst.dispatching = false) (hw : Heeding hK (some k) w)
    (hf : flush (Reaction.perform (exec fuel)) h k n w = some w') :
    ∃ c' inst', Scene h i k c' inst' w' ∧ inst'.machine.events = [] ∧ Stands inst inst' ∧
      HearsAll inst.machine.events c c' := by
  cases hevents : inst.machine.events with
  | nil =>
    obtain ⟨inst', hs', htaken, hstands⟩ := hs.flush_taken hevents hw.handler hf
    exact ⟨c, inst', hs', htaken, hstands, .nil c⟩
  | cons e es =>
    cases n with
    | zero => cases hf
    | succ n =>
      have htakes : (w.collect k inst).1 = e :: es := by
        rw [collect_events, hidle, hevents]
        rfl
      obtain ⟨hw₀, -⟩ := Conduct.preserves_collect hs.found (fun hd => by simp [hidle] at hd) hw
      have hdrained : Scene h i k c inst.drained (w.setInstance k inst.drained) := hs.set rfl
      have hs₀ : Scene h i k c inst.drained (w.collect k inst).2 := by
        rw [collect_snd]
        exact leaves_reports (w := w.setInstance k inst.drained) hw.handler _ c _ hdrained
      have hdeliver {x : Option (Option String)} {w₁ : World (Story δ)}
          (hd : World.deliver (Reaction.perform (exec fuel)) (inst.callbacks h) (w.collect k inst).1
            ((w.collect k inst).2.dispatch k true) = some (x, w₁)) :=
        Scene.deliver hexec (hs₀.dispatch true) (by simp [Instance.drained, hidle]) rfl
          (Conduct.orderly_dispatch hw₀ hs₀.found true) (hs.callbacks ▸ hd)
      rw [flush_succ hs.found hbusy, if_neg (by simp [htakes])] at hf
      split at hf
      · cases hf
      · rename_i w₁ hd
        obtain ⟨hw₁, -⟩ := Conduct.preserves_batch preserves_reaction hs.found hidle hd hw
        obtain ⟨-, c', inst₁, hs₁, htaken₁, hstands₁, hall⟩ := hdeliver hd
        -- Nothing is left for the second round.
        obtain ⟨inst', hs', htaken', hstands'⟩ :=
          (hs₁.dispatch false).flush_taken htaken₁ hw₁.handler hf
        refine ⟨c', inst', hs', htaken', ⟨?_, ?_, ?_, ?_⟩, htakes ▸ hall⟩
        · exact hstands'.busy.trans hstands₁.busy
        · exact hstands'.dispatching.trans hidle.symm
        · exact hstands'.state.trans hstands₁.state
        · exact hstands'.pending.trans hstands₁.pending
      · rename_i hd
        cases (hdeliver hd).1

theorem follows_flush {n : Nat} (hne : h' ≠ h) (hk : k' ≠ k) (hw : Heeding hK (some k') w)
    (hf : World.flush (Reaction.perform (exec fuel)) h' k' n w = some w') :
    Follows K h i k w w' := by
  induction n generalizing w with
  | zero => cases hf
  | succ n ih =>
    cases hinst : w.instances[k']? with
    | none =>
      rw [World.flush, hinst] at hf
      cases hf
      exact .refl h i k _
    | some inst =>
      cases hbusy : inst.busy with
      | true =>
        rw [World.flush, hinst] at hf
        simp only [hbusy, if_true, Option.some.injEq] at hf
        exact hf ▸ .refl h i k w
      | false =>
        have hleaves : Leaves h i k w (w.collect k' inst).2 := by
          rw [collect_snd]
          exact (leaves_set hk).trans
            (leaves_reports (w := w.setInstance k' inst.drained) hw.handler _)
        rw [flush_succ hinst hbusy] at hf
        split at hf
        · cases hf
          exact hleaves.follows
        · rename_i hne'
          have hidle : inst.dispatching = false := by
            cases hd : inst.dispatching with
            | false => rfl
            | true => simp [collect_events, hd] at hne'
          have hcallbacks := hw.callbacks inst (List.mem_of_getElem? hinst)
          obtain ⟨hw₀, -⟩ := Conduct.preserves_collect hinst (fun hd => by simp [hidle] at hd) hw
          have hinst₀ : (w.collect k' inst).2.instances[k']? = some inst.drained := by
            obtain ⟨hk', -⟩ := List.getElem?_eq_some_iff.mp hinst
            simp [collect_instances, setInstance, hk']
          have hbatch {x : Option (Option String)} {w₁ : World (Story δ)}
              (hd : World.deliver (Reaction.perform (exec fuel)) (inst.callbacks h')
                (w.collect k' inst).1 ((w.collect k' inst).2.dispatch k' true) = some (x, w₁)) :
              Follows K h i k w (w₁.dispatch k' false) ∧
                Heeding hK none (w₁.dispatch k' false) := by
            have hopened : Leaves h i k (w.collect k' inst).2 _ := leaves_dispatch hk true
            have hdelivered := follows_deliver hexec hcallbacks hne
              (Conduct.orderly_dispatch hw₀ hinst₀ true) hd
            have hclosed : Leaves h i k w₁ _ := leaves_dispatch hk false
            exact ⟨(hleaves.trans hopened).follows.trans (hdelivered.trans hclosed.follows),
              (Conduct.preserves_batch preserves_reaction hinst hidle hd hw).1⟩
          split at hf
          · cases hf
          · rename_i w₁ hd
            obtain ⟨hfollows, hw₁⟩ := hbatch hd
            exact hfollows.trans (ih (hw₁.open _) hf)
          · rename_i message w₁ hd
            cases hf
            obtain ⟨hfollows, hw₁⟩ := hbatch hd
            exact hfollows.trans (leaves_abandon hk hw₁.handler h' message).follows

theorem follows_change {n : Nat} {op : Operation (Story δ)} {ch : Change (Story δ)}
    {r : Except LibraryError Reply} (hw : Heeding hK none w) (hc : op.change? = some ch)
    (hop : (Discipline.sparing K h).Permits op)
    (hr : World.change (Reaction.perform (exec fuel)) n ch.handle ch.apply w = some (r, w')) :
    Follows K h i k w w' := by
  intro c inst hs htaken
  unfold World.change at hr
  split at hr
  · cases hr
    exact ⟨c, inst, hs, htaken, Stands.attends ⟨rfl, rfl, rfl, rfl⟩⟩
  · rename_i k' inst' hfind
    obtain ⟨hget, hinst'⟩ := find_eq_ok hfind
    split at hr
    · cases hr
      exact ⟨c, inst, hs, htaken, Stands.attends ⟨rfl, rfl, rfl, rfl⟩⟩
    · by_cases hhandle : ch.handle = h
      · -- An operation on the machine itself leaves it where it is.
        subst hhandle
        rw [hs.alive, Option.some.injEq] at hget
        subst hget
        rw [hs.found, Option.some.injEq] at hinst'
        subst hinst'
        split at hr
        · rename_i r m happly
          obtain ⟨w₁, hflush, hr⟩ := Option.map_eq_some_iff.mp hr
          cases hr
          have hstays := Operation.change?_stays hc (hK.defers hop.1).1 happly
          have hevents : m.events = [] := (Operation.change?_spec hc happly).1.trans htaken
          have hs₁ : Scene ch.handle i k c { inst with machine := m }
              (w.setInstance k { inst with machine := m }) := hs.set rfl
          obtain ⟨inst₁, hs', htaken', hstands⟩ := hs₁.flush_taken hevents hw.handler hflush
          refine ⟨c, inst₁, hs', htaken', Stands.attends (Stands.trans ?_ hstands)⟩
          exact ⟨rfl, rfl, hstays.state, hstays.pending⟩
        · obtain ⟨w₁, hflush, hr⟩ := Option.map_eq_some_iff.mp hr
          cases hr
          obtain ⟨inst₁, hs', htaken', hstands⟩ := hs.flush_taken htaken hw.handler hflush
          exact ⟨c, inst₁, hs', htaken', hstands.attends⟩
      · have hk := hs.ne_of_find hw hhandle hget
        split at hr
        · rename_i r m happly
          obtain ⟨w₁, hflush, hr⟩ := Option.map_eq_some_iff.mp hr
          cases hr
          have hw₁ := heeding_store (hw.open (some k')) hinst' hc hop.2 happly
          have hfollows := follows_flush hexec hhandle hk hw₁ hflush
          exact ((leaves_set hk).follows.trans hfollows) c inst hs htaken
        · obtain ⟨w₁, hflush, hr⟩ := Option.map_eq_some_iff.mp hr
          cases hr
          exact follows_flush hexec hhandle hk (hw.open (some k')) hflush c inst hs htaken

theorem follows_run {n : Nat} {m m' : HostMachine (Story δ)} {ended : RunEnd}
    (hbodies : m.Bodies hK.conduct.body) (hw : Heeding hK none w)
    (hrun : m.run (fun body args w => (body args).perform (exec fuel) w) n w =
      some (ended, m', w')) : Heeding hK none w' ∧ Follows K h i k w w' := by
  refine Machine.run_induction_of_bodies (P := hK.conduct.body)
    (R := fun w w' => Heeding hK none w → Heeding hK none w' ∧ Follows K h i k w w')
    (fun w hw => ⟨hw, .refl h i k w⟩) ?_ ?_ hbodies hrun hw
  · intro w₁ w₂ w₃ h₁₂ h₂₃ hw₁
    obtain ⟨hw₂, hfollows⟩ := h₁₂ hw₁
    obtain ⟨hw₃, hfollows'⟩ := h₂₃ hw₂
    exact ⟨hw₃, hfollows.trans hfollows'⟩
  · intro body args w₁ x w₂ hbody hcall hw₁
    have hupholds := hK.conduct.upholds_of_body hbody args w₁.host
    exact ⟨(preserves_reaction hupholds hcall hw₁).1, follows_perform hexec _ w₁
      (Discipline.within_of_obeys (d := .sparing K h) (fun hs => hs.aside i) (hbody args))
      hw₁ hcall⟩

theorem follows_runInstance {n : Nat} {r : Except LibraryError Bool} (hw : Heeding hK none w)
    (hinst : w.instances[k']? = some inst) (hk : k' ≠ k)
    (hr : runInstance (Reaction.perform (exec fuel)) n k' inst w = some (r, w')) :
    Follows K h i k w w' := by
  unfold runInstance at hr
  simp only at hr
  split at hr
  · cases hr
  · rename_i ended m w₁ hrun
    cases hr
    have hw₀ : Heeding hK none (w.setInstance k' { inst with busy := true }) :=
      Conduct.orderly_status hw hinst rfl rfl
    have hbodies := hw.bodies inst (List.mem_of_getElem? hinst)
    have hfollows := (follows_run hexec hbodies hw₀ hrun).2
    exact (leaves_set hk).follows.trans (hfollows.trans (leaves_modify hk _).follows)

theorem Scene.run {n : Nat} {r : Except LibraryError Bool} (hs : Scene h i k c inst w)
    (htaken : inst.machine.events = []) (hbusy : inst.busy = false) (hw : Heeding hK none w)
    (hr : runInstance (Reaction.perform (exec fuel)) n k inst w = some (r, w')) :
    ∃ inst', Scene h i k c inst' w' ∧ Prepares c inst inst' ∧
      (inst.machine.state = .running → Concludes (r.toOption.getD false) inst'.machine) := by
  unfold runInstance at hr
  simp only at hr
  split at hr
  · cases hr
  · rename_i ended m w₁ hrun
    cases hr
    have hw₀ : Heeding hK none (w.setInstance k { inst with busy := true }) :=
      Conduct.orderly_status hw hs.found rfl rfl
    have hs₀ : Scene h i k c { inst with busy := true }
        (w.setInstance k { inst with busy := true }) := hs.set rfl
    have hbodies := hw.bodies inst (List.mem_of_getElem? hs.found)
    obtain ⟨-, hfollows⟩ := follows_run hexec hbodies hw₀ hrun
    obtain ⟨c₁, inst₁, hs₁, -, hattends⟩ := hfollows c _ hs₀ htaken
    obtain ⟨rfl, hstands⟩ := hattends.occupied (.inl rfl)
    rw [Conduct.modifyInstance_eq hs₁.found]
    have hconcludes (hrunning : inst.machine.state = .running) := concludes_run hrunning htaken hrun
    refine ⟨_, hs₁.set rfl,
      ⟨hbusy.symm, hstands.dispatching, fun c' told hhears haccord => ?_⟩, hconcludes⟩
    by_cases hrunning : inst.machine.state = .running
    · exact accord_of_announces (hconcludes hrunning).announces
        (haccord.idle (Machine.isWaiting_of_running hrunning)) hhears
    · have hsame : (conclude m ended).2 = inst.machine := by
        cases hwaiting : inst.machine.isWaiting with
        | true =>
          rw [Machine.run_of_isWaiting hwaiting] at hrun
          cases hrun
          rfl
        | false =>
          rw [Machine.run_of_idle hrunning hwaiting] at hrun
          cases hrun
          rfl
      simp only [hsame, htaken] at hhears ⊢
      cases hhears
      exact haccord

end

theorem Scene.start {bough : String} {r : Except LibraryError Bool} (hs : Scene h i k c inst w)
    (htaken : inst.machine.events = []) (hr : startInstance bough k inst w = some (r, w')) :
    ∃ inst', Scene h i k c inst' w' ∧ Prepares c inst inst' := by
  unfold startInstance at hr
  split at hr
  · rename_i m hstart
    cases hr
    refine ⟨{ inst with machine := m }, hs.set rfl, rfl, rfl, fun c' told hhears haccord => ?_⟩
    have hevents : m.events = [] := (Machine.sameQueues_start hstart).1.trans htaken
    rw [hevents] at hhears
    cases hhears
    obtain ⟨b, -, rfl⟩ := Machine.start_eq_ok hstart
    have hidle : inst.machine.isWaiting = false := by
      rcases Machine.state_of_start hstart with hstate | hstate <;> simp [Machine.isWaiting, hstate]
    exact accord_of_announces (.changes rfl (by simp [htaken])) (haccord.idle hidle)
      (by rw [htaken]; exact .nil c)
  · cases hr
    refine ⟨inst, hs, rfl, rfl, fun c' told hhears haccord => ?_⟩
    rw [htaken] at hhears
    cases hhears
    exact haccord

section

variable {fuel : Nat}
variable (hexec : ∀ {op : Operation (Story δ)} {w r w'}, (Discipline.sparing K h).Permits op →
  Heeding hK none w → exec fuel op w = some (r, w') → Follows K h i k w w')

include hexec

theorem follows_drive {n : Nat} {operation : String} {r : Reply}
    {f : Nat → Instance (Story δ) → World (Story δ) →
      Option (Except LibraryError Bool × World (Story δ))} (hw : Heeding hK none w)
    (hw' : Heeding hK none w')
    (horderly : ∀ {k inst r w'}, w.instances[k]? = some inst → inst.busy = false →
      f k inst w = some (r, w') → Heeding hK (some k) w')
    (hother : ∀ {k' inst r w'}, w.instances[k']? = some inst → k' ≠ k →
      f k' inst w = some (r, w') → Follows K h i k w w')
    (hown : ∀ {c inst r w'}, Scene h i k c inst w → inst.machine.events = [] → inst.busy = false →
      f k inst w = some (r, w') → ∃ inst', Scene h i k c inst' w' ∧ Prepares c inst inst')
    (hdrives : h' = h → ∃ op, K op ∧ op.Drives h)
    (hr : drive (Reaction.perform (exec fuel)) n operation h' f w = some (r, w')) :
    Follows K h i k w w' := by
  intro c inst hs htaken
  have hreport (e : LibraryError) : Leaves h i k w (w.report e.severity e.message) :=
    leaves_report hw.handler _ _
  unfold drive at hr
  split at hr
  · cases hr
    exact (hreport _).follows c inst hs htaken
  · rename_i k' inst' hfind
    obtain ⟨hget, hinst'⟩ := find_eq_ok hfind
    split at hr
    · cases hr
      exact (hreport _).follows c inst hs htaken
    · rename_i hidle
      split at hr
      · cases hr
        exact (hreport _).follows c inst hs htaken
      · rename_i hbusy
        rw [Bool.not_eq_true] at hidle hbusy
        split at hr
        · cases hr
        · rename_i r₁ w₁ hstep
          obtain ⟨w₂, hflush, hr⟩ := Option.map_eq_some_iff.mp hr
          have hanswer : Leaves h i k w₂ w' := by
            cases hr
            exact leaves_of_answered hw'.handler
          suffices hfollows : Follows K h i k w w₂ from
            hfollows.trans hanswer.follows c inst hs htaken
          have hw₁ := horderly hinst' hbusy hstep
          by_cases hhandle : h' = h
          · subst hhandle
            rw [hs.alive, Option.some.injEq] at hget
            subst hget
            intro c inst hs htaken
            obtain rfl : inst = inst' := by
              rw [hs.found, Option.some.injEq] at hinst'
              exact hinst'
            obtain ⟨inst₁, hs₁, hprepares⟩ := hown hs htaken hbusy hstep
            obtain ⟨c', inst₂, hs₂, htaken₂, hstands, hall⟩ := hs₁.flush hexec
              (hprepares.busy.trans hbusy) (hprepares.dispatching.trans hidle) hw₁ hflush
            refine ⟨c', inst₂, hs₂, htaken₂, hstands.busy.trans hprepares.busy,
              hstands.dispatching.trans hprepares.dispatching, hall.post, fun hoccupied => ?_,
              fun _ _ told haccord => ?_⟩
            · obtain ⟨op, hop, hdrive⟩ := hdrives rfl
              simp only [Occupied, hbusy, hidle, Bool.false_eq_true, false_or] at hoccupied
              exact absurd hdrive (hoccupied op hop)
            · exact (hprepares.accord c' told hall haccord).congr hstands.state hstands.pending
          · have hk := hs.ne_of_find hw hhandle hget
            exact (hother hinst' hk hstep).trans (follows_flush hexec hhandle hk hw₁ hflush)

end

theorem leaves_create {bytes : Bytes} {callbacks : Handle → Event → Reaction (Story δ)}
    (hw : Heeding hK none w) : Leaves h i k w (w.open? bytes callbacks).2 := by
  unfold open?
  split
  · exact leaves_report hw.handler _ _
  · refine leaves_of_aside (fun k hk => Arena.get?_insert_of_get? hw.sound hk)
      (fun inst hinst => ?_) (Story.aside_same rfl rfl)
    rw [List.getElem?_append_left (List.getElem?_eq_some_iff.mp hinst).1]
    exact hinst

theorem leaves_destroy (hw : Heeding hK none w) (hne : h' ≠ h) :
    Leaves h i k w (w.destroy h').2 := by
  unfold destroy
  split
  · rename_i arena harena
    refine leaves_of_aside (fun k hk => ?_) (fun _ => id) (Story.aside_same rfl rfl)
    rw [Arena.get?_remove_of_ne harena hne.symm]
    exact hk
  · exact leaves_report hw.handler _ _

theorem leaves_lend (hw : Heeding hK none w) (h' : Handle) (name : String) :
    Leaves h i k w (w.lend h' name).2 := by
  unfold lend
  simp only
  split
  · exact leaves_answer hw.handler _
  · exact (leaves_answer hw.handler _).trans
      (leaves_of_aside (fun _ => id) (fun _ => id) (Story.aside_same rfl rfl))

theorem leaves_quiet {fuel : Nat} {op : Operation (Story δ)} {r : Reply} (hw : Heeding hK none w)
    (hop : op ≠ .destroy h) (hquiet : op.isQuiet = true)
    (hexec : exec (fuel + 1) op w = some (r, w')) : Leaves h i k w w' := by
  have hsame {w' : World (Story δ)} (harena : w'.arena = w.arena)
      (hinstances : w'.instances = w.instances) (hhost : w'.host = w.host) :
      Leaves h i k w w' := by
    refine leaves_of_aside (fun k hk => ?_) (fun inst hinst => ?_)
      (Story.aside_same (by rw [hhost]) (by rw [hhost]))
    · rwa [harena]
    · rwa [hinstances]
  cases op <;> first | cases hquiet; done | skip
  case destroy h' =>
    cases hexec
    exact leaves_destroy hw fun heq => hop (by rw [heq])
  case getValue h' name =>
    cases hexec
    exact leaves_lend hw h' name
  case release number =>
    cases hexec
    unfold release
    split <;> exact hsame rfl rfl rfl
  case report severity message =>
    cases hexec
    exact leaves_report hw.handler severity message
  case isAlive | size | bufferBytes | outstanding | setSeverity | resetHandler =>
    cases hexec
    exact hsame rfl rfl rfl
  all_goals
    cases hexec
    exact leaves_answer hw.handler _

theorem follows_exec {fuel : Nat} {op : Operation (Story δ)} {r : Reply}
    (hop : (Discipline.sparing K h).Permits op) (hw : Heeding hK none w)
    (hexec : exec fuel op w = some (r, w')) : Follows K h i k w w' := by
  -- The operations within this one have less fuel.
  induction fuel generalizing op w r w' with
  | zero => cases hexec
  | succ fuel ih =>
    have hw' := heeding_exec hw hop.2 hexec
    rcases op.kinds with ⟨bytes, callbacks, rfl⟩ | ⟨h', bough, rfl⟩ | ⟨h', rfl⟩ | ⟨ch, hc⟩ | hquiet
    · cases hexec
      exact (leaves_create hw).follows
    · refine follows_drive ih hw hw' (f := startInstance bough) ?_ ?_ ?_ ?_ hexec
      · exact fun hinst _ hf => (Conduct.preserves_startInstance hinst hf hw).1
      · intro k' inst r w₁ hinst hk hf
        unfold startInstance at hf
        split at hf <;> cases hf
        · exact (leaves_set hk).follows
        · exact .refl h i k w
      · exact fun hs htaken _ hf => hs.start htaken hf
      · exact fun heq => ⟨_, hop.1, heq ▸ .inl ⟨bough, rfl⟩⟩
    · have hrun : drive (Reaction.perform (exec fuel)) fuel "run" h'
          (runInstance (Reaction.perform (exec fuel)) fuel) w = some (r, w') := hexec
      refine follows_drive ih hw hw' ?_ ?_ ?_ ?_ hrun
      · exact fun hinst hbusy hf =>
          (Conduct.preserves_runInstance preserves_reaction hinst hbusy hf hw).1
      · exact fun hinst hk hf => follows_runInstance ih hw hinst hk hf
      · intro c inst r w₁ hs htaken hbusy hf
        obtain ⟨inst₁, hs₁, hprepares, -⟩ := hs.run ih htaken hbusy hw hf
        exact ⟨inst₁, hs₁, hprepares⟩
      · exact fun heq => ⟨_, hop.1, heq ▸ .inr rfl⟩
    · rw [exec_change hc] at hexec
      obtain ⟨⟨r, w₁⟩, hchange, heq⟩ := Option.map_eq_some_iff.mp hexec
      cases heq
      exact (follows_change ih hw hc hop hchange).trans (leaves_of_answered hw'.handler).follows
    · exact (leaves_quiet hw (hK.defers hop.1).2 hquiet hexec).follows

theorem Scene.ran {fuel : Nat} {r : Reply} (hs : Scene h i k c inst w)
    (hw : Heeding hK none w) (hidle : inst.status = .idle) (hrunning : inst.machine.state = .running)
    (hexec : exec fuel (.run h) w = some (r, w')) :
    ∃ (c' : Conversation δ) (inst' : Instance (Story δ)) (m : HostMachine (Story δ)),
      Scene h i k c' inst' w' ∧ inst'.machine.state = m.state ∧ Concludes r.isYes m ∧
        HearsAll m.events c c' := by
  rcases fuel with _ | fuel
  · cases hexec
  have hw' := heeding_exec hw (by trivial) hexec
  have hbusy : inst.busy = false := congrArg Status.busy hidle
  have htaken : inst.machine.events = [] := congrArg Status.events hidle
  change drive _ fuel "run" h (runInstance _ fuel) w = _ at hexec
  rw [drive_of_find (find_eq_of_get? hs.alive hs.found) hidle] at hexec
  split at hexec
  · cases hexec
  · rename_i r₁ w₁ hrun
    obtain ⟨w₂, hflush, heq⟩ := Option.map_eq_some_iff.mp hexec
    obtain ⟨inst₁, hs₁, hprepares, hconcludes⟩ := hs.run follows_exec htaken hbusy hw hrun
    have hw₁ := (Conduct.preserves_runInstance preserves_reaction hs.found hbusy hrun hw).1
    obtain ⟨c₂, inst₂, hs₂, -, hstands, hall⟩ := hs₁.flush follows_exec
      (hprepares.busy.trans hbusy)
      (hprepares.dispatching.trans (congrArg Status.dispatching hidle)) hw₁ hflush
    have hyes : r.isYes = r₁.toOption.getD false := by
      cases heq
      cases r₁ <;> rfl
    have hleaves : Leaves h i k w₂ w' := by
      cases heq
      exact leaves_of_answered hw'.handler
    refine ⟨c₂, inst₂, inst₁.machine, hleaves c₂ _ hs₂, hstands.state, ?_, hall⟩
    exact hyes ▸ hconcludes hrunning

end World

end Dialogue
