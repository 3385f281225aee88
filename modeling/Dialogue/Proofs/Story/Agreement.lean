import Dialogue.Proofs.Story.Twin

namespace Dialogue

open World (Hosts Twins)

inductive Ends {ε ε' α α' : Type} (called : ε → ε') (Q : α → α' → Prop) :
    Except ε α → Except ε' α' → Prop
  | ok {a : α} {a' : α'} (h : Q a a') : Ends called Q (.ok a) (.ok a')
  | error (e : ε) : Ends called Q (.error e) (.error (called e))

theorem Ends.imp {ε ε' α α' : Type} {called : ε → ε'} {Q Q' : α → α' → Prop} {r : Except ε α}
    {r' : Except ε' α'} (h : Ends called Q r r') (hq : ∀ a a', Q a a' → Q' a a') :
    Ends called Q' r r' := by
  cases h with
  | ok h => exact .ok (hq _ _ h)
  | error e => exact .error e

variable {δ δ' ν α α' β β' : Type} {view : δ → ν} {i n fuel : Nat} {h : Handle} {x : ν}

def World.Twinned (view : δ → ν) (i : Nat) (h : Handle) (x : ν) (w : World (Story δ))
    (v : World (Story δ')) : Prop :=
  ∃ c d m, Twins view i x w v c d m ∧ c.handle = h

structure Edits (g : Conversation δ → Conversation δ) (g' : Conversation δ' → Conversation δ') :
    Prop where
  first : ∀ c, (g c).handle = c.handle ∧ (g c).speaker = c.speaker
  second : ∀ d, (g' d).handle = d.handle ∧ (g' d).speaker = d.speaker
  mirrors : ∀ c d, c.Mirrors d → (g c).Mirrors (g' d)
  alive : ∀ c, c.phase ≠ .destroyed → (g c).phase ≠ .destroyed
  asked : ∀ c cs, (g c).asked = some cs → c.asked = some cs
  events : ∀ d name v, StoryEvent.changed name v ∈ (g' d).events →
    StoryEvent.changed name v ∈ d.events

theorem edits_pending : Edits (fun c : Conversation δ => { c with pending := none })
    (fun d : Conversation δ' => { d with pending := none }) where
  first _ := ⟨rfl, rfl⟩
  second _ := ⟨rfl, rfl⟩
  mirrors _ _ h := ⟨h.handle, h.config, h.phase, rfl⟩
  alive _ := id
  asked _ _ h := by cases h
  events _ _ _ := id

theorem edits_bindings : Edits (fun c : Conversation δ => { c with bindings := [] })
    (fun d : Conversation δ' => { d with bindings := [] }) :=
  ⟨fun _ => ⟨rfl, rfl⟩, fun _ => ⟨rfl, rfl⟩,
    fun _ _ h => ⟨h.handle, h.config, h.phase, h.pending⟩, fun _ => id, fun _ _ => id,
    fun _ _ _ => id⟩

theorem edits_phase (p : Phase) (hp : p ≠ .destroyed) :
    Edits (fun c : Conversation δ => { c with phase := p })
      (fun d : Conversation δ' => { d with phase := p }) where
  first _ := ⟨rfl, rfl⟩
  second _ := ⟨rfl, rfl⟩
  mirrors _ _ h := ⟨h.handle, h.config, rfl, h.pending⟩
  alive _ _ := hp
  asked _ _ := id
  events _ _ _ := id

theorem edits_emit {e : StoryEvent} (he : ∀ name v, e ≠ .changed name v) :
    Edits (fun c : Conversation δ => c.emit e) (fun d : Conversation δ' => d.emit e) where
  first _ := ⟨rfl, rfl⟩
  second _ := ⟨rfl, rfl⟩
  mirrors _ _ h := ⟨h.handle, h.config, h.phase, h.pending⟩
  alive _ := id
  asked _ _ := id
  events _ name v h := by
    rcases List.mem_append.mp h with h | h
    · exact h
    · exact absurd (List.mem_singleton.mp h).symm (he name v)

theorem World.Twinned.modify {w : World (Story δ)} {v : World (Story δ')}
    {f : Conversation δ → Conversation δ} {g : Conversation δ' → Conversation δ'}
    (ht : Twinned view i h x w v) (he : Edits f g) :
    Twinned view i h x { w with host := w.host.modify i f } { v with host := v.host.modify i g } := by
  obtain ⟨c, d, m, ht, rfl⟩ := ht
  have hmirrors := he.mirrors c d ht.alike.mirrors
  have ha := ht.alike.modify (he.first c) (he.second d) hmirrors (he.events d)
  have hview := ht.restage ha (he.first c).1 (he.alive c ht.alive) (he.asked c) ht.view
  exact ⟨f c, g d, m, hview, (he.first c).1⟩

theorem World.Twinned.own {w : World (Story δ)} {v : World (Story δ')} (ht : Twinned view i h x w v)
    (y : δ) (z : δ') : Twinned view i h (view y) { w with host := { w.host with host := y } }
      { v with host := { v.host with host := z } } := by
  obtain ⟨c, d, m, ht, rfl⟩ := ht
  exact ⟨c, d, m, ht.restage (ht.alike.own y z) rfl ht.alive (fun _ => id) rfl, rfl⟩

theorem World.Twinned.own_eq {w : World (Story δ)} {v : World (Story δ')}
    (ht : Twinned view i h x w v) : view w.host.host = x := by
  obtain ⟨c, d, m, ht, -⟩ := ht
  exact ht.view

open World (Twinned)

namespace Telling

section

variable {P : World (Story δ) → World (Story δ') → Prop} {Q : α → α' → Prop} {R : β → β' → Prop}
  {e : StoryError}

def Agree (P : World (Story δ) → World (Story δ') → Prop) (Q : α → α' → Prop) (t : Telling δ α)
    (t' : Telling δ' α') : Prop :=
  ∀ w v, P w v → Option.Rel (fun r r' => Ends id Q r.1 r'.1 ∧ P r.2 r'.2) (t.run.run w) (t'.run.run v)

theorem agree_pure {a : α} {a' : α'} (h : Q a a') :
    Agree P Q (pure a : Telling δ α) (pure a' : Telling δ' α') :=
  fun _ _ hp => .some ⟨.ok h, hp⟩

theorem agree_throw (e : StoryError) :
    Agree P Q (throw e : Telling δ α) (throw e : Telling δ' α') :=
  fun _ _ hp => .some ⟨.error e, hp⟩

theorem agree_bind {t : Telling δ α} {t' : Telling δ' α'} {f : α → Telling δ β}
    {f' : α' → Telling δ' β'} (ht : Agree P Q t t') (hf : ∀ a a', Q a a' → Agree P R (f a) (f' a')) :
    Agree P R (t >>= f) (t' >>= f') := by
  intro w v hp
  have hrel := ht w v hp
  rw [run_bind, run_bind]
  generalize t.run.run w = o at hrel ⊢
  generalize t'.run.run v = o' at hrel ⊢
  cases hrel with
  | none => exact .none
  | @some r r' hr =>
    obtain ⟨r, w'⟩ := r
    obtain ⟨r', v'⟩ := r'
    obtain ⟨hends, hp'⟩ := hr
    cases hends with
    | ok hq => exact hf _ _ hq _ _ hp'
    | error e => exact .some ⟨.error e, hp'⟩

theorem agree_mono {Q' : α → α' → Prop} {t : Telling δ α} {t' : Telling δ' α'} (ht : Agree P Q t t')
    (hq : ∀ a a', Q a a' → Q' a a') : Agree P Q' t t' := by
  intro w v hp
  have hrel := ht w v hp
  generalize t.run.run w = o at hrel ⊢
  generalize t'.run.run v = o' at hrel ⊢
  cases hrel with
  | none => exact .none
  | some hr => exact .some ⟨hr.1.imp hq, hr.2⟩

theorem agree_guard {b : Prop} [Decidable b] {f : PUnit → Telling δ β} {g : PUnit → Telling δ' β'}
    (h : Agree P R (f .unit) (g .unit)) :
    Agree P R (if b then throw e >>= f else f .unit) (if b then throw e >>= g else g .unit) := by
  split
  · exact agree_throw e
  · exact h

theorem run_perform (fuel : Nat) (op : Operation (Story δ)) (w : World (Story δ)) :
    (perform fuel op).run.run w = (World.exec fuel op w).map fun r => (.ok r.1, r.2) := by
  change Option.bind (World.exec fuel op w) _ = _
  cases World.exec fuel op w <;> rfl

theorem agree_perform {op : Operation (Story δ)} {op' : Operation (Story δ')}
    (hop : ∀ w v, P w v → Option.Rel (fun r r' => r.1 = r'.1 ∧ P r.2 r'.2) (World.exec fuel op w)
      (World.exec fuel op' v)) : Agree P Eq (perform fuel op) (perform fuel op') := by
  intro w v hp
  have hrel := hop w v hp
  rw [run_perform, run_perform]
  generalize World.exec fuel op w = o at hrel
  generalize World.exec fuel op' v = o' at hrel
  cases hrel with
  | none => exact .none
  | some hr => exact .some ⟨.ok hr.1, hr.2⟩

theorem agree_performFlag {op : Operation (Story δ)} {op' : Operation (Story δ')}
    (hop : Agree P Eq (perform fuel op) (perform fuel op')) :
    Agree P Eq (performFlag fuel op) (performFlag fuel op') := by
  refine agree_bind hop fun a _ ha => ?_
  subst ha
  cases a <;> exact agree_pure rfl

theorem agree_update {f : Story δ → Story δ} {f' : Story δ' → Story δ'}
    (hf : ∀ w v, P w v → P { w with host := f w.host } { v with host := f' v.host }) :
    Agree P Eq (update f) (update f') :=
  fun w v hp => .some ⟨.ok rfl, hf w v hp⟩

end

theorem agree_story : Agree (Twinned view i h x) (fun s s' => s'.state = s.state ∧ s.store = none ∧
    s'.store = none) (story : Telling δ _) (story : Telling δ' _) := by
  rintro w v ⟨c, d, m, ht, rfl⟩
  exact .some ⟨.ok ⟨ht.alike.state, ht.alike.first.store, ht.alike.second.store⟩, c, d, m, ht, rfl⟩

theorem agree_conversation? : Agree (Twinned view i h x)
    (fun o o' => ∃ c d, o = some c ∧ o' = some d ∧ c.handle = h ∧ c.Mirrors d)
    (conversation? i : Telling δ _) (conversation? i : Telling δ' _) := by
  rintro w v ⟨c, d, m, ht, rfl⟩
  exact .some ⟨.ok ⟨c, d, ht.alike.first.conversation, ht.alike.second.conversation, rfl,
    ht.alike.mirrors⟩, c, d, m, ht, rfl⟩

theorem agree_alive : Agree (Twinned view i h x) (fun c d => c.handle = h ∧ c.Mirrors d)
    (alive i : Telling δ _) (alive i : Telling δ' _) := by
  refine agree_bind agree_conversation? ?_
  rintro o o' ⟨c, d, rfl, rfl, hhandle, hmirrors⟩
  simp only [hmirrors.phase, hmirrors.handle]
  split
  · exact agree_throw _
  · exact agree_pure ⟨hhandle, hmirrors⟩

theorem agree_pending : Agree (Twinned view i h x) Eq (pending i : Telling δ _)
    (pending i : Telling δ' _) := by
  refine agree_bind agree_conversation? ?_
  rintro o o' ⟨c, d, rfl, rfl, -, hmirrors⟩
  exact agree_pure (by simp only [Option.bind_some, hmirrors.pending])

theorem agree_machineState : Agree (Twinned view i h x) Eq (machineState (n + 1) h : Telling δ _)
    (machineState (n + 1) h : Telling δ' _) := by
  have hperform : Agree (Twinned view i h x) (fun r r' => ∃ s, r = .state (some s) ∧ r' = r)
      (perform (n + 1) (.state h) : Telling δ _) (perform (n + 1) (.state h) : Telling δ' _) := by
    rintro w v ⟨c, d, m, ht, rfl⟩
    have hstate := ht.second.state n
    rw [ht.alike.mirrors.handle] at hstate
    rw [run_perform, run_perform, ht.first.state n, hstate]
    exact .some ⟨.ok ⟨m.state, rfl, rfl⟩, c, d, m, ht, rfl⟩
  refine agree_bind hperform ?_
  rintro r r' ⟨s, rfl, rfl⟩
  exact agree_pure rfl

theorem agree_change {op : Operation (Story δ)} {op' : Operation (Story δ')} {ch : Change (Story δ)}
    {ch' : Change (Story δ')} (hc : op.change? = some ch) (hc' : op'.change? = some ch')
    (hh : ch.handle = h) (hh' : ch'.handle = h) (hfallback : ch'.fallback = ch.fallback)
    (r : Machine Empty → Except MachineError (Reply × Machine Empty))
    (hr : ∀ m, ch.apply m.hosted = (r m).map fun r => (r.1, r.2.hosted))
    (hr' : ∀ m, ch'.apply m.hosted = (r m).map fun r => (r.1, r.2.hosted))
    (hkeeps : ∀ m a m', r m = .ok (a, m') → m'.outlines = m.outlines ∧
      m'.pending.length ≤ m.pending.length) :
    Agree (Twinned view i h x) Eq (perform (n + 2) op) (perform (n + 2) op') := by
  apply agree_perform
  rintro w v ⟨c, d, m, ht, hhandle⟩
  obtain ⟨a, w', v', m', hexec, hexec', ht'⟩ := ht.change hc hc' (hh.trans hhandle.symm)
    (hh'.trans hhandle.symm) hfallback (hr m) (hr' m) (hkeeps m) n
  rw [hexec, hexec']
  exact .some ⟨rfl, c, d, m', ht', hhandle⟩

theorem agree_modify {g : Conversation δ → Conversation δ} {g' : Conversation δ' → Conversation δ'}
    (hg : Edits g g') :
    Agree (Twinned view i h x) Eq (update (·.modify i g)) (update (·.modify i g')) :=
  agree_update fun _ _ ht => ht.modify hg

theorem agree_performContinue : Agree (Twinned view i h x) Eq
    (perform (n + 2) (.selectContinue h) : Telling δ _)
    (perform (n + 2) (.selectContinue h) : Telling δ' _) := by
  refine agree_change rfl rfl rfl rfl rfl (fun m => m.selectContinue.map (.flag true, ·)) ?_ ?_ ?_
  · intro m
    simp only [Machine.selectContinue_map]
    cases m.selectContinue <;> rfl
  · intro m
    simp only [Machine.selectContinue_map]
    cases m.selectContinue <;> rfl
  · intro m a m' hm
    obtain ⟨m₁, hm₁, heq⟩ := Except.map_eq_ok_iff.mp hm
    cases heq
    obtain ⟨-, rfl⟩ := Machine.selectContinue_eq_ok hm₁
    exact ⟨rfl, Nat.le.refl⟩

theorem agree_performChoice (index : Nat) : Agree (Twinned view i h x) Eq
    (perform (n + 2) (.selectChoice h index) : Telling δ _)
    (perform (n + 2) (.selectChoice h index) : Telling δ' _) := by
  refine agree_change rfl rfl rfl rfl rfl (fun m => (m.selectChoice index).map (.flag true, ·)) ?_ ?_ ?_
  · intro m
    simp only [Machine.selectChoice_map]
    cases m.selectChoice index <;> rfl
  · intro m
    simp only [Machine.selectChoice_map]
    cases m.selectChoice index <;> rfl
  · intro m a m' hm
    obtain ⟨m₁, hm₁, heq⟩ := Except.map_eq_ok_iff.mp hm
    cases heq
    obtain ⟨-, ch, -, rfl⟩ := Machine.selectChoice_eq_ok hm₁
    exact ⟨rfl, Nat.zero_le _⟩

theorem agree_performSave : Agree (Twinned view i h x) Eq (perform (n + 2) (.save h) : Telling δ _)
    (perform (n + 2) (.save h) : Telling δ' _) := by
  refine agree_change rfl rfl rfl rfl rfl (fun m => .ok (.snapshot m.save.1, m.save.2)) ?_ ?_ ?_
  · intro m
    simp only [Machine.save_map]
    rfl
  · intro m
    simp only [Machine.save_map]
    rfl
  · intro m a m' hm
    cases hm
    exact ⟨rfl, Nat.le.refl⟩

theorem agree_performLoad (s : Snapshot) : Agree (Twinned view i h x) Eq
    (perform (n + 2) (.load h s) : Telling δ _) (perform (n + 2) (.load h s) : Telling δ' _) := by
  refine agree_change rfl rfl rfl rfl rfl (fun m => .ok (.count (m.load s).2, (m.load s).1)) ?_ ?_ ?_
  · intro m
    simp only [Machine.load_map]
    rfl
  · intro m
    simp only [Machine.load_map]
    rfl
  · intro m a m' hm
    cases hm
    have hpending := congrArg Standing.pending (Machine.standing_loadEntries m s.entries)
    exact ⟨Machine.outlines_loadEntries m s.entries, Nat.le_of_eq (congrArg List.length hpending)⟩

theorem agree_performStart (bough : String) : Agree (Twinned view i h x) Eq
    (perform (n + 2) (.start h bough) : Telling δ _)
    (perform (n + 2) (.start h bough) : Telling δ' _) := by
  apply agree_perform
  rintro w v ⟨c, d, m, ht, rfl⟩
  obtain ⟨b, w', v', m', hexec, hexec', ht'⟩ := ht.start bough n
  rw [hexec, hexec']
  exact .some ⟨rfl, c, d, m', ht', rfl⟩

theorem agree_performRun : Agree (Twinned view i h x) Eq (perform (n + 1) (.run h) : Telling δ _)
    (perform (n + 1) (.run h) : Telling δ' _) := by
  apply agree_perform
  rintro w v ⟨c, d, m, ht, rfl⟩
  rcases ht.run n with ⟨hexec, hexec'⟩ | ⟨b, w', v', c', d', m', hexec, hexec', hhandle, ht'⟩
  · rw [hexec, hexec']
    exact .none
  · rw [hexec, hexec']
    exact .some ⟨rfl, c', d', m', ht', hhandle⟩

theorem agree_answer {op : Handle → Operation (Story δ)} {op' : Handle → Operation (Story δ')}
    (hop : Agree (Twinned view i h x) Eq (perform (n + 2) (op h)) (perform (n + 2) (op' h)))
    (e : StoryError) : Agree (Twinned view i h x) Eq (Replay.answer (n + 2) i op e)
      (Replay.answer (n + 2) i op' e) := by
  refine agree_bind agree_alive ?_
  rintro c d ⟨rfl, hmirrors⟩
  rw [hmirrors.handle]
  refine agree_bind (agree_performFlag hop) fun b _ hb => ?_
  subst hb
  exact agree_guard (f := fun _ => update (·.clearPending i))
    (g := fun _ => update (·.clearPending i)) (agree_modify edits_pending)

theorem agree_continueLine : Agree (Twinned view i h x) Eq (continueLine (n + 2) i : Telling δ _)
    (continueLine (n + 2) i : Telling δ' _) :=
  agree_answer agree_performContinue (.rejected "continue")

theorem agree_selectChoice (index : Nat) : Agree (Twinned view i h x) Eq
    (selectChoice (n + 2) i index : Telling δ _) (selectChoice (n + 2) i index : Telling δ' _) := by
  let op {ε : Type} (h : Handle) : Operation ε := .selectChoice h index
  exact agree_answer (show Agree _ Eq (perform (n + 2) (op h)) (perform (n + 2) (op h)) from
    agree_performChoice index) (.rejected "select_choice")

theorem agree_saveState : Agree (Twinned view i h x) Eq (saveState (n + 2) i : Telling δ _)
    (saveState (n + 2) i : Telling δ' _) := by
  refine agree_bind agree_alive ?_
  rintro c d ⟨rfl, hmirrors⟩
  rw [hmirrors.handle]
  refine agree_bind agree_performSave fun r _ hr => ?_
  subst hr
  split
  · exact agree_pure rfl
  · exact agree_throw _

theorem agree_unbindStore (c : Conversation δ) (d : Conversation δ') :
    Agree (Twinned view i h x) Eq (unbindStore fuel i c) (unbindStore fuel i d) := by
  refine agree_bind agree_conversation? ?_
  rintro o o' -
  refine agree_bind (agree_modify edits_bindings) fun _ _ _ => agree_bind agree_story ?_
  rintro s s' ⟨-, hs, hs'⟩
  simp only [hs, hs']
  exact agree_pure rfl

theorem agree_bindStore (c : Conversation δ) (d : Conversation δ') :
    Agree (Twinned view i h x) Eq (bindStore fuel i c) (bindStore fuel i d) := by
  refine agree_bind agree_story ?_
  rintro s s' ⟨-, hs, hs'⟩
  rw [hs, hs']
  exact agree_pure rfl

theorem agree_inject : Agree (Twinned view i h x) Eq (inject (n + 2) h : Telling δ _)
    (inject (n + 2) h : Telling δ' _) := by
  refine agree_bind agree_story ?_
  rintro s s' ⟨hstate, -⟩
  simp only [hstate]
  split
  · exact agree_bind (agree_performLoad s.state) fun _ _ _ => agree_pure rfl
  · exact agree_pure rfl

theorem agree_finish : Agree (Twinned view i h x) Eq (finish (n + 2) i : Telling δ _)
    (finish (n + 2) i : Telling δ' _) := by
  refine agree_bind agree_conversation? ?_
  rintro o o' ⟨c, d, rfl, rfl, -, hmirrors⟩
  simp only [hmirrors.phase]
  split
  · exact agree_pure rfl
  refine agree_bind agree_saveState fun saved _ hsaved => ?_
  subst hsaved
  have hamend : Agree (Twinned view i h x) Eq
      (update fun s => { s with state := s.state.amend saved }.stopSpeaker i : Telling δ _)
      (update fun s => { s with state := s.state.amend saved }.stopSpeaker i : Telling δ' _) := by
    apply agree_update
    rintro w v ⟨c, d, m, ht, rfl⟩
    have ha := ht.alike.amend saved
    rw [ha.first.stopSpeaker, ha.second.stopSpeaker]
    exact ⟨c, d, m, ht.restage ha rfl ht.alive (fun _ => id) ht.view, rfl⟩
  refine agree_bind hamend fun _ _ _ => agree_bind (agree_unbindStore c d) fun _ _ _ => ?_
  exact agree_update fun _ _ ht =>
    (ht.modify (edits_phase .finished nofun)).modify (edits_emit nofun)

theorem agree_tick : Agree (Twinned view i h x) Eq (tick (n + 2) i : Telling δ _)
    (tick (n + 2) i : Telling δ' _) := by
  have hfinish : Agree (Twinned view i h x) Eq (finishSlice (n + 2) i : Telling δ _)
      (finishSlice (n + 2) i : Telling δ' _) :=
    agree_bind agree_finish fun _ _ _ => agree_pure rfl
  refine agree_bind agree_alive ?_
  rintro c d ⟨rfl, hmirrors⟩
  rw [hmirrors.handle]
  refine agree_bind agree_machineState fun state _ hstate => ?_
  subst hstate
  cases state with
  | ready | faulted => exact agree_throw _
  | finished => exact hfinish
  | waiting kind => exact agree_pending
  | running =>
    refine agree_bind (agree_modify edits_pending) fun _ _ _ => ?_
    refine agree_bind (agree_performFlag agree_performRun) fun ran _ hran => ?_
    subst hran
    refine agree_bind agree_machineState fun state _ hstate => ?_
    subst hstate
    cases ran with
    | true =>
      cases state with
      | faulted => exact agree_throw _
      | ready | running => exact agree_pure rfl
      | finished => exact hfinish
      | waiting kind => exact agree_pending
    | false => cases state <;> exact agree_throw _

theorem startBough_fuel {m : HostMachine (Story δ)} {c : Conversation δ} {w w' : World (Story δ)}
    {bough : String} {r : Except StoryError Unit} (hw : Hosts view w i c m)
    (hphase : c.phase ≠ .destroyed) (hr : (startBough fuel i bough).Yields w r w') :
    ∃ n, fuel = n + 2 := by
  obtain ⟨k, inst, hfind, -, -⟩ := hw.found
  have hidle := hw.settled.rest.idle inst (List.mem_of_getElem? (World.find_eq_ok hfind).2)
  unfold startBough at hr
  rw [yields_alive_bind hw.conversation hphase] at hr
  have hinject {t : Telling δ Unit} (hr : (inject fuel c.handle >>= fun _ => t).Yields w r w') :
      t.Yields w r w' ∨ ∃ n, fuel = n + 2 := by
    unfold inject at hr
    rw [bind_assoc, yields_story_bind] at hr
    cases hempty : w.host.state.isEmpty with
    | true =>
      simp only [hempty, Bool.not_true, Bool.false_eq_true, if_false] at hr
      exact .inl hr
    | false =>
      simp only [hempty, Bool.not_false, if_true] at hr
      rw [bind_assoc] at hr
      obtain ⟨a, w₁, hexec, -⟩ := yields_perform_bind.mp hr
      exact .inr (World.change_fuel rfl hfind hidle hexec)
  rcases hinject hr with hr | hfuel
  · rw [yields_bind_of_ok (bindStore_yields hw.store _ _ _), yields_guard] at hr
    obtain ⟨a, w₁, hexec, -⟩ := hr
    exact World.start_fuel hfind hidle hexec
  · exact hfuel

theorem agree_startBough (bough : String) : Agree (Twinned view i h x) Eq
    (startBough (n + 2) i bough : Telling δ _) (startBough (n + 2) i bough : Telling δ' _) := by
  refine agree_bind agree_alive ?_
  rintro c d ⟨rfl, hmirrors⟩
  rw [hmirrors.handle]
  refine agree_bind agree_inject fun _ _ _ => agree_bind (agree_bindStore c d) fun _ _ _ => ?_
  refine agree_bind (agree_performFlag (agree_performStart bough)) fun started _ hstarted => ?_
  subst hstarted
  refine agree_guard (f := fun _ => update _) (g := fun _ => update _) (agree_update fun _ _ ht => ?_)
  exact ((ht.modify edits_pending).modify (edits_phase .started nofun)).modify (edits_emit nofun)

theorem start_starved {m : HostMachine (Story δ)} {c : Conversation δ} {w : World (Story δ)}
    (hw : Hosts view w i c m) (hphase : c.phase ≠ .destroyed) (hfuel : fuel < 2) :
    (start fuel i).run.run w = none := by
  refine Option.eq_none_iff_forall_ne_some.mpr fun ⟨r, w'⟩ hr => ?_
  have hyields : (start fuel i).Yields w r w' := hr
  unfold start at hyields
  rw [yields_conversation?_bind] at hyields
  obtain ⟨n, rfl⟩ := startBough_fuel hw hphase hyields
  omega

theorem agree_start : Agree (Twinned view i h x) (fun _ _ => ∃ n, fuel = n + 2)
    (start fuel i : Telling δ _) (start fuel i : Telling δ' _) := by
  rcases Nat.lt_or_ge fuel 2 with hfuel | hfuel
  · rintro w v ⟨c, d, m, ht, -⟩
    rw [start_starved ht.first ht.alive hfuel,
      start_starved ht.second (ht.alike.mirrors.phase ▸ ht.alive) hfuel]
    exact .none
  · obtain ⟨n, rfl⟩ := Nat.exists_eq_add_of_le' hfuel
    refine agree_bind agree_conversation? ?_
    rintro o o' ⟨c, d, rfl, rfl, -, hmirrors⟩
    simp only [Option.map_some, hmirrors.config]
    exact agree_mono (agree_startBough _) fun _ _ _ => ⟨n, rfl⟩

theorem tick_choices {w w' : World (Story δ)} {cs : List Choice}
    (hr : (tick fuel i).Yields w (.ok (.choices cs)) w') :
    ∃ c, w'.host.conversations[i]? = some c ∧ c.asked = some cs := by
  have hpending {w : World (Story δ)} (hr : (pending i).Yields w (.ok (.choices cs)) w') :
      ∃ c, w'.host.conversations[i]? = some c ∧ c.asked = some cs := by
    unfold pending at hr
    rw [yields_conversation?_bind] at hr
    obtain ⟨heq, rfl⟩ := yields_pure.mp hr
    cases hslice : (w'.host.conversations[i]?).bind (·.pending) with
    | none =>
      rw [hslice] at heq
      cases heq
    | some slice =>
      rw [hslice] at heq
      cases heq
      obtain ⟨c, hc, hpending⟩ := Option.bind_eq_some_iff.mp hslice
      exact ⟨c, hc, by rw [Conversation.asked, hpending]; rfl⟩
  have hfinish {w : World (Story δ)} (hr : (finishSlice fuel i).Yields w (.ok (.choices cs)) w') :
      False := by
    obtain ⟨_, w₁, -, hr⟩ := yields_bind_ok.mp hr
    cases (yields_pure.mp hr).1
  unfold tick at hr
  obtain ⟨c, w₁, -, hr⟩ := yields_bind_ok.mp hr
  obtain ⟨state, w₂, -, hr⟩ := yields_bind_ok.mp hr
  cases state with
  | ready | faulted => cases (yields_throw.mp hr).1
  | finished => exact (hfinish hr).elim
  | waiting kind => exact hpending hr
  | running =>
    obtain ⟨_, w₃, -, hr⟩ := yields_bind_ok.mp hr
    obtain ⟨ran, w₄, -, hr⟩ := yields_bind_ok.mp hr
    obtain ⟨state, w₅, -, hr⟩ := yields_bind_ok.mp hr
    cases ran with
    | true =>
      cases state with
      | faulted => cases (yields_throw.mp hr).1
      | ready | running => cases (yields_pure.mp hr).1
      | finished => exact (hfinish hr).elim
      | waiting kind => exact hpending hr
    | false => cases state <;> cases (yields_throw.mp hr).1

theorem selectChoice_rejected {w : World (Story δ)} {v : World (Story δ')} {c : Conversation δ}
    {d : Conversation δ'} {m : Machine Empty} {index : Nat} (ht : Twins view i x w v c d m)
    (hindex : m.pending.length ≤ index) (n : Nat) : ∃ w',
      (selectChoice (n + 2) i index).Yields w (.error (.rejected "select_choice")) w' ∧
        Twins view i x w' v c d m := by
  have hchange : (Operation.selectChoice c.handle index : Operation (Story δ)).change? =
      some ⟨c.handle, .flag false, fun m => (m.selectChoice index).map (.flag true, ·)⟩ := rfl
  obtain ⟨b, w', m', hexec, hw', hturns, hcases⟩ := ht.first.attempt hchange n
  rcases hcases with ⟨-, m₁, hm₁, -⟩ | ⟨rfl, -, rfl⟩
  · obtain ⟨-, o, ho, -⟩ := Machine.selectChoice_eq_ok hm₁
    obtain ⟨hlt, -⟩ := List.getElem?_eq_some_iff.mp ho
    exact absurd hlt (Nat.not_lt_of_le hindex)
  · refine ⟨w', ?_, ht.proceed hw' ht.second hturns (.refl ht.second.conversation) rfl Nat.le.refl⟩
    unfold selectChoice
    rw [yields_alive_bind ht.first.conversation ht.alive, yields_guard]
    exact ⟨_, w', hexec, .inr ⟨rfl, rfl, rfl⟩⟩

end Telling

end Dialogue
