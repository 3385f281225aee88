import Dialogue.Proofs.Story.Tale

/-!
The annals of a conversation: what happens in it from its creation on, whatever is done in its
library, if only ticks finish it and host code leaves its machine to the player.
-/

namespace Dialogue

variable {δ : Type} {h : Handle} {i : Nat} {b : Conversation δ} {t : Option MachineState}
  {w w' : World (Story δ)} {fuel : Nat} {marks : List Mark}

namespace Story

def recorded (s : Story δ) (i : Nat) : List StoryEvent :=
  ((s.conversations[i]?).map (·.events)).getD []

def news (i : Nat) (s s' : Story δ) : List StoryEvent :=
  (s'.recorded i).drop (s.recorded i).length

end Story

namespace Act

def ends? : Act δ → Option Nat
  | tick i | play i _ | finish i => some i
  | _ => none

def answers? : Act δ → Option Nat
  | continueLine i | selectChoice i _ => some i
  | _ => none

end Act

def Mark.ofAct (i : Nat) (a : Act δ) (news : List StoryEvent) (r : Except StoryError Unit) :
    List Mark :=
  news.map .event ++ if a.answers? = some i ∧ r = .ok () then [.answered] else []

/-- Libraries whose host code leaves the machine `h` to the player, if there is one. -/
inductive Calm (h : Handle) : World (Story δ) → Prop
  | create {handler : Severity → String → Story δ → Story δ} {s : Story δ}
    (hhandler : ∀ severity message s, Story.Spares h s (handler severity message s))
    (hconversations : s.conversations = []) (hroutes : s.routes = []) : Calm h (.create handler s)
  | act {w w' : World (Story δ)} {a : Act δ} {fuel : Nat} {r : Except StoryError Unit}
    (hw : Calm h w) (ha : a.Obeys (.abstaining h)) (hfits : a.Fits w)
    (hr : (a.telling fuel).Yields w r w') : Calm h w'
  | operate {w w' : World (Story δ)} {fuel : Nat} {op : Operation (Story δ)} {r : Reply}
    (hw : Calm h w) (hop : (Discipline.abstaining h).Permits op)
    (hexec : World.exec fuel op w = some (r, w')) : Calm h w'
  | update {w : World (Story δ)} {s : Story δ} (hw : Calm h w) (hs : Story.Spares h w.host s) :
    Calm h { w with host := s }

/-- What happens in the conversation `i`, with the machine `h`, from its creation on. Anything may be
done in the library, except that nothing but ticks finishes the conversation, and that nothing but
acts on the conversation plays or destroys its machine. To play it is to start, tick and answer. -/
inductive Annals (h : Handle) (i : Nat) : List Mark → World (Story δ) → Prop
  | create {w w' : World (Story δ)} {externs : Externs (Story δ)} {data : CompiledData}
    {config : Config} {fuel : Nat} {c : Conversation δ} (hw : Calm h w)
    (hexterns : externs.Obeys (.abstaining h)) (hroom : w.arena.HasRoom)
    (hr : (Telling.create fuel externs data config).Yields w (.ok i) w')
    (hc : w'.host.conversations[i]? = some c) (hhandle : c.handle = h) :
    Annals h i ((w'.host.recorded i).map .event) w'
  | tick {marks : List Mark} {w w' : World (Story δ)} {fuel : Nat} {r : Except StoryError Slice}
    (hw : Annals h i marks w) (hr : (Telling.tick fuel i).Yields w r w') :
    Annals h i (marks ++ Mark.ofTick (w.host.news i w'.host) r) w'
  | act {marks : List Mark} {w w' : World (Story δ)} {a : Act δ} {fuel : Nat}
    {r : Except StoryError Unit} (hw : Annals h i marks w) (ha : a.Obeys (.abstaining h))
    (hfits : a.Fits w) (hends : a.ends? ≠ some i) (hr : (a.telling fuel).Yields w r w') :
    Annals h i (marks ++ Mark.ofAct i a (w.host.news i w'.host) r) w'
  | operate {marks : List Mark} {w w' : World (Story δ)} {fuel : Nat} {op : Operation (Story δ)}
    {r : Reply} (hw : Annals h i marks w) (hop : (Discipline.abstaining h).Permits op)
    (hexec : World.exec fuel op w = some (r, w')) : Annals h i marks w'
  | update {marks : List Mark} {w : World (Story δ)} {s : Story δ} (hw : Annals h i marks w)
    (hs : Story.Spares h w.host s) : Annals h i marks { w with host := s }

theorem Act.Obeys.defers {a : Act δ} (ha : a.Obeys (.abstaining h)) : a.Defers h := by
  cases a with
  | create externs data config =>
    exact fun name arity body hmem args =>
      (reserves_abstaining h).defers_of_obeys _ (ha name arity body hmem args)
  | setFunction j name arity body =>
    exact fun args => (reserves_abstaining h).defers_of_obeys _ (ha args)
  | _ => trivial

namespace Calm

open World

theorem chronicle (hw : Calm h w) : ∃ heard, Telling.Chronicle h heard w := by
  induction hw with
  | create hhandler hconversations hroutes => exact ⟨_, .create hhandler hconversations hroutes⟩
  | act _ ha hfits hr ih =>
    obtain ⟨heard, hw⟩ := ih
    exact ⟨_, hw.act ha.defers hfits hr⟩
  | operate _ hop hexec ih =>
    obtain ⟨heard, hw⟩ := ih
    exact ⟨_, hw.operate ((reserves_abstaining h).defers_of_grants _ hop.1 hop.2) hexec⟩
  | update _ hs ih =>
    obtain ⟨heard, hw⟩ := ih
    exact ⟨_, hw.update hs⟩

theorem orderly (hw : Calm h w) : Heeding (reserves_abstaining h) none w := by
  have hkeeps : Unhindered (.abstaining h) (Heeding (δ := δ) (reserves_abstaining h) none) :=
    ⟨fun hop hw => heeding_exec hw hop, fun _ _ hw => hw.host _⟩
  induction hw with
  | create hhandler _ _ => exact heeding_create _ hhandler
  | act _ ha _ hr ih => exact hkeeps.act _ rfl ha _ _ _ ih hr
  | operate _ hop hexec ih => exact heeding_exec ih hop.2 hexec
  | update _ hs ih => exact ih.host _

end Calm

inductive Amends (es : List StoryEvent) : List StoryEvent → List StoryEvent → Prop
  | told (news : List StoryEvent) : Amends es news (es ++ news)
  | taken (n : Nat) : Amends es [] (es.drop n)

namespace Amends

variable {es news es' told earlier : List StoryEvent}

theorem refl (es : List StoryEvent) : Amends es [] es := taken 0

theorem news_eq (h : Amends es news es') : es'.drop es.length = news := by
  cases h with
  | told => exact List.drop_left
  | taken n => simp

theorem exists_taken (h : Amends es news es') (htold : told = earlier ++ es) :
    ∃ taken, told ++ news = taken ++ es' := by
  subst htold
  cases h with
  | told => exact ⟨earlier, List.append_assoc ..⟩
  | taken n => exact ⟨earlier ++ es.take n, by simp⟩

end Amends

namespace Mark

theorem filterMap_event (es : List StoryEvent) : (es.map event).filterMap event? = es := by
  simp [List.filterMap_map, Function.comp_def, event?]

theorem events_ofTick (news : List StoryEvent) (r : Except StoryError Slice) :
    (ofTick news r).filterMap event? = news := by
  rw [ofTick, List.filterMap_append, filterMap_event]
  split <;> simp [event?]

theorem events_ofAct (i : Nat) (a : Act δ) (news : List StoryEvent) (r : Except StoryError Unit) :
    (ofAct i a news r).filterMap event? = news := by
  rw [ofAct, List.filterMap_append, filterMap_event]
  split <;> simp [event?]

theorem ofAct_of_error (i : Nat) (a : Act δ) (e : StoryError) : ofAct i a [] (.error e) = [] := by
  simp [ofAct]

theorem ofAct_of_ne {a : Act δ} (ha : a.answers? ≠ some i) (news : List StoryEvent)
    (r : Except StoryError Unit) : ofAct i a news r = news.map event := by
  simp [ofAct, ha]

end Mark

theorem Stage.Suits.congr {b' : Conversation δ} {stage : Stage} {state : MachineState}
    (h : stage.Suits b state) (hphase : b'.phase = b.phase) (hpending : b'.pending = b.pending) :
    stage.Suits b' state := by
  cases h with
  | fresh h => exact .fresh (hphase.trans h)
  | opened h hstate => exact .opened (hphase.trans h) hstate
  | asked h hslice hwaiting => exact .asked (hphase.trans h) (hpending.trans hslice) hwaiting
  | closed h => exact .closed (hphase.trans h)

namespace World

theorem Untouched.recorded (hw : Untouched h i b t w) : w.host.recorded i = b.events := by
  obtain ⟨c, hc, rfl⟩ := hw.record
  simp [Story.recorded, hc, Conversation.bare]

theorem Untouched.news {b' : Conversation δ} {t' : Option MachineState} {news : List StoryEvent}
    (hw : Untouched h i b t w) (hw' : Untouched h i b' t' w') (hb : Amends b.events news b'.events) :
    w.host.news i w'.host = news := by
  rw [Story.news, hw.recorded, hw'.recorded, hb.news_eq]

inductive Abides (h : Handle) (i : Nat) (marks : List Mark) (b : Conversation δ)
    (w : World (Story δ)) : Prop
  | along {state : MachineState} (hw : Along h i marks b state w)
  | gone {stage : Stage} (hw : Untouched h i b none w) (hphase : b.phase = .destroyed)
    (hm : Told h stage marks)

theorem Abides.untouched (hw : Abides h i marks b w) : ∃ t, Untouched h i b t w := by
  cases hw with
  | along hw => exact ⟨_, hw.toUntouched⟩
  | gone hw => exact ⟨_, hw⟩

theorem Abides.told (hw : Abides h i marks b w) : ∃ stage, Told h stage marks := by
  cases hw with
  | along hw => exact hw.stage.imp fun _ => And.left
  | gone hw hphase hm => exact ⟨_, hm⟩

theorem Abides.news {marks' : List Mark} {b' : Conversation δ} {news : List StoryEvent}
    (hw : Abides h i marks b w) (hw' : Abides h i marks' b' w') (hb : Amends b.events news b'.events) :
    w.host.news i w'.host = news := by
  obtain ⟨t, hw⟩ := hw.untouched
  obtain ⟨t', hw'⟩ := hw'.untouched
  exact hw.news hw' hb

theorem Abides.keep (hw : Abides h i marks b w)
    (hkeep : ∀ t, Untouched h i b t w → Untouched h i b t w') : Abides h i marks b w' := by
  cases hw with
  | along hw => exact .along ⟨hkeep _ hw.toUntouched, hw.stage⟩
  | gone hw hphase hm => exact .gone (hkeep _ hw) hphase hm

theorem Untouched.unroute (hw : Untouched h i b t w) {h' : Handle} (hh : h' = h) :
    Untouched h i b none
      { w with host := { w.host with routes := w.host.routes.filter (·.1 != h') } } := by
  obtain ⟨c, hc, hbare⟩ := hw.record
  refine ⟨hw.orderly.host _, hw.rest.congr rfl rfl, hw.routed.filter h', hw.handle,
    .gone hc hbare ?_⟩
  rw [Story.route?_filter, if_pos hh.symm]
  simp

end World

namespace Telling

open World

theorem retains_bind {externs : Externs (Story δ)} {h' : Handle} {declared : List String} {n : Nat}
    (hw : Heeding (reserves_abstaining h) none w) (hexterns : externs.Obeys (.abstaining h))
    (hbind : externs.bind (World.exec fuel) h' declared w = some (n, w')) :
    Story.Retains h w.host w'.host := by
  let P (v : World (Story δ)) : Prop :=
    Heeding (reserves_abstaining h) none v ∧ Story.Retains h w.host v.host
  refine (Externs.preserves_bind (P := P) ?_ ?_ ⟨hw, .refl _⟩ hbind).2
  · intro name e v r v' he hv hexec
    have hop : (Externs.bindOperation h' name e).Grants (.abstaining h) := hexterns.bindOperation he _
    exact ⟨heeding_exec hv.1 hop hexec, hv.2.trans (retains_exec hv.1 hop hexec)⟩
  · intro v severity message hv
    exact ⟨hv.1.host _, hv.2.trans (hv.1.handler severity message v.host).retains⟩

theorem along_create {externs : Externs (Story δ)} {data : CompiledData} {config : Config}
    {c : Conversation δ} (hw : Calm h w) (hexterns : externs.Obeys (.abstaining h))
    (hroom : w.arena.HasRoom) (hr : (create fuel externs data config).Yields w (.ok i) w')
    (hc : w'.host.conversations[i]? = some c) (hhandle : c.handle = h) :
    ∃ b, Along h i (b.events.map .event) b .ready w' := by
  obtain ⟨heard, hchronicle⟩ := hw.chronicle
  obtain ⟨w₁, hthreshold, harena, henroll⟩ := enrolls_of_create hr
  obtain ⟨haccord, horderly⟩ :
      InAccord h (fun j => (heard j).filterMap StoryEvent.line?) w₁ ∧
        Heeding (reserves_abstaining h) none w₁ := by
    rcases hthreshold with rfl | ⟨s, a, hexec⟩
    · exact ⟨hchronicle.inAccord, hw.orderly⟩
    · exact ⟨hchronicle.inAccord.exec (by trivial) hexec, heeding_exec hw.orderly (by trivial) hexec⟩
  rw [← harena] at hroom
  rcases enroll_cases henroll with ⟨_, _, _, -, -, hfails⟩ | ⟨k, n, w₂, hparse, hbind, hi, rfl⟩
  · cases hfails
  obtain rfl : i = w₁.host.conversations.length := Except.ok.inj hi
  have henrolled := haccord.enroll config hroom hparse
  have hscene := scene_enrolled k data config haccord.rest.sound hroom haccord.routed
  have horderly : Heeding (reserves_abstaining h) none (w₁.enrolled k data config) :=
    (heeding_exec horderly (by exact .inl rfl) (exec_create_parsed config hparse 0)).host _
  -- The handle of the conversation has been its own from the start.
  obtain rfl : h = (w₁.arena.insert w₁.instances.length).1 := by
    have hemit : Story.Retains h w₂.host (w₂.host.emit w₁.host.conversations.length
        (.created (w₁.arena.insert w₁.instances.length).1)) :=
      Story.Stirs.retains (Story.stirs_modify _ _ fun _ => rfl)
    obtain ⟨c₀, hc₀, hown, -⟩ :=
      ((retains_bind horderly hexterns hbind).trans hemit).earlier hc hhandle
    obtain rfl := Option.some.inj (hc₀.symm.trans hscene.conversation)
    exact hown.symm
  have hw₁ : Untouched _ _ (Conversation.create _ config data.externs).bare (some .ready)
      (w₁.enrolled k data config) :=
    ⟨horderly, henrolled.rest, henrolled.routed, rfl,
      .here hscene rfl fun j c hc hown hphase => henrolled.only hscene (.refl _) hc hown hphase⟩
  have hw₂ := untouched_bind hw₁ hexterns hbind
  refine ⟨_, hw₂.modify (f := (·.emit (.created _))) (fun _ => rfl) fun _ => rfl, .fresh, ?_, .fresh rfl⟩
  exact .created

theorem tick_gone {r : Except StoryError Slice} (hw : Untouched h i b t w) (hphase : b.phase = .destroyed)
    (hr : (tick fuel i).Yields w r w') : (∃ e, r = .error e) ∧ w' = w := by
  unfold tick at hr
  rcases alive_bind hr with ⟨c, hc, hlive, -⟩ | ⟨-, ⟨_, rfl⟩, rfl⟩
  · exact absurd ((congrArg (·.phase) (hw.own hc).1).trans hphase) hlive
  · exact ⟨⟨_, rfl⟩, rfl⟩

theorem abides_tick {r : Except StoryError Slice} (hw : Abides h i marks b w)
    (hr : (tick fuel i).Yields w r w') : ∃ b' news,
      Abides h i (marks ++ Mark.ofTick news r) b' w' ∧ Amends b.events news b'.events := by
  cases hw with
  | along hw =>
    obtain ⟨news, ⟨b', state', hw', hevents⟩, -⟩ := ticks hw hr
    exact ⟨b', news, .along hw', hevents ▸ .told news⟩
  | gone hw hphase hm =>
    obtain ⟨⟨e, rfl⟩, rfl⟩ := tick_gone hw hphase hr
    exact ⟨b, [], by simpa [Mark.ofTick] using .gone hw hphase hm, .refl _⟩

theorem untouched_expel {state : MachineState} {r : Except StoryError Bool}
    (hw : Untouched h i b (some state) w) (hphase : b.phase ≠ .destroyed)
    (hr : (destroy fuel i).Yields w r w') :
    Untouched h i { b with phase := .destroyed } none w' := by
  obtain ⟨c, hc, rfl⟩ := hw.record
  unfold destroy at hr
  rw [yields_conversation?_bind, hc] at hr
  simp only [show c.phase ≠ .destroyed from hphase, if_false] at hr
  rw [yields_update_bind] at hr
  have hkeeps : Sustained (Untouched (δ := δ) h i c.bare (some state)) := sustained_untouched
  have hstopped := hw.even (w.host.even_stopSpeaker i)
  rcases yields_bind.mp hr with ⟨⟨⟩, w₁, hunbind, hr⟩ | ⟨e, hunbind, -⟩
  · have hw₁ := hkeeps.unbindStore fuel c _ _ _ hstopped hunbind
    rw [yields_update_bind] at hr
    obtain ⟨a, w₂, hexec, hr⟩ := yields_perform_bind.mp hr
    rw [yields_update_bind] at hr
    obtain ⟨-, rfl⟩ := yields_pure.mp hr
    have hw₂ := (hw₁.unroute hw.handle).exec (by trivial) (fun h => absurd rfl h) hexec
    exact hw₂.modify (f := fun c => { c with phase := .destroyed }) (fun _ => rfl) fun _ => rfl
  · obtain ⟨u, heq⟩ := succeeds_unbindStore fuel i c _ _ _ hunbind
    cases heq

theorem untouched_taken {a : Act δ} {r : Except StoryError Unit} (hw : Untouched h i b t w)
    (ha : a.takes? = some i) (hr : (a.telling fuel).Yields w r w') :
    ∃ n, Untouched h i { b with events := b.events.drop n } t w' := by
  have htake (n : Nat) (g : List StoryEvent → List StoryEvent) (hg : g b.events = b.events.drop n) :
      Untouched h i { b with events := b.events.drop n } t
        { w with host := w.host.modify i fun c => { c with events := g c.events } } := by
    rw [← hg]
    exact hw.modify (f := fun c => { c with events := g c.events }) (fun _ => rfl) fun _ => rfl
  cases a with
  | takeEvents j =>
    obtain rfl : j = i := Option.some.inj ha
    obtain ⟨r', hr⟩ := yields_of_reply hr
    obtain ⟨-, rfl⟩ := yields_takeEvents.mp hr
    exact ⟨b.events.length, htake _ (fun _ => []) (by simp)⟩
  | takeEvent j =>
    obtain rfl : j = i := Option.some.inj ha
    obtain ⟨r', hr⟩ := yields_of_reply hr
    obtain ⟨-, rfl⟩ := yields_takeEvent?.mp hr
    exact ⟨1, htake _ List.tail List.drop_one.symm⟩
  | _ => cases ha

theorem along_answer {e : StoryError} {op : Handle → Operation (Story δ)} {state : MachineState}
    {r : Except StoryError Unit} (hop : ∀ h, (op h).Answers h) (hw : Along h i marks b state w)
    (hr : (alive i >>= fun c => performFlag fuel (op c.handle) >>= fun b =>
      if !b then throw e >>= fun _ : PUnit => update (·.clearPending i)
      else update (·.clearPending i)).Yields w r w') : ∃ b' state',
      Along h i (marks ++ if r = .ok () then [.answered] else []) b' state' w' ∧
        b'.events = b.events := by
  obtain ⟨stage, htold, hsuits⟩ := hw.stage
  rcases untouched_answer hop hw.toUntouched hr with ⟨⟨e, rfl⟩, hw'⟩ | ⟨rfl, ⟨kind, rfl⟩, hw'⟩
  · exact ⟨b, state, by simpa using ⟨hw', stage, htold, hsuits⟩, rfl⟩
  · cases hsuits with
    | opened _ hstate => simp at hstate
    | asked hphase =>
      refine ⟨_, _, ⟨hw', .opened, ?_, .opened hphase (.inl rfl)⟩, rfl⟩
      simpa using htold.answered

theorem yields_start {r : Except StoryError Unit} (hr : (start fuel i).Yields w r w') :
    ∃ bough, (startBough fuel i bough).Yields w r w' := by
  unfold start at hr
  rw [yields_conversation?_bind] at hr
  exact ⟨_, hr⟩

theorem along_startBough {bough : String} {state : MachineState} {r : Except StoryError Unit}
    (hw : Along h i marks b state w) (hr : (startBough fuel i bough).Yields w r w') :
    ∃ b' state' news, Along h i (marks ++ news.map .event) b' state' w' ∧
      b'.events = b.events ++ news ∧ .ended ∉ news := by
  obtain ⟨stage, htold, hsuits⟩ := hw.stage
  rcases untouched_startBough hw.toUntouched hr with hw' | ⟨hstate, hw'⟩
  · exact ⟨b, state, [], by simpa using ⟨hw', stage, htold, hsuits⟩, by simp, by simp⟩
  · have hstage : stage = .fresh ∨ stage = .closed := by
      cases hsuits with
      | fresh => exact .inl rfl
      | closed => exact .inr rfl
      | opened _ hopen => rcases hopen with rfl | rfl <;> simp at hstate
      | asked => simp at hstate
    exact ⟨_, _, [.started bough], ⟨hw', .opened, htold.started hstage bough,
      .opened rfl (.inl rfl)⟩, rfl, by simp⟩

theorem answer_gone {a : Act δ} {r : Except StoryError Unit} (hw : Untouched h i b t w)
    (hphase : b.phase = .destroyed) (ha : a.answers? = some i) (hr : (a.telling fuel).Yields w r w') :
    ∃ e, r = .error e := by
  have hdead {f : Conversation δ → Telling δ Unit} (hr : (alive i >>= f).Yields w r w') :
      ∃ e, r = .error e := by
    rcases alive_bind hr with ⟨c, hc, hlive, -⟩ | ⟨-, ⟨_, rfl⟩, -⟩
    · exact absurd ((congrArg (·.phase) (hw.own hc).1).trans hphase) hlive
    · exact ⟨_, rfl⟩
  cases a with
  | continueLine j =>
    obtain rfl : j = i := Option.some.inj ha
    exact hdead hr
  | selectChoice j index =>
    obtain rfl : j = i := Option.some.inj ha
    exact hdead hr
  | _ => cases ha

theorem abides_act {a : Act δ} {r : Except StoryError Unit} (hw : Abides h i marks b w)
    (ha : a.Obeys (.abstaining h)) (hfits : a.Fits w) (hends : a.ends? ≠ some i)
    (hr : (a.telling fuel).Yields w r w') : ∃ b' news,
      Abides h i (marks ++ Mark.ofAct i a news r) b' w' ∧ Amends b.events news b'.events ∧
        .ended ∉ news := by
  by_cases htakes : a.takes? = some i
  · have hanswers : a.answers? ≠ some i := by
      cases a <;> first | simp [Act.answers?]; done | cases htakes
    cases hw with
    | along hw =>
      obtain ⟨n, hw'⟩ := untouched_taken hw.toUntouched htakes hr
      obtain ⟨stage, htold, hsuits⟩ := hw.stage
      refine ⟨{ b with events := b.events.drop n }, [], ?_, .taken n, by simp⟩
      rw [Mark.ofAct_of_ne hanswers, List.map_nil, List.append_nil]
      exact .along ⟨hw', stage, htold, hsuits.congr rfl rfl⟩
    | gone hw hphase hm =>
      obtain ⟨n, hw'⟩ := untouched_taken hw htakes hr
      refine ⟨{ b with events := b.events.drop n }, [], ?_, .taken n, by simp⟩
      rw [Mark.ofAct_of_ne hanswers, List.map_nil, List.append_nil]
      exact .gone hw' hphase hm
  by_cases hmoves : a.moves? = some i → b.phase = .destroyed
  · obtain ⟨t, hw₀⟩ := hw.untouched
    have hnothing : Mark.ofAct i a [] r = [] := by
      by_cases hanswers : a.answers? = some i
      · have hmoved : a.moves? = some i := by
          cases a <;> first | exact hanswers | cases hanswers
        obtain ⟨e, rfl⟩ := answer_gone hw₀ (hmoves hmoved) hanswers hr
        exact Mark.ofAct_of_error i a e
      · exact Mark.ofAct_of_ne hanswers [] r
    refine ⟨b, [], ?_, .refl _, by simp⟩
    rw [hnothing, List.append_nil]
    exact hw.keep fun t hw => untouched_act hw ha hfits hmoves htakes hr
  rw [Classical.not_imp] at hmoves
  obtain ⟨hmoves, hphase⟩ := hmoves
  cases hw with
  | gone _ hgone => exact absurd hgone hphase
  | along hw =>
    cases a with
    | startBough j bough =>
      obtain rfl : j = i := Option.some.inj hmoves
      obtain ⟨b', state', news, hw', hevents, hended⟩ := along_startBough hw hr
      refine ⟨b', news, ?_, hevents ▸ .told news, hended⟩
      rw [Mark.ofAct_of_ne (by simp [Act.answers?])]
      exact .along hw'
    | start j =>
      obtain rfl : j = i := Option.some.inj hmoves
      obtain ⟨bough, hr⟩ := yields_start hr
      obtain ⟨b', state', news, hw', hevents, hended⟩ := along_startBough hw hr
      refine ⟨b', news, ?_, hevents ▸ .told news, hended⟩
      rw [Mark.ofAct_of_ne (by simp [Act.answers?])]
      exact .along hw'
    | continueLine j =>
      obtain rfl : j = i := Option.some.inj hmoves
      obtain ⟨b', state', hw', hevents⟩ := along_answer (fun _ => .line) hw hr
      refine ⟨b', [], ?_, hevents ▸ .refl _, by simp⟩
      simpa [Mark.ofAct, Act.answers?] using Abides.along hw'
    | selectChoice j index =>
      obtain rfl : j = i := Option.some.inj hmoves
      obtain ⟨b', state', hw', hevents⟩ := along_answer (fun _ => .choice index) hw hr
      refine ⟨b', [], ?_, hevents ▸ .refl _, by simp⟩
      simpa [Mark.ofAct, Act.answers?] using Abides.along hw'
    | destroy j =>
      obtain rfl : j = i := Option.some.inj hmoves
      obtain ⟨r', hr⟩ := yields_of_reply hr
      obtain ⟨stage, htold, -⟩ := hw.stage
      refine ⟨{ b with phase := .destroyed }, [], ?_, .refl _, by simp⟩
      rw [Mark.ofAct_of_ne (by simp [Act.answers?]), List.map_nil, List.append_nil]
      exact .gone (untouched_expel hw.toUntouched hphase hr) rfl htold
    | tick j | play j _ | finish j => exact absurd hmoves hends
    | _ => cases hmoves

end Telling

namespace Annals

open World

theorem abides (hw : Annals h i marks w) : ∃ b taken, Abides h i marks b w ∧
    marks.filterMap Mark.event? = taken ++ b.events := by
  induction hw with
  | create hw hexterns hroom hr hc hhandle =>
    obtain ⟨b, hb⟩ := Telling.along_create hw hexterns hroom hr hc hhandle
    rw [hb.recorded]
    exact ⟨b, [], .along hb, Mark.filterMap_event _⟩
  | tick _ hr ih =>
    obtain ⟨b, taken, hb, hevents⟩ := ih
    obtain ⟨b', news, hb', hamends⟩ := Telling.abides_tick hb hr
    obtain ⟨taken', htaken⟩ := hamends.exists_taken hevents
    rw [hb.news hb' hamends, List.filterMap_append, Mark.events_ofTick]
    exact ⟨b', taken', hb', htaken⟩
  | act _ ha hfits hends hr ih =>
    obtain ⟨b, taken, hb, hevents⟩ := ih
    obtain ⟨b', news, hb', hamends, -⟩ := Telling.abides_act hb ha hfits hends hr
    obtain ⟨taken', htaken⟩ := hamends.exists_taken hevents
    rw [hb.news hb' hamends, List.filterMap_append, Mark.events_ofAct]
    exact ⟨b', taken', hb', htaken⟩
  | operate _ hop hexec ih =>
    obtain ⟨b, taken, hb, hevents⟩ := ih
    exact ⟨b, taken, hb.keep fun t hw => hw.exec hop.2 (fun _ => hop.1) hexec, hevents⟩
  | update _ hs ih =>
    obtain ⟨b, taken, hb, hevents⟩ := ih
    exact ⟨b, taken, hb.keep fun t hw => hw.spare hs, hevents⟩

theorem sliced (marks : List Mark) (fuel : Nat) :
    Sliced fuel i fun w : World (Story δ) => ∃ more, Annals h i (marks ++ more) w := by
  have hact {a : Act δ} {w w' : World (Story δ)} {r : Except StoryError Unit}
      (ha : a.Obeys (.abstaining h)) (hfits : a.Fits w) (hends : a.ends? ≠ some i)
      (hw : ∃ more, Annals h i (marks ++ more) w) (hr : (a.telling fuel).Yields w r w') :
      ∃ more, Annals h i (marks ++ more) w' := by
    obtain ⟨more, hw⟩ := hw
    have hw' := hw.act ha hfits hends hr
    rw [List.append_assoc] at hw'
    exact ⟨_, hw'⟩
  refine ⟨fun bough w r w' hw hr => ?_, fun w r w' hw hr => ?_, fun w r w' hw hr => ?_,
    fun index w r w' hw hr => ?_, fun f w r w' hw hr => ?_⟩
  · exact hact (a := .startBough i bough) (by trivial) (by trivial) (by simp [Act.ends?]) hw hr
  · obtain ⟨more, hw⟩ := hw
    have hw' := hw.tick hr
    rw [List.append_assoc] at hw'
    exact ⟨_, hw'⟩
  · exact hact (a := .continueLine i) (by trivial) (by trivial) (by simp [Act.ends?]) hw hr
  · exact hact (a := .selectChoice i index) (by trivial) (by trivial) (by simp [Act.ends?]) hw hr
  · obtain ⟨-, rfl⟩ := Telling.yields_update.mp hr
    obtain ⟨more, hw⟩ := hw
    exact ⟨more, hw.update ⟨fun _ _ _ => .rfl, rfl, id⟩⟩

theorem tick_news {c : Conversation δ} {r : Except StoryError Slice} (hw : Abides h i marks b w)
    (hc : w.host.conversations[i]? = some c) (hr : (Telling.tick fuel i).Yields w r w') :
    (.ended ∈ w.host.news i w'.host ↔ r = .ok .finished ∧ c.phase = .started) ∧
      (.ended ∈ w.host.news i w'.host → ∃ m, w'.machine? h = some m ∧ w'.host.state.Holds m) := by
  cases hw with
  | along hw =>
    obtain ⟨news, ⟨b', state', hw', hevents⟩, hends, hholds⟩ := Telling.ticks hw hr
    have hamends : Amends b.events news b'.events := by
      rw [hevents]
      exact .told news
    rw [hw.news hw'.toUntouched hamends]
    exact ⟨(congrArg (·.phase) (hw.own hc).1) ▸ hends, hholds⟩
  | gone hw hphase hm =>
    obtain ⟨⟨e, rfl⟩, rfl⟩ := Telling.tick_gone hw hphase hr
    rw [hw.news hw (.refl _)]
    simp

/-- What a conversation tells, whatever is done in its library by a host that leaves it to ticks to
finish the conversation and to the player to get its machine on. First of all it is created, and then
it goes in rounds of a start, lines, choices and changes, and the end, which only the last can be
without: it is, as long as the conversation is started. A line and choices are answered next. The end
is followed by the tick that finds the conversation over, which is the one that tells of it and that
saves the variables; only such ticks follow until the next start. There are never more than `2 ^ 32`
slots for machines; speakers act on the state of the host only, and those who watch shared variables
are machines. -/
theorem rounds (hw : Annals h i marks w) : ∃ (c : Conversation δ) (last : Option Round),
    w.host.conversations[i]? = some c ∧ c.handle = h ∧
    (∃ taken, marks.filterMap Mark.event? = taken ++ c.events) ∧
    Round.Spell h last (marks.filterMap Mark.event?) ∧
    (c.phase ≠ .destroyed → (last.isSome = true ↔ c.phase = .started)) ∧
    marks.IsChain Mark.Precedes ∧ marks.getLast? ≠ some (.event .ended) ∧
    (∀ fuel r w', (Telling.tick fuel i).Yields w r w' →
      (.ended ∈ w.host.news i w'.host ↔ r = .ok .finished ∧ c.phase = .started) ∧
      (.ended ∈ w.host.news i w'.host → ∃ m, w'.machine? h = some m ∧ w'.host.state.Holds m)) ∧
    (∀ fuel (a : Act δ) r w', a.Obeys (.abstaining h) → a.Fits w → a.ends? ≠ some i →
      (a.telling fuel).Yields w r w' → .ended ∉ w.host.news i w'.host) ∧
    ∀ fuel responder r w', (Telling.play fuel i responder).Yields w r w' →
      ∃ more, Annals h i (marks ++ more) w' := by
  obtain ⟨b, taken, hb, hevents⟩ := hw.abides
  obtain ⟨t, hb₀⟩ := hb.untouched
  obtain ⟨c, hc, rfl⟩ := hb₀.record
  have hlast : ∃ last, Round.Spell h last (marks.filterMap Mark.event?) ∧
      (c.phase ≠ .destroyed → (last.isSome = true ↔ c.phase = .started)) := by
    cases hb with
    | along hb =>
      obtain ⟨stage, htold, hsuits⟩ := hb.stage
      obtain ⟨last, hopen, hspell⟩ := htold.spell
      exact ⟨last, hspell, fun _ => hopen ▸ hsuits.isOpen_iff⟩
    | gone _ hphase htold =>
      obtain ⟨last, -, hspell⟩ := htold.spell
      exact ⟨last, hspell, fun hlive => absurd hphase hlive⟩
  obtain ⟨last, hspell, hstarted⟩ := hlast
  obtain ⟨stage, htold⟩ := hb.told
  obtain ⟨hchain, m, hm, hends⟩ := htold.chain
  have hended : m ≠ .event .ended := by
    rintro rfl
    cases stage with
    | fresh | opened => exact hends.2 rfl
    | asked | closed => cases hends
  refine ⟨c, last, hc, (hb₀.own hc).2, ⟨taken, hevents⟩, hspell, hstarted, hchain, ?_,
    fun fuel r w' => tick_news hb hc, fun fuel a r w' ha hfits hends hr => ?_,
    fun fuel responder r w' hr => ?_⟩
  · rw [hm]
    exact fun heq => hended (Option.some.inj heq)
  · obtain ⟨b', news, hb', hamends, hnews⟩ := Telling.abides_act hb ha hfits hends hr
    rwa [hb.news hb' hamends]
  · exact (sliced marks fuel).play responder w r w' ⟨[], by simpa using hw⟩ hr

def recite (fuel : Nat) (acts : List (Act δ)) (w : World (Story δ)) : Option (World (Story δ)) :=
  acts.foldlM (fun w a => ((a.telling fuel).run.run w).map (·.2)) w

theorem extend {acts : List (Act δ)} (hw : Annals h i marks w)
    (hacts : ∀ a ∈ acts, a.isOrdinary = true ∧ (a.ends? = some i → a = .tick i))
    (hrecite : recite fuel acts w = some w') : ∃ more, Annals h i (marks ++ more) w' := by
  induction acts generalizing marks w with
  | nil =>
    cases hrecite
    exact ⟨[], by simpa using hw⟩
  | cons a acts ih =>
    obtain ⟨⟨hordinary, hends⟩, hacts⟩ := List.forall_mem_cons.mp hacts
    obtain ⟨w₁, hfirst, hrest⟩ := Option.bind_eq_some_iff.mp hrecite
    obtain ⟨⟨r, w₁⟩, hr, rfl⟩ := Option.map_eq_some_iff.mp hfirst
    have hmore : ∃ more, Annals h i (marks ++ more) w₁ := by
      by_cases htick : a = .tick i
      · subst htick
        obtain ⟨r', hr⟩ := Telling.yields_of_reply hr
        exact ⟨_, hw.tick hr⟩
      · refine ⟨_, hw.act ?_ ?_ (fun h => htick (hends h)) hr⟩
        · cases a <;> first | exact trivial | cases hordinary
        · cases a <;> first | exact trivial | cases hordinary
    obtain ⟨more, hw₁⟩ := hmore
    obtain ⟨more', hw'⟩ := ih hw₁ hacts hrest
    exact ⟨more ++ more', by rwa [← List.append_assoc]⟩

def encore : List (Act Unit) :=
  [.tick 0, .startBough 0 "nowhere", .start 0, .tick 0, .continueLine 0, .continueLine 0, .tick 0,
    .tick 0, .start 0, .tick 0]

theorem rounds_greeting : ∃ (marks : List Mark) (w : World (Story Unit)) (c : Conversation Unit)
    (last : Round), Annals c.handle 0 marks w ∧ w.host.conversations[0]? = some c ∧
      c.events.map StoryEvent.asks = [false, false, true, false, false, true] ∧
      (∃ taken, marks.filterMap Mark.event? = taken ++ c.events) ∧
      Round.Spell c.handle (some last) (marks.filterMap Mark.event?) ∧
      marks.IsChain Mark.Precedes := by
  let w₀ : World (Story Unit) := .create (fun _ _ s => s) (.create ())
  have h : (do
      let bytes ← (Builder.run .offset Telling.greeting).build.toOption
      let data ← (CompiledData.ofBytes bytes).toOption
      let x ← (Telling.create 9 .empty data {}).run.run w₀
      let first ← x.2.host.conversations[0]?
      let w ← recite 9 encore x.2
      let c ← w.host.conversations[0]?
      return (decide (x.1 = .ok 0), decide (c.phase = .started),
        c.events.map StoryEvent.asks)) =
      some (true, true, [false, false, true, false, false, true]) := by
    decide +kernel
  obtain ⟨bytes, -, h⟩ := Option.bind_eq_some_iff.mp h
  obtain ⟨data, -, h⟩ := Option.bind_eq_some_iff.mp h
  obtain ⟨⟨r, w₁⟩, hcreate, h⟩ := Option.bind_eq_some_iff.mp h
  obtain ⟨first, hfirst, h⟩ := Option.bind_eq_some_iff.mp h
  obtain ⟨w, hrecite, h⟩ := Option.bind_eq_some_iff.mp h
  obtain ⟨c, hc, h⟩ := Option.bind_eq_some_iff.mp h
  simp only [pure, Option.some.injEq, Prod.mk.injEq, decide_eq_true_eq] at h
  obtain ⟨rfl, hphase, hasks⟩ := h
  have hroom : (Arena.empty : Arena Nat).HasRoom := show 0 < UInt32.size by decide
  have hobeys : (Act.create .empty data {} : Act Unit).Obeys (.abstaining first.handle) := by
    intro name arity body hmem
    cases hmem
  have hw₀ : Calm first.handle w₀ := .create (fun _ _ s => .refl _ s) rfl rfl
  have hw₁ := Annals.create hw₀ hobeys hroom hcreate hfirst rfl
  obtain ⟨more, hw⟩ := hw₁.extend (by simp [encore, Act.isOrdinary, Act.ends?]) hrecite
  obtain ⟨c', last, hc', hhandle, htaken, hspell, hlast, hchain, -⟩ := Annals.rounds hw
  obtain rfl : c = c' := Option.some.inj (hc.symm.trans hc')
  obtain ⟨round, rfl⟩ := Option.isSome_iff_exists.mp ((hlast (by simp [hphase])).mpr hphase)
  exact ⟨_, w, c, round, hhandle ▸ hw, hc, hasks, htaken, hhandle ▸ hspell, hchain⟩

def hustle (first second : CompiledData) : List (Act Unit) :=
  let nudge (_ : List Value) : Reaction (Story Unit) :=
    .call (.selectContinue ⟨0, 0⟩) fun _ => .done .nil
  [.create .empty first {}, .create (.ofList [("nudge", .function 0 nudge)]) second {}, .start 0,
    .tick 0, .start 1, .tick 1, .tick 0]

theorem not_rounds_hustle : ∃ (first second : CompiledData) (w : World (Story Unit))
    (c : Conversation Unit),
    recite 9 (hustle first second) (.create (fun _ _ s => s) (.create ())) = some w ∧
      w.host.conversations[0]? = some c ∧
      (∀ a ∈ hustle first second, a.answers? ≠ some 0 ∧ a.takes? ≠ some 0 ∧
        (a.ends? = some 0 → a = .tick 0)) ∧
      c.events.map StoryEvent.asks = [false, false, true, true] := by
  have h : (do
      let bytes ← (Builder.run .offset [.bough "main", .line "mara" "Hello." [],
        .line "mara" "Well?" [], .stop]).build.toOption
      let first ← (CompiledData.ofBytes bytes).toOption
      let bytes ← (Builder.run .offset [.externVariable "nudge", .bough "main", .call 0 [] none,
        .stop]).build.toOption
      let second ← (CompiledData.ofBytes bytes).toOption
      let w ← recite 9 (hustle first second) (.create (fun _ _ s => s) (.create ()))
      let c ← w.host.conversations[0]?
      return c.events.map StoryEvent.asks) = some [false, false, true, true] := by
    decide +kernel
  obtain ⟨bytes, -, h⟩ := Option.bind_eq_some_iff.mp h
  obtain ⟨first, -, h⟩ := Option.bind_eq_some_iff.mp h
  obtain ⟨bytes', -, h⟩ := Option.bind_eq_some_iff.mp h
  obtain ⟨second, -, h⟩ := Option.bind_eq_some_iff.mp h
  obtain ⟨w, hrecite, h⟩ := Option.bind_eq_some_iff.mp h
  obtain ⟨c, hc, h⟩ := Option.bind_eq_some_iff.mp h
  refine ⟨first, second, w, c, hrecite, hc, ?_, Option.some.inj h⟩
  simp [hustle, Act.answers?, Act.takes?, Act.ends?]

end Annals

end Dialogue
