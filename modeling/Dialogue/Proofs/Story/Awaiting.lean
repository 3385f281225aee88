import Dialogue.Proofs.Story.Accord
import Dialogue.Proofs.Story.Slice

namespace Dialogue

variable {δ : Type} {h : Handle} {i : Nat} {told : Nat → List SpokenLine} {w w' : World (Story δ)}
  {c : Conversation δ} {fuel : Nat}

namespace Telling

open World

variable {α β : Type}

theorem inAccord_startBough (fuel i : Nat) (bough : String) :
    (startBough fuel i bough).Maintains (InAccord (δ := δ) h told) := by
  intro w r w' hw hr
  unfold startBough at hr
  rcases alive_bind hr with ⟨c, hc, hphase, hr⟩ | ⟨-, -, rfl⟩
  · have hengaged : Sustained (Engaged (δ := δ) h told i c.handle) := sustained_engaged
    refine reaches_bind (hengaged.inject fuel _) (fun _ => Engaged.toInAccord) (fun _ =>
      reaches_bind (hengaged.bindStore fuel c) (fun _ => Engaged.toInAccord) fun _ => ?_)
      w r w' (hw.engage hc hphase) hr
    intro w r w' hw hr
    obtain ⟨a, w₁, hexec, ⟨hyes, hr⟩ | ⟨-, -, rfl⟩⟩ := yields_guard.mp hr
    · obtain ⟨-, rfl⟩ := yields_update.mp hr
      have hw₁ := hw.exec (by trivial) hexec
      rw [Story.emit, Story.clearPending, Story.modify_modify, Story.modify_modify]
      exact hw₁.modify (fun _ => rfl) fun c m hm _ =>
        accord_of_idle (Machine.isWaiting_of_running (running_of_start hw.rest hexec hyes hm)) rfl
    · exact (hw.exec (by trivial) hexec).toInAccord
  · exact hw

theorem inAccord_finish (fuel i : Nat) : (finish fuel i).Maintains (InAccord (δ := δ) h told) := by
  intro w r w' hw hr
  unfold finish at hr
  rw [yields_conversation?_bind] at hr
  split at hr
  · obtain ⟨-, rfl⟩ := yields_pure.mp hr
    exact hw
  · rename_i c hc
    split at hr
    · obtain ⟨-, rfl⟩ := yields_pure.mp hr
      exact hw
    · rename_i hphase
      have hengaged : Sustained (Engaged (δ := δ) h told i c.handle) := sustained_engaged
      refine reaches_bind (hengaged.saveState fuel) (fun _ => Engaged.toInAccord) (fun saved =>
        reaches_bind (hengaged.maintains fun s => s.even_silence _ i) (fun _ => Engaged.toInAccord)
          fun _ => reaches_bind (hengaged.unbindStore fuel c) (fun _ => Engaged.toInAccord)
            fun _ => ?_) w r w' (hw.engage hc ?_) hr
      · intro w r w' hw hr
        obtain ⟨-, rfl⟩ := yields_update.mp hr
        rw [Story.emit, Story.modify_modify]
        refine hw.modify (fun _ => rfl) fun c m _ haccord => haccord.record ?_ rfl
        simp [Conversation.said, Conversation.emit, StoryEvent.line?]
      · rw [not_not] at hphase
        simp [hphase]

theorem inAccord_ran {a : Reply} {r : Except StoryError Slice} {h' : Handle} (hw : InAccord h told w)
    (hran : Ran fuel i h' a w r w') : InAccord h told w' := by
  cases hran with
  | waits _ _ _ hr => exact maintains_pending i w r w' hw hr
  | ends _ _ _ hr => exact maintains_finishSlice (inAccord_finish fuel i) w r w' hw hr
  | goesOn _ _ _ _ hsame | fails _ _ _ hsame => exact hsame ▸ hw
  | lost _ hexec _ => exact hw.exec (by trivial) hexec

theorem inAccord_tick (fuel i : Nat) : (tick fuel i).Maintains (InAccord (δ := δ) h told) := by
  intro w r w' hw hr
  rcases tick_outcome hw.rest hr with ⟨c, hc, hphase, hticked⟩ | ⟨-, -, rfl⟩
  · cases hticked with
    | refused _ _ _ hsame => exact hsame ▸ hw
    | ended _ _ hr => exact maintains_finishSlice (inAccord_finish fuel i) w r w' hw hr
    | waiting _ _ hr => exact maintains_pending i w r w' hw hr
    | ran hm hstate hexec hran =>
      exact inAccord_ran ((hw.cleared hc hphase hm hstate).exec (by trivial) hexec) hran
    | lost _ hexec _ => exact hw.exec (by trivial) hexec
  · exact hw

theorem inAccord_answer {e : StoryError} {op : Handle → Operation (Story δ)}
    (hop : ∀ h, (op h).Answers h) (fuel i : Nat) :
    (alive i >>= fun c => performFlag fuel (op c.handle) >>= fun b =>
      if !b then throw e >>= fun _ : PUnit => update (·.clearPending i)
      else update (·.clearPending i)).Maintains (InAccord (δ := δ) h told) := by
  intro w r w' hw hr
  rcases alive_bind hr with ⟨c, hc, hphase, hr⟩ | ⟨-, -, rfl⟩
  · obtain ⟨a, w₁, hexec, ⟨hyes, hr⟩ | ⟨hno, -, rfl⟩⟩ := yields_guard.mp hr
    · obtain ⟨-, rfl⟩ := yields_update.mp hr
      exact (hw.answer hc hphase (hop _) hexec).1 hyes
    · exact (hw.answer hc hphase (hop _) hexec).2 hno
  · exact hw

theorem inAccord_continueLine (fuel i : Nat) :
    (continueLine fuel i).Maintains (InAccord (δ := δ) h told) :=
  inAccord_answer (fun _ => .line) fuel i

theorem inAccord_selectChoice (fuel i index : Nat) :
    (selectChoice fuel i index).Maintains (InAccord (δ := δ) h told) :=
  inAccord_answer (fun _ => .choice index) fuel i

theorem played_inAccord (fuel i : Nat) : Played fuel i (InAccord (δ := δ) h told) :=
  ⟨⟨inAccord_startBough fuel i, inAccord_tick fuel i, inAccord_continueLine fuel i,
    inAccord_selectChoice fuel i,
    fun _ => sustained_inAccord.maintains fun _ => .of_conversations rfl rfl⟩, inAccord_finish fuel i⟩

theorem inAccord_enroll {externs : Externs (Story δ)} {data : CompiledData} {config : Config}
    {r : Except StoryError Nat} (hw : InAccord h told w) (hroom : w.arena.HasRoom)
    (hexterns : externs.Defers h) (hr : (enroll fuel externs data config).Yields w r w') :
    InAccord h told w' := by
  rcases enroll_cases hr with ⟨a, message, e, hexec, -⟩ | ⟨k, n, w₁, hparse, hbind, -, rfl⟩
  · exact hw.exec (by exact .inl rfl) hexec
  · have hbound : InAccord h told w₁ := by
      refine Externs.preserves_bind ?_ ?_ (hw.enroll config hroom hparse) hbind
      · exact fun he hw hexec => hw.exec (hexterns.bindOperation he _) hexec
      · exact fun w severity message hw => hw.spare (hw.orderly.handler severity message w.host)
    refine hbound.modify (fun _ => rfl) (fun _ _ => rfl) (fun _ _ _ => id) fun c m _ _ _ haccord => ?_
    exact haccord.record (by simp [Conversation.said, Conversation.emit, StoryEvent.line?]) rfl

theorem inAccord_create {externs : Externs (Story δ)} {data : CompiledData} {config : Config}
    {r : Except StoryError Nat} (hw : InAccord h told w) (hroom : w.arena.HasRoom)
    (hexterns : externs.Defers h) (hr : (create fuel externs data config).Yields w r w') :
    InAccord h told w' := by
  obtain ⟨w₁, hthreshold, harena, henroll⟩ := enrolls_of_create hr
  rw [← harena] at hroom
  rcases hthreshold with rfl | ⟨s, a, hexec⟩
  · exact inAccord_enroll hw hroom hexterns henroll
  · exact inAccord_enroll (hw.exec (by trivial) hexec) hroom hexterns henroll

theorem inAccord_destroy (fuel i : Nat) :
    (destroy fuel i).Maintains (InAccord (δ := δ) h told) := by
  intro w r w' hw hr
  unfold destroy at hr
  rw [yields_conversation?_bind] at hr
  split at hr
  · obtain ⟨-, rfl⟩ := yields_pure.mp hr
    exact hw
  · rename_i c hc
    split at hr
    · obtain ⟨-, rfl⟩ := yields_pure.mp hr
      exact hw
    · rename_i hphase
      rw [yields_update_bind] at hr
      have heven := Story.even_stopSpeaker w.host i
      by_cases hhandle : c.handle = h
      · subst hhandle
        obtain ⟨k, inst, hs, -⟩ := hw.scene i c hc rfl hphase
        have hsole : Sole c.handle i w :=
          ⟨hw.orderly, hw.rest, hw.routed, fun j c' => hw.only hs (.refl w.host)⟩
        refine reaches_bind ((sustained_inAccord.and sustained_sole).unbindStore fuel c)
          (fun _ h => h.1) (fun _ => ?_) _ r w' ⟨hw.even heven, hsole.host heven.retains⟩ hr
        intro w r w' hw hr
        rw [yields_update_bind] at hr
        obtain ⟨a, w₁, hexec, hr⟩ := yields_perform_bind.mp hr
        rw [yields_update_bind] at hr
        obtain ⟨-, rfl⟩ := yields_pure.mp hr
        exact ((hw.2.host (Story.retains_filter _ _ c.handle)).exec (by trivial) hexec).destroyed
      · refine maintains_bind (sustained_inAccord.unbindStore fuel c) (fun _ => ?_) _ r w'
          (hw.even heven) hr
        refine maintains_bind (maintains_update fun w hw => ?_) fun _ =>
          maintains_bind (maintains_perform fun w r w' hw hexec => hw.exec ?_ hexec) fun _ =>
            maintains_bind (maintains_update fun w hw => ?_) fun _ => maintains_pure _
        · refine hw.update (hw.routed.filter _) ?_ fun i c hc hhandle hphase =>
            ⟨c, hc, hhandle, hphase, fun _ _ => id⟩
          rw [Story.route?_filter, if_neg (Ne.symm hhandle)]
        · exact hhandle
        · exact hw.modify (fun _ => rfl) (fun _ _ => rfl) (fun _ _ _ h => absurd rfl h)
            fun c m _ _ _ haccord => haccord.record rfl rfl

theorem exists_pending {lines : List SpokenLine} {m : HostMachine (Story δ)}
    (haccord : Accord lines c m) (hwaiting : m.isWaiting = true) :
    ∃ slice, c.pending = some slice ∧ slice.isWaiting = true := by
  obtain ⟨kind, hstate⟩ := Machine.isWaiting_iff.mp hwaiting
  cases kind with
  | continuation =>
    obtain ⟨spoken, -, hpending⟩ := haccord.line hstate
    exact ⟨_, hpending, rfl⟩
  | choice => exact ⟨_, haccord.choices hstate, rfl⟩

theorem yields_pending_of_some {slice : Slice} {r : Except StoryError Slice}
    (hc : w.host.conversations[i]? = some c) (hpending : c.pending = some slice) :
    (pending i).Yields w r w' ↔ r = .ok slice ∧ w' = w := by
  rw [yields_pending, hc, Option.bind_some, hpending, Option.getD_some]

theorem yields_tick_of_waiting {slice : Slice} {m : HostMachine (Story δ)}
    {r : Except StoryError Slice} (hw : w.AtRest) (hc : w.host.conversations[i]? = some c)
    (hphase : c.phase ≠ .destroyed) (hm : w.machine? c.handle = some m)
    (hwaiting : m.isWaiting = true) (hpending : c.pending = some slice) (fuel : Nat) :
    (tick (fuel + 1) i).Yields w r w' ↔ r = .ok slice ∧ w' = w := by
  have hstate : (machineState (fuel + 1) c.handle).Yields w (.ok m.state) w :=
    yields_perform_bind.mpr ⟨_, w, hw.exec_state hm fuel, yields_pure.mpr ⟨rfl, rfl⟩⟩
  obtain ⟨kind, hkind⟩ := Machine.isWaiting_iff.mp hwaiting
  unfold tick
  rw [yields_alive_bind hc hphase, yields_bind_of_ok hstate, hkind]
  exact yields_pending_of_some hc hpending

theorem not_running_of_waiting {lines : List SpokenLine} {m : HostMachine (Story δ)}
    (hc : w.host.conversations[i]? = some c) (haccord : Accord lines c m)
    (hwaiting : m.isWaiting = true) : ¬(pending i).Yields w (.ok .running) w' := by
  intro hr
  obtain ⟨slice, hpending, hslice⟩ := exists_pending haccord hwaiting
  obtain ⟨heq, -⟩ := (yields_pending_of_some hc hpending).mp hr
  cases heq
  cases hslice

theorem not_running_of_ran {k : Nat} {inst : Instance (Story δ)} {a : Reply} {w₁ : World (Story δ)}
    (hw : InAccord h told w) (hs : Scene h i k c inst w) (hphase : c.phase ≠ .destroyed)
    (hrunning : inst.machine.state = .running) (hexec : exec fuel (.run h) w = some (a, w₁)) :
    ¬Ran fuel i h a w₁ (.ok .running) w' := by
  have hidle := hw.rest.idle inst (List.mem_of_getElem? hs.found)
  have hw₁ := hw.exec (by trivial) hexec
  intro hran
  cases hran with
  | waits hyes hm hstate hr =>
    obtain ⟨c', inst', -, hs', -⟩ := hs.ran hw.orderly hidle hrunning hexec
    have hengaged := (hw.engage hs.conversation hphase).exec (by trivial) hexec
    obtain ⟨k₁, inst₁, hs₁, haccord⟩ := hw₁.scene i c' hs'.conversation hs'.handle
      (hengaged.own c' hs'.conversation hs'.handle).2
    obtain rfl := Option.some.inj (hs₁.machine?.symm.trans hm)
    exact not_running_of_waiting hs'.conversation haccord (Machine.isWaiting_iff.mpr ⟨_, hstate⟩) hr
  | ends _ _ _ hr => cases (yields_finishSlice.mp hr).2
  | goesOn hyes hm hstate =>
    obtain ⟨c', inst', m', hs', hsame, hconcludes, -⟩ := hs.ran hw.orderly hidle hrunning hexec
    obtain rfl := Option.some.inj (hs'.machine?.symm.trans hm)
    rw [hsame] at hstate
    obtain ⟨-, hends⟩ := hconcludes.ends.resolve_right (by simp [hyes])
    rcases hends with hfinished | hwaiting
    · simp [hfinished] at hstate
    · obtain ⟨kind, hkind⟩ := Machine.isWaiting_iff.mp hwaiting
      simp [hkind] at hstate
  | fails _ _ hr | lost _ _ hr => cases hr

theorem not_running_of_tick (hw : InAccord h told w) (hc : w.host.conversations[i]? = some c)
    (hhandle : c.handle = h) (hphase : c.phase ≠ .destroyed) :
    ¬(tick fuel i).Yields w (.ok .running) w' := by
  intro hr
  obtain ⟨k, inst, hs, haccord⟩ := hw.scene i c hc hhandle hphase
  subst hhandle
  cases tick_cases hw.rest hc hphase hr with
  | refused _ _ hr | lost _ _ hr => cases hr
  | ended _ _ hr => cases (yields_finishSlice.mp hr).2
  | waiting hm hstate hr =>
    obtain rfl := Option.some.inj (hs.machine?.symm.trans hm)
    exact not_running_of_waiting hc haccord (Machine.isWaiting_iff.mpr ⟨_, hstate⟩) hr
  | ran hm hstate hexec hran =>
    have hcleared := hw.cleared hc hphase hm hstate
    have hc₁ : (w.host.clearPending i).conversations[i]? = some { c with pending := none } := by
      simp [Story.clearPending, Story.modify, hc]
    obtain ⟨k₁, inst₁, hs₁, -⟩ := hcleared.scene i _ hc₁ rfl hphase
    obtain rfl := Option.some.inj (hs₁.machine?.symm.trans hm)
    exact not_running_of_ran hcleared hs₁ hphase hstate hexec hran

end Telling

namespace Act

def Defers (h : Handle) : Act δ → Prop
  | create externs _ _ => externs.Defers h
  | setFunction _ _ _ body => ∀ args, (body args).Defers h
  | _ => True

/-- A machine is created while there are fewer than `2 ^ 32` slots. -/
def Fits (w : World (Story δ)) : Act δ → Prop
  | create .. => w.arena.HasRoom
  | _ => True

def taken (s : Story δ) (j : Nat) : Act δ → List StoryEvent
  | takeEvents i => if j = i then ((s.conversations[i]?).map (·.events)).getD [] else []
  | takeEvent i => if j = i then (((s.conversations[i]?).map (·.events)).getD []).take 1 else []
  | _ => []

end Act

namespace Telling

open World

theorem yields_takeEvents {r : Except StoryError (List StoryEvent)} :
    (takeEvents i).Yields w r w' ↔
      r = .ok ((Act.takeEvents i).taken w.host i) ∧
        w' = { w with host := w.host.modify i fun c => { c with events := [] } } := by
  unfold takeEvents
  rw [yields_conversation?_bind, yields_update_bind, Act.taken, if_pos rfl]
  exact yields_pure

theorem yields_takeEvent? {r : Except StoryError (Option StoryEvent)} :
    (takeEvent? i).Yields w r w' ↔
      r = .ok ((Act.takeEvent i).taken w.host i).head? ∧
        w' = { w with host := w.host.modify i fun c => { c with events := c.events.tail } } := by
  have htail (es : List StoryEvent)
      (hes : ∀ c, w.host.conversations[i]? = some c → es = c.events.tail) :
      (w.host.modify i fun c => { c with events := es }) =
        w.host.modify i fun c => { c with events := c.events.tail } :=
    Story.modify_congr fun c hc => by rw [hes c hc]
  unfold takeEvent?
  rw [yields_conversation?_bind]
  split
  · rename_i e rest hevents
    rw [yields_update_bind, htail rest, Act.taken, if_pos rfl, hevents]
    · exact yields_pure
    · intro c hc
      rw [hc, Option.map_some, Option.some.injEq] at hevents
      rw [hevents, List.tail_cons]
  · rename_i hempty
    have hnil (c : Conversation δ) (hc : w.host.conversations[i]? = some c) : c.events = [] := by
      cases hevents : c.events with
      | nil => rfl
      | cons e rest => exact absurd (by rw [hc, Option.map_some, hevents]) (hempty e rest)
    have hsame : (w.host.modify i fun c => { c with events := c.events.tail }) = w.host := by
      refine (Story.modify_congr (g := id) fun c hc => ?_).trans (Story.modify_id w.host i)
      rw [hnil c hc, List.tail_nil, ← hnil c hc]
      rfl
    have hhead : ((Act.takeEvent i).taken w.host i).head? = none := by
      cases hc : w.host.conversations[i]? with
      | none => simp [Act.taken, hc]
      | some c => simp [Act.taken, hc, hnil c hc]
    rw [hsame, hhead]
    exact yields_pure

/-- What can happen in a library whose host code leaves it to the player to answer the machine `h`,
and to destroy it. Of the events of conversations, those that are `heard` have been taken. Host code
is the handler of messages, host functions and callbacks of other machines: speakers only act on the
state of the host, and those who watch shared variables are machines. -/
inductive Chronicle (h : Handle) : (Nat → List StoryEvent) → World (Story δ) → Prop
  | create {handler : Severity → String → Story δ → Story δ} {s : Story δ}
    (hhandler : ∀ severity message s, Story.Spares h s (handler severity message s))
    (hconversations : s.conversations = []) (hroutes : s.routes = []) :
    Chronicle h (fun _ => []) (.create handler s)
  | act {heard : Nat → List StoryEvent} {w w' : World (Story δ)} {a : Act δ} {fuel : Nat}
    {r : Except StoryError Unit} (hw : Chronicle h heard w) (ha : a.Defers h) (hfits : a.Fits w)
    (hr : (a.telling fuel).Yields w r w') :
    Chronicle h (fun j => heard j ++ a.taken w.host j) w'
  | operate {heard : Nat → List StoryEvent} {w w' : World (Story δ)} {fuel : Nat}
    {op : Operation (Story δ)} {r : Reply} (hw : Chronicle h heard w) (hop : op.Defers h)
    (hexec : exec fuel op w = some (r, w')) : Chronicle h heard w'
  | update {heard : Nat → List StoryEvent} {w : World (Story δ)} {s : Story δ}
    (hw : Chronicle h heard w) (hs : Story.Spares h w.host s) :
    Chronicle h heard { w with host := s }

theorem inAccord_act {a : Act δ} {r : Except StoryError Unit} (hw : InAccord h told w)
    (ha : a.Defers h) (hfits : a.Fits w) (hr : (a.telling fuel).Yields w r w') :
    InAccord h (fun j => told j ++ (a.taken w.host j).filterMap StoryEvent.line?) w' := by
  have hkeeps (htaken : ∀ j, a.taken w.host j = []) (hkeep : InAccord h told w') :
      InAccord h (fun j => told j ++ (a.taken w.host j).filterMap StoryEvent.line?) w' := by
    simpa only [htaken, List.filterMap_nil, List.append_nil] using hkeep
  cases a with
  | create externs data config =>
    obtain ⟨r', hr⟩ := yields_of_reply hr
    exact hkeeps (fun _ => rfl) (inAccord_create hw hfits ha hr)
  | destroy i =>
    exact hkeeps (fun _ => rfl) (maintains_reply (inAccord_destroy fuel i) w r w' hw hr)
  | setFunction i name arity body =>
    refine hkeeps (fun _ => rfl)
      (maintains_reply (maintains_bind (maintains_alive i) fun c => ?_) w r w' hw hr)
    refine maintains_performFlag (maintains_perform fun w r w' hw hexec => hw.exec ?_ hexec)
    exact ha
  | takeEvents i =>
    obtain ⟨r', hr⟩ := yields_of_reply hr
    obtain ⟨-, rfl⟩ := yields_takeEvents.mp hr
    refine hw.take (g := fun _ => []) (fun j hj => ?_) fun c hc => ?_
    · simp [Act.taken, hj]
    · simp [Act.taken, hc, Conversation.said]
  | takeEvent i =>
    obtain ⟨r', hr⟩ := yields_of_reply hr
    obtain ⟨-, rfl⟩ := yields_takeEvent?.mp hr
    refine hw.take (fun j hj => ?_) fun c hc => ?_
    · simp [Act.taken, hj]
    · rw [Act.taken, if_pos rfl, hc, ← List.filterMap_append]
      simp only [Option.map_some, Option.getD_some]
      rw [← List.drop_one, List.take_append_drop, Conversation.said]
  | _ =>
    have hkeep := Act.maintains sustained_inAccord.toSteady (sustained_inAccord.setShared fuel)
      (fun i _ => played_inAccord fuel i) rfl w r w' hw hr
    exact hkeeps (fun _ => rfl) hkeep

theorem Chronicle.inAccord {heard : Nat → List StoryEvent} (hw : Chronicle h heard w) :
    InAccord h (fun j => (heard j).filterMap StoryEvent.line?) w := by
  induction hw with
  | @create handler s hhandler hconversations hroutes =>
    refine ⟨heeding_create s hhandler, atRest_create handler s, fun h' i hroute => ?_,
      fun i c hc => ?_⟩
    · simp [World.create, Story.route?, hroutes] at hroute
    · simp [World.create, hconversations] at hc
  | act _ ha hfits hr ih =>
    simp only [List.filterMap_append]
    exact inAccord_act ih ha hfits hr
  | operate _ hop hexec ih => exact ih.exec hop hexec
  | update _ hs ih => exact ih.spare hs

/-- Whatever is done with the conversations of a library, by the host or by host code that leaves it
to the player to answer: the machine of a conversation that has not been destroyed waits to be
continued if and only if the last line of the conversation is pending, and waits for a choice if and
only if its own choices are. While it waits, a tick gives what is pending again and changes nothing.
No tick leaves a machine running. There are never more than `2 ^ 32` slots for machines. -/
theorem Chronicle.awaits {heard : Nat → List StoryEvent} (hc : w.host.conversations[i]? = some c)
    (hw : Chronicle c.handle heard w) (hphase : c.phase ≠ .destroyed) :
    ∃ m, w.machine? c.handle = some m ∧
      (m.state = .waiting .continuation ↔ ∃ spoken, c.pending = some (.line spoken) ∧
        ((heard i ++ c.events).filterMap StoryEvent.line?).getLast? = some spoken) ∧
      (m.state = .waiting .choice ↔ c.pending = some (.choices m.pending)) ∧
      (m.isWaiting = true → ∃ slice, c.pending = some slice ∧ ∀ fuel r w',
        (tick (fuel + 1) i).Yields w r w' ↔ r = .ok slice ∧ w' = w) ∧
      ∀ fuel w', ¬(tick fuel i).Yields w (.ok .running) w' := by
  have hw' := hw.inAccord
  obtain ⟨k, inst, hs, haccord⟩ := hw'.scene i c hc rfl hphase
  rw [List.filterMap_append]
  refine ⟨inst.machine, hs.machine?, haccord.line_iff, haccord.choices_iff, fun hwaiting => ?_,
    fun fuel w' => not_running_of_tick hw' hc rfl hphase⟩
  obtain ⟨slice, hpending, -⟩ := exists_pending haccord hwaiting
  exact ⟨slice, hpending, fun fuel r w' =>
    yields_tick_of_waiting hw'.rest hc hphase hs.machine? hwaiting hpending fuel⟩

def greeting : List Builder.Call := [.bough "main", .line "mara" "Hello." [], .stop]

def greet (data : CompiledData) : Telling Unit Unit := do
  (Act.create .empty data {}).telling 9
  (Act.start 0).telling 9
  (Act.tick 0).telling 9

def isGreeted (w : World (Story Unit)) : Bool :=
  (w.host.conversations[0]?).any fun c => decide (c.phase ≠ .destroyed) &&
    (w.machine? c.handle).any fun m => decide (m.state = .waiting .continuation)

theorem awaits_greeting : ∃ (heard : Nat → List StoryEvent) (w : World (Story Unit))
    (c : Conversation Unit) (spoken : SpokenLine), w.host.conversations[0]? = some c ∧
      Chronicle c.handle heard w ∧ c.phase ≠ .destroyed ∧ c.pending = some (.line spoken) ∧
        (tick 9 0).Yields w (.ok (.line spoken)) w := by
  let w₀ : World (Story Unit) := .create (fun _ _ s => s) (.create ())
  have h : ((Builder.run .offset greeting).build.map fun bytes =>
      (CompiledData.ofBytes bytes).map fun data =>
        ((greet data).run.run w₀).map fun x => (decide (x.1 = .ok ()), isGreeted x.2)) =
      .ok (.ok (some (true, true))) := by
    decide +kernel
  obtain ⟨bytes, -, h⟩ := Except.map_eq_ok_iff.mp h
  obtain ⟨data, -, h⟩ := Except.map_eq_ok_iff.mp h.symm
  obtain ⟨⟨r, w⟩, hgreet, h⟩ := Option.map_eq_some_iff.mp h.symm
  simp only [Prod.mk.injEq, decide_eq_true_eq] at h
  obtain ⟨rfl, hgreeted⟩ := h
  have hchronicle (h : Handle) : ∃ heard, Chronicle h heard w := by
    have hw₀ : Chronicle h (fun _ => []) w₀ := .create (fun _ _ s => .refl h s) rfl rfl
    obtain ⟨_, w₁, hcreate, hrest⟩ := yields_bind_ok.mp hgreet
    obtain ⟨_, w₂, hstart, htick⟩ := yields_bind_ok.mp hrest
    have hroom : (Arena.empty : Arena Nat).HasRoom := show 0 < UInt32.size by decide
    have hdefers : (Act.create .empty data {} : Act Unit).Defers h := by
      intro name arity body hmem
      cases hmem
    have hw₁ := hw₀.act hdefers hroom hcreate
    have hw₂ := hw₁.act (by trivial) (by trivial) hstart
    exact ⟨_, hw₂.act (by trivial) (by trivial) htick⟩
  obtain ⟨c, hc, hgreeted⟩ := (Option.any_eq_true _ _).mp hgreeted
  rw [Bool.and_eq_true, decide_eq_true_eq] at hgreeted
  obtain ⟨hphase, hwaits⟩ := hgreeted
  obtain ⟨m, hm, hstate⟩ := (Option.any_eq_true _ _).mp hwaits
  rw [decide_eq_true_eq] at hstate
  obtain ⟨heard, hw⟩ := hchronicle c.handle
  obtain ⟨m', hm', hline, -, hagain, -⟩ := Chronicle.awaits hc hw hphase
  obtain rfl : m = m' := Option.some.inj (hm.symm.trans hm')
  obtain ⟨spoken, hpending, -⟩ := hline.mp hstate
  obtain ⟨slice, hslice, htick⟩ := hagain (Machine.isWaiting_iff.mpr ⟨_, hstate⟩)
  obtain rfl : Slice.line spoken = slice := Option.some.inj (hpending.symm.trans hslice)
  exact ⟨heard, w, c, spoken, hc, hw, hphase, hpending, (htick 8 _ _).mpr ⟨rfl, rfl⟩⟩

end Telling

end Dialogue
