import Dialogue.Proofs.Host.Discipline
import Dialogue.Proofs.Host.Rest
import Dialogue.Proofs.Story.Telling

namespace Dialogue

variable {δ : Type}

def Operation.isTame {ε : Type} : Operation ε → Bool
  | create .. | destroy _ | setFunction .. => false
  | _ => true

def Operation.isSteady {ε : Type} : Operation ε → Bool
  | create .. | destroy _ | setFunction .. | start .. | run _ | selectContinue _ | selectChoice .. =>
    false
  | _ => true

inductive Operation.Answers {ε : Type} (h : Handle) : Operation ε → Prop
  | line : Answers h (.selectContinue h)
  | choice (index : Nat) : Answers h (.selectChoice h index)

def Operation.Plays {ε : Type} (h : Handle) (op : Operation ε) : Prop :=
  op.Drives h ∨ op.Answers h

theorem Operation.isTame_of_isSteady {ε : Type} {op : Operation ε} (h : op.isSteady = true) :
    op.isTame = true := by
  cases op <;> first | rfl | cases h

theorem Operation.Plays.isTame {ε : Type} {op : Operation ε} {h : Handle} (hop : op.Plays h) :
    op.isTame = true := by
  rcases hop with (⟨bough, rfl⟩ | rfl) | hop
  · rfl
  · rfl
  · cases hop <;> rfl

def Conversation.bare (c : Conversation δ) : Conversation δ :=
  { c with speaker := none, bindings := [] }

namespace Story

/-- Nothing happens to the conversations but that speakers stop and that bindings come and go. -/
structure Even (s s' : Story δ) : Prop where
  routes : s'.routes = s.routes
  bare : s'.conversations.map Conversation.bare = s.conversations.map Conversation.bare

structure Rebinds (s s' : Story δ) : Prop where
  routes : s'.routes = s.routes
  speakers : s'.speakers = s.speakers
  state : s'.state = s.state
  host : s'.host = s.host
  conversations : s'.conversations.map (fun c => { c with bindings := [] }) =
    s.conversations.map fun c => { c with bindings := [] }

structure Keeps (i : Nat) (s s' : Story δ) : Prop where
  routes : s'.routes = s.routes
  machines : s'.conversations.map (fun c => (c.handle, c.externs)) =
    s.conversations.map fun c => (c.handle, c.externs)
  phases : ∀ j, j ≠ i → s'.conversations[j]?.map (·.phase) = s.conversations[j]?.map (·.phase)

variable {i : Nat} {s s' s'' : Story δ}

theorem map_modify {β : Type} (s : Story δ) (i : Nat) {f : Conversation δ → Conversation δ}
    {g : Conversation δ → β} (hf : ∀ c, g (f c) = g c) :
    (s.modify i f).conversations.map g = s.conversations.map g := by
  apply List.ext_getElem?
  intro j
  simp only [modify, List.getElem?_map, List.getElem?_modify]
  split <;> cases s.conversations[j]? <;> simp [hf]

theorem modify_modify (s : Story δ) (i : Nat) (f g : Conversation δ → Conversation δ) :
    (s.modify i f).modify i g = s.modify i (g ∘ f) := by
  simp [modify, List.modify_modify_eq]

theorem modify_congr {f g : Conversation δ → Conversation δ}
    (hfg : ∀ c, s.conversations[i]? = some c → f c = g c) : s.modify i f = s.modify i g := by
  have hconversations : s.conversations.modify i f = s.conversations.modify i g := by
    apply List.ext_getElem?
    intro j
    simp only [List.getElem?_modify]
    split
    · rename_i hij
      cases hc : s.conversations[j]? with
      | none => rfl
      | some c => simp [hfg c (hij ▸ hc)]
    · rfl
  rw [modify, hconversations, modify]

theorem modify_id (s : Story δ) (i : Nat) : s.modify i id = s := by rw [modify, List.modify_id]

theorem Even.of_conversations (hroutes : s'.routes = s.routes)
    (hconversations : s'.conversations = s.conversations) : Even s s' :=
  ⟨hroutes, by rw [hconversations]⟩

theorem Even.trans (h : Even s s') (h' : Even s' s'') : Even s s'' :=
  ⟨h'.routes.trans h.routes, h'.bare.trans h.bare⟩

theorem even_modify (s : Story δ) (i : Nat) {f : Conversation δ → Conversation δ}
    (hf : ∀ c, (f c).bare = c.bare) : Even s (s.modify i f) :=
  ⟨rfl, map_modify s i hf⟩

theorem Even.modify {f : Conversation δ → Conversation δ} (h : Even s s')
    (hf : ∀ c, (f c).bare = c.bare) : Even s (s'.modify i f) :=
  h.trans (even_modify s' i hf)

theorem rebinds_store (s : Story δ) (store : Option (VariableStore Handle)) :
    Rebinds s { s with store := store } :=
  ⟨rfl, rfl, rfl, rfl, rfl⟩

theorem rebinds_bindings (s : Story δ) (i : Nat)
    (f : List (String × Nat) → List (String × Nat)) :
    Rebinds s (s.modify i fun c => { c with bindings := f c.bindings }) :=
  ⟨rfl, rfl, rfl, rfl, map_modify s i fun _ => rfl⟩

theorem Rebinds.trans (h : Rebinds s s') (h' : Rebinds s' s'') : Rebinds s s'' :=
  ⟨h'.routes.trans h.routes, h'.speakers.trans h.speakers, h'.state.trans h.state,
    h'.host.trans h.host, h'.conversations.trans h.conversations⟩

theorem Rebinds.even (h : Rebinds s s') : Even s s' := by
  have hbare := congrArg (List.map Conversation.bare) h.conversations
  rw [List.map_map, List.map_map] at hbare
  exact ⟨h.routes, hbare⟩

theorem even_stopSpeaker (s : Story δ) (i : Nat) : Even s (s.stopSpeaker i) := by
  unfold stopSpeaker
  split
  · exact Even.modify (.of_conversations rfl rfl) fun _ => rfl
  · exact .of_conversations rfl rfl

theorem even_silence (s : Story δ) (state : Snapshot) (i : Nat) :
    Even s (stopSpeaker { s with state := state } i) := by
  refine Even.trans ?_ (even_stopSpeaker _ i)
  exact .of_conversations rfl rfl

theorem Even.keeps (h : Even s s') (i : Nat) : Keeps i s s' := by
  have hmap {β : Type} (g : Conversation δ → β) :
      (s'.conversations.map Conversation.bare).map g = (s.conversations.map Conversation.bare).map g :=
    congrArg (List.map g) h.bare
  refine ⟨h.routes, ?_, fun j _ => ?_⟩
  · simpa [Conversation.bare, Function.comp_def] using hmap fun c => (c.handle, c.externs)
  · simpa [Conversation.bare, Function.comp_def] using congrArg (·[j]?) (hmap (·.phase))

theorem Keeps.trans (h : Keeps i s s') (h' : Keeps i s' s'') : Keeps i s s'' :=
  ⟨h'.routes.trans h.routes, h'.machines.trans h.machines,
    fun j hj => (h'.phases j hj).trans (h.phases j hj)⟩

theorem Keeps.conversation {j : Nat} {c : Conversation δ} (h : Keeps i s s') (hne : j ≠ i)
    (hc : s.conversations[j]? = some c) : ∃ c', s'.conversations[j]? = some c' ∧
      c'.handle = c.handle ∧ c'.phase = c.phase := by
  have hhandle := congrArg (fun l => (l.map (·.1))[j]?) h.machines
  have hphase := h.phases j hne
  simp only [List.map_map, List.getElem?_map, hc, Option.map_some, Option.map_eq_some_iff,
    Function.comp_apply] at hhandle hphase
  obtain ⟨c', hc', hhandle⟩ := hhandle
  obtain ⟨c'', hc'', hphase⟩ := hphase
  obtain rfl : c' = c'' := Option.some.inj (hc'.symm.trans hc'')
  exact ⟨c', hc', hhandle, hphase⟩

theorem keeps_modify (s : Story δ) (i : Nat) {f : Conversation δ → Conversation δ}
    (hf : ∀ c, (f c).handle = c.handle ∧ (f c).externs = c.externs) : Keeps i s (s.modify i f) :=
  ⟨rfl, map_modify s i fun c => by rw [(hf c).1, (hf c).2],
    fun j hj => by simp [modify, Ne.symm hj]⟩

end Story

theorem Telling.maintains_unbindStore {P : World (Story δ) → Prop} {fuel i : Nat}
    {c : Conversation δ} (hrebinds : ∀ {w s}, (w.host).Rebinds s → P w → P { w with host := s })
    (hunsubscribe : ∀ name, (perform fuel (.unsubscribe c.handle name)).Maintains P) :
    (unbindStore fuel i c).Maintains P := by
  unfold unbindStore
  refine maintains_bind (maintains_conversation? i) fun own => ?_
  simp only
  have hbindings : (update (·.modify i fun c => { c with bindings := [] })).Maintains P :=
    maintains_update fun w => hrebinds (w.host.rebinds_bindings i fun _ => [])
  refine maintains_bind hbindings fun _ => maintains_bind maintains_story fun s => ?_
  split
  · refine maintains_bind (maintains_forIn (fun binding _ => ?_) _) fun _ => maintains_pure _
    refine maintains_bind (maintains_update fun w => hrebinds (w.host.rebinds_store _)) fun _ => ?_
    exact maintains_bind (hunsubscribe _) fun _ => maintains_pure _
  · exact maintains_pure _

structure Steady (P : World (Story δ) → Prop) : Prop where
  exec : ∀ {fuel op w r w'}, op.isSteady = true → P w → World.exec fuel op w = some (r, w') → P w'

namespace Steady

open Telling (maintains_alive maintains_bind maintains_conversation? maintains_pure maintains_throw
  maintains_story maintains_forIn maintains_update)

variable {P : World (Story δ) → Prop} {i : Nat} (h : Steady P) (fuel : Nat)

include h

theorem perform {op : Operation (Story δ)} (hop : op.isSteady = true) :
    (Telling.perform fuel op).Maintains P :=
  Telling.maintains_perform fun _ _ _ hw hexec => h.exec hop hw hexec

theorem performFlag {op : Operation (Story δ)} (hop : op.isSteady = true) :
    (Telling.performFlag fuel op).Maintains P :=
  Telling.maintains_performFlag (h.perform fuel hop)

theorem performAll {β : Type} {xs : List β} {op : β → Operation (Story δ)}
    (hop : ∀ x, (op x).isSteady = true) (u : PUnit) :
    (forIn xs u fun x _ => do
      let _ ← Telling.perform fuel (op x)
      pure (.yield .unit) : Telling δ PUnit).Maintains P :=
  maintains_forIn (fun x _ => maintains_bind (h.perform fuel (hop x)) fun _ => maintains_pure _) u

theorem machineState (hd : Handle) : (Telling.machineState fuel hd).Maintains P := by
  unfold Telling.machineState
  refine maintains_bind (h.perform fuel rfl) fun r => ?_
  split
  · exact maintains_pure _
  · exact maintains_throw _

theorem inject (hd : Handle) : (Telling.inject fuel hd).Maintains P := by
  unfold Telling.inject
  refine maintains_bind maintains_story fun s => ?_
  simp only
  split
  · exact maintains_bind (h.perform fuel rfl) fun _ => maintains_pure _
  · exact maintains_pure _

theorem setShared {name : String} {v : Value} (hstore : ∀ {w store told}, P w →
    w.host.share name v = .ok (some (store, told)) →
      P { w with host := { w.host with store := some store } }) :
    (Telling.setShared fuel name v).Maintains P := by
  intro w r w' hw hr
  unfold Telling.setShared at hr
  rw [Telling.yields_story_bind] at hr
  split at hr
  · exact maintains_pure _ w r w' hw hr
  · exact maintains_pure _ w r w' hw hr
  · rename_i store told hshare
    rw [Telling.yields_update_bind] at hr
    exact maintains_bind (h.performAll fuel (fun _ => rfl) _) (fun _ => maintains_pure _) _ r w'
      (hstore hw hshare) hr

theorem bindVariable (hrebinds : ∀ {w s}, (w.host).Rebinds s → P w → P { w with host := s })
    (c : Conversation δ) (name : String) : (Telling.bindVariable fuel i c name).Maintains P := by
  unfold Telling.bindVariable
  refine maintains_bind (maintains_conversation? i) fun own => ?_
  simp only
  split
  · exact maintains_pure _
  · have hwatch : (Telling.watchVariable fuel i c name).Maintains P := by
      refine maintains_bind (h.perform fuel rfl) fun _ => maintains_bind maintains_story fun s => ?_
      split
      · exact maintains_update fun w => hrebinds ((w.host.rebinds_store _).trans
          (Story.rebinds_bindings _ i fun bs => bs ++ [_]))
      · exact maintains_pure _
    refine maintains_bind maintains_story fun s => ?_
    split
    · exact maintains_bind (h.perform fuel rfl) fun _ => hwatch
    · exact hwatch

theorem bindStore {c : Conversation δ}
    (hbind : ∀ name, (Telling.bindVariable fuel i c name).Maintains P) :
    (Telling.bindStore fuel i c).Maintains P := by
  unfold Telling.bindStore
  refine maintains_bind maintains_story fun s => ?_
  split
  · refine maintains_bind (h.performAll fuel (fun _ => rfl) _) fun _ => ?_
    refine maintains_bind (maintains_forIn (fun name _ => ?_) _) fun _ => maintains_pure _
    exact maintains_bind (hbind name) fun _ => maintains_pure _
  · exact maintains_pure _

theorem saveState : (Telling.saveState fuel i).Maintains P := by
  unfold Telling.saveState
  refine maintains_bind (maintains_alive i) fun c => maintains_bind (h.perform fuel rfl) fun r => ?_
  split
  · exact maintains_pure _
  · exact maintains_throw _

theorem setExtern (name : String) (v : Value) :
    (Telling.setExtern fuel i name v).Maintains P := by
  unfold Telling.setExtern
  exact maintains_bind (maintains_alive i) fun c => h.performFlag fuel rfl

theorem subscribe (name : String) : (Telling.subscribe fuel i name).Maintains P := by
  unfold Telling.subscribe
  exact maintains_bind (maintains_alive i) fun c => h.performFlag fuel rfl

theorem unsubscribe (name : String) : (Telling.unsubscribe fuel i name).Maintains P := by
  unfold Telling.unsubscribe
  exact maintains_bind (maintains_alive i) fun c => h.performFlag fuel rfl

theorem value (name : String) : (Telling.value fuel i name).Maintains P := by
  unfold Telling.value
  refine maintains_bind (maintains_alive i) fun c => maintains_bind (h.perform fuel rfl) fun r => ?_
  split
  · refine maintains_bind (h.perform fuel rfl) fun r => ?_
    simp only
    refine maintains_bind (h.perform fuel rfl) fun _ => ?_
    split
    · exact maintains_pure _
    · exact maintains_throw _
  · exact maintains_pure _

theorem loadState (s : Snapshot) : (Telling.loadState fuel i s).Maintains P := by
  unfold Telling.loadState
  refine maintains_bind (maintains_alive i) fun c => maintains_bind (h.perform fuel rfl) fun r => ?_
  split <;> exact maintains_pure _

end Steady

structure Sustained (P : World (Story δ) → Prop) : Prop extends Steady P where
  update : ∀ {f : Story δ → Story δ} {w}, (w.host).Even (f w.host) → P w →
    P { w with host := f w.host }

namespace Sustained

open Telling (maintains_unbindStore maintains_update)

variable {P Q : World (Story δ) → Prop} {i : Nat} (h : Sustained P) (fuel : Nat)

include h

theorem and (h' : Sustained Q) : Sustained fun w => P w ∧ Q w :=
  ⟨⟨fun hop hw hexec => ⟨h.exec hop hw.1 hexec, h'.exec hop hw.2 hexec⟩⟩,
    fun heven hw => ⟨h.update heven hw.1, h'.update heven hw.2⟩⟩

theorem maintains {f : Story δ → Story δ} (hf : ∀ s : Story δ, s.Even (f s)) :
    (Telling.update f).Maintains P :=
  maintains_update fun w hw => h.update (hf w.host) hw

theorem restage {w : World (Story δ)} {s : Story δ} (heven : (w.host).Even s) (hw : P w) :
    P { w with host := s } :=
  h.update (f := fun _ => s) heven hw

theorem setShared (name : String) (v : Value) : (Telling.setShared fuel name v).Maintains P :=
  h.toSteady.setShared fuel fun hw _ => h.restage (.of_conversations rfl rfl) hw

theorem bindVariable (c : Conversation δ) (name : String) :
    (Telling.bindVariable fuel i c name).Maintains P :=
  h.toSteady.bindVariable fuel (fun hrebinds => h.restage hrebinds.even) c name

theorem bindStore (c : Conversation δ) : (Telling.bindStore fuel i c).Maintains P :=
  h.toSteady.bindStore fuel (h.bindVariable fuel c)

theorem unbindStore (c : Conversation δ) : (Telling.unbindStore fuel i c).Maintains P :=
  maintains_unbindStore (fun hrebinds => h.restage hrebinds.even) fun _ => h.perform fuel rfl

end Sustained

structure Sliced (fuel i : Nat) (P : World (Story δ) → Prop) : Prop where
  startBough : ∀ bough, (Telling.startBough fuel i bough).Maintains P
  tick : (Telling.tick fuel i).Maintains P
  continueLine : (Telling.continueLine fuel i).Maintains P
  selectChoice : ∀ index, (Telling.selectChoice fuel i index).Maintains P
  host : ∀ f : Story δ → δ, (Telling.update fun s => { s with host := f s }).Maintains P

namespace Sliced

open Telling (maintains_bind maintains_conversation? maintains_play maintains_respond yields_update)

variable {P : World (Story δ) → Prop} {fuel i : Nat} (h : Sliced fuel i P)

include h

theorem start : (Telling.start fuel i).Maintains P := by
  unfold Telling.start
  exact maintains_bind (maintains_conversation? i) fun _ => h.startBough _

theorem respond (r : Responder δ) (slice : Slice) :
    (Telling.respond fuel i r slice).Maintains P := by
  have hhost (f : Story δ → δ) {w : World (Story δ)} (hw : P w) :
      P { w with host := { w.host with host := f w.host } } :=
    h.host f w _ _ hw (yields_update.mpr ⟨rfl, rfl⟩)
  exact maintains_respond (fun spoken w => hhost fun s => r.line spoken s.host)
    (fun cs w => hhost fun s => (r.choose cs s.host).2) h.continueLine h.selectChoice slice

theorem play (r : Responder δ) : (Telling.play fuel i r).Maintains P :=
  maintains_play (h.start) h.tick (h.respond r)

end Sliced

structure Played (fuel i : Nat) (P : World (Story δ) → Prop) : Prop extends Sliced fuel i P where
  finish : (Telling.finish fuel i).Maintains P

/-- A record that has changed, but not in its machine, its bindings or its speaker, and not by
being destroyed. -/
structure Conversation.Proceeds (c c' : Conversation δ) : Prop where
  handle : c'.handle = c.handle
  externs : c'.externs = c.externs
  bindings : c'.bindings = c.bindings
  speaker : c'.speaker = c.speaker
  phase : c.phase ≠ .destroyed → c'.phase ≠ .destroyed

structure Serves (h : Handle) (i : Nat) (Q : World (Story δ) → Prop) : Prop extends Steady Q where
  play : ∀ {fuel op w r w'}, op.Plays h → Q w → World.exec fuel op w = some (r, w') → Q w'
  modify : ∀ {f : Conversation δ → Conversation δ} {w}, (∀ c : Conversation δ, c.Proceeds (f c)) → Q w →
    Q { w with host := w.host.modify i f }
  silence : ∀ {state : Snapshot} {w}, Q w →
    Q { w with host := Story.stopSpeaker { w.host with state := state } i }
  bindStore : ∀ (fuel : Nat) (c : Conversation δ), c.handle = h →
    (Telling.bindStore fuel i c).Maintains Q
  unbindStore : ∀ (fuel : Nat) (c : Conversation δ), c.handle = h →
    (Telling.unbindStore fuel i c).Maintains Q

/-- As long as `P` holds, so does `Q` while an action is under way on the conversation `i`, unless
that has been destroyed. -/
structure Tended (i : Nat) (P : World (Story δ) → Prop) (Q : Handle → World (Story δ) → Prop) :
    Prop where
  enter : ∀ {w c}, P w → w.host.conversations[i]? = some c → c.phase ≠ .destroyed → Q c.handle w
  leave : ∀ h w, Q h w → P w
  serves : ∀ h, Serves h i (Q h)
  host : ∀ {w} (x : δ), P w → P { w with host := { w.host with host := x } }

namespace Tended

open Telling (Reaches alive_bind maintains_bind maintains_guard maintains_performFlag
  maintains_perform maintains_finishSlice maintains_pending maintains_throw maintains_update
  reaches_bind reaches_of_maintains reaches_runSlice yields_conversation?_bind yields_pure)

variable {P : World (Story δ) → Prop} {Q : Handle → World (Story δ) → Prop} {i : Nat}
  (h : Tended i P Q) (fuel : Nat)

include h

theorem alive_bind {α : Type} {f : Conversation δ → Telling δ α}
    (hf : ∀ c, (f c).Reaches (Q c.handle) P) : (Telling.alive i >>= f).Maintains P := by
  intro w r w' hw hr
  rcases Telling.alive_bind hr with ⟨c, hc, hphase, hr⟩ | ⟨-, -, rfl⟩
  · exact hf c w r w' (h.enter hw hc hphase) hr
  · exact hw

theorem performFlag {hd : Handle} {op : Operation (Story δ)} (hop : op.Plays hd) :
    (Telling.performFlag fuel op).Maintains (Q hd) :=
  maintains_performFlag (maintains_perform fun _ _ _ hw => (h.serves hd).play hop hw)

theorem update {hd : Handle} {f : Conversation δ → Conversation δ} (hf : ∀ c : Conversation δ, c.Proceeds (f c)) :
    (Telling.update fun s => s.modify i f).Maintains (Q hd) :=
  maintains_update fun _ hw => (h.serves hd).modify hf hw

theorem clearPending {hd : Handle} : (Telling.update fun s => s.clearPending i).Maintains (Q hd) :=
  h.update fun _ => ⟨rfl, rfl, rfl, rfl, id⟩

theorem startBough (bough : String) : (Telling.startBough fuel i bough).Maintains P := by
  refine h.alive_bind fun c => reaches_bind ((h.serves _).inject fuel _) (h.leave _) fun _ => ?_
  refine reaches_bind ((h.serves _).bindStore fuel c rfl) (h.leave _) fun _ => ?_
  refine reaches_bind (h.performFlag fuel (.inl (.inl ⟨bough, rfl⟩))) (h.leave _) fun started => ?_
  have hstarted : (Telling.update fun s : Story δ => ((s.clearPending i).modify i fun c =>
      { c with phase := .started }).emit i (.started bough)).Maintains (Q c.handle) := by
    simp only [Story.clearPending, Story.emit, Story.modify_modify]
    exact h.update fun _ => ⟨rfl, rfl, rfl, rfl, fun _ => nofun⟩
  exact fun w r w' hw hr => h.leave _ _ (maintains_guard (fun _ => hstarted) w r w' hw hr)

theorem finish : (Telling.finish fuel i).Maintains P := by
  intro w r w' hw hr
  unfold Telling.finish at hr
  rw [yields_conversation?_bind] at hr
  split at hr
  · obtain ⟨-, rfl⟩ := yields_pure.mp hr
    exact hw
  · rename_i c hc
    split at hr
    · obtain ⟨-, rfl⟩ := yields_pure.mp hr
      exact hw
    · rename_i hphase
      rw [not_not] at hphase
      have hlive := h.enter hw hc (by simp [hphase])
      refine h.leave _ _ (maintains_bind ((h.serves c.handle).saveState fuel) (fun saved => ?_) w r w'
        hlive hr)
      refine maintains_bind (maintains_update fun _ hw => (h.serves _).silence hw) fun _ => ?_
      refine maintains_bind ((h.serves _).unbindStore fuel c rfl) fun _ => ?_
      simp only [Story.emit, Story.modify_modify]
      exact h.update fun _ => ⟨rfl, rfl, rfl, rfl, fun _ => nofun⟩

theorem tick : (Telling.tick fuel i).Maintains P := by
  refine h.alive_bind fun c => ?_
  refine reaches_bind ((h.serves _).machineState fuel _) (h.leave _) fun state => ?_
  have hfinish : (Telling.finish fuel i).Maintains P := h.finish fuel
  split
  · exact reaches_of_maintains (h.leave _) (maintains_throw _)
  · exact reaches_of_maintains (h.leave _) (maintains_throw _)
  · exact reaches_of_maintains (h.leave _) (maintains_finishSlice hfinish)
  · exact reaches_of_maintains (h.leave _) (maintains_pending i)
  · refine reaches_bind h.clearPending (h.leave _) fun _ => ?_
    exact reaches_runSlice (h.performFlag fuel (.inl (.inr rfl)))
      ((h.serves _).machineState fuel _) (h.leave _) hfinish

theorem continueLine : (Telling.continueLine fuel i).Maintains P := by
  refine h.alive_bind fun c => ?_
  refine reaches_bind (h.performFlag fuel (.inr .line)) (h.leave _) fun _ => ?_
  exact fun w r w' hw hr =>
    h.leave _ _ (maintains_guard (fun _ => h.clearPending) w r w' hw hr)

theorem selectChoice (index : Nat) : (Telling.selectChoice fuel i index).Maintains P := by
  refine h.alive_bind fun c => ?_
  refine reaches_bind (h.performFlag fuel (.inr (.choice index))) (h.leave _) fun _ => ?_
  exact fun w r w' hw hr =>
    h.leave _ _ (maintains_guard (fun _ => h.clearPending) w r w' hw hr)

theorem played : Played fuel i P :=
  ⟨⟨h.startBough fuel, h.tick fuel, h.continueLine fuel, h.selectChoice fuel,
    fun _ => maintains_update fun _ hw => h.host _ hw⟩, h.finish fuel⟩

end Tended

structure Upheld (i : Nat) (P : World (Story δ) → Prop) : Prop where
  exec : ∀ {fuel op w r w'}, op.isTame = true → P w → World.exec fuel op w = some (r, w') → P w'
  update : ∀ {f : Story δ → Story δ} {w}, (w.host).Keeps i (f w.host) → P w →
    P { w with host := f w.host }

namespace Upheld

open Telling (maintains_bind maintains_pure maintains_update maintains_conversation?)

variable {P : World (Story δ) → Prop} {i : Nat} (h : Upheld i P) (fuel : Nat)

include h

theorem sustained : Sustained P :=
  ⟨⟨fun hop => h.exec (Operation.isTame_of_isSteady hop)⟩, fun heven => h.update (heven.keeps i)⟩

theorem modify {f : Conversation δ → Conversation δ}
    (hf : ∀ c, (f c).handle = c.handle ∧ (f c).externs = c.externs) :
    (Telling.update fun s => s.modify i f).Maintains P :=
  maintains_update fun w => h.update (f := fun s => s.modify i f) (w.host.keeps_modify i hf)

theorem takeEvents : (Telling.takeEvents i : Telling δ _).Maintains P := by
  unfold Telling.takeEvents
  refine maintains_bind (maintains_conversation? i) fun c => ?_
  exact maintains_bind (h.modify fun _ => ⟨rfl, rfl⟩) fun _ => maintains_pure _

theorem takeEvent? : (Telling.takeEvent? i : Telling δ _).Maintains P := by
  unfold Telling.takeEvent?
  refine maintains_bind (maintains_conversation? i) fun c => ?_
  split
  · exact maintains_bind (h.modify fun _ => ⟨rfl, rfl⟩) fun _ => maintains_pure _
  · exact maintains_pure _

theorem tended : Tended i P fun _ => P where
  enter hw _ _ := hw
  leave _ _ := id
  serves _ :=
    { exec hop := h.sustained.exec hop
      play hop := h.exec hop.isTame
      modify {f _} hf := h.update (f := fun s => s.modify i f)
        (Story.keeps_modify _ i fun c => ⟨(hf c).handle, (hf c).externs⟩)
      silence {state w} hw :=
        h.sustained.update (f := fun s => Story.stopSpeaker { s with state := state } i)
          (w.host.even_silence state i) hw
      bindStore fuel c _ := h.sustained.bindStore fuel c
      unbindStore fuel c _ := h.sustained.unbindStore fuel c }
  host {_} x hw := h.sustained.update (f := fun s => { s with host := x }) (.of_conversations rfl rfl) hw

theorem played : Played fuel i P := h.tended.played fuel

end Upheld

inductive Act (δ : Type) where
  | create (externs : Externs (Story δ)) (data : CompiledData) (config : Config)
  | start (i : Nat)
  | startBough (i : Nat) (bough : String)
  | tick (i : Nat)
  | continueLine (i : Nat)
  | selectChoice (i index : Nat)
  | play (i : Nat) (r : Responder δ)
  | finish (i : Nat)
  | destroy (i : Nat)
  | setExtern (i : Nat) (name : String) (v : Value)
  | setFunction (i : Nat) (name : String) (arity : Nat) (body : List Value → Reaction (Story δ))
  | subscribe (i : Nat) (name : String)
  | unsubscribe (i : Nat) (name : String)
  | value (i : Nat) (name : String)
  | saveState (i : Nat)
  | loadState (i : Nat) (s : Snapshot)
  | takeEvents (i : Nat)
  | takeEvent (i : Nat)
  | setShared (name : String) (v : Value)

namespace Act

def telling (fuel : Nat) : Act δ → Telling δ Unit
  | create externs data config => do let _ ← Telling.create fuel externs data config
  | start i => Telling.start fuel i
  | startBough i bough => Telling.startBough fuel i bough
  | tick i => do let _ ← Telling.tick fuel i
  | continueLine i => Telling.continueLine fuel i
  | selectChoice i index => Telling.selectChoice fuel i index
  | play i r => Telling.play fuel i r
  | finish i => Telling.finish fuel i
  | destroy i => do let _ ← Telling.destroy fuel i
  | setExtern i name v => do let _ ← Telling.setExtern fuel i name v
  | setFunction i name arity body => do let _ ← Telling.setFunction fuel i name arity body
  | subscribe i name => do let _ ← Telling.subscribe fuel i name
  | unsubscribe i name => do let _ ← Telling.unsubscribe fuel i name
  | value i name => do let _ ← Telling.value fuel i name
  | saveState i => do let _ ← Telling.saveState fuel i
  | loadState i s => do let _ ← Telling.loadState fuel i s
  | takeEvents i => do let _ ← Telling.takeEvents i
  | takeEvent i => do let _ ← Telling.takeEvent? i
  | setShared name v => do let _ ← Telling.setShared fuel name v

def isOrdinary : Act δ → Bool
  | create .. | destroy _ | setFunction .. | takeEvents _ | takeEvent _ => false
  | _ => true

def plays? : Act δ → Option Nat
  | start i | startBough i _ | tick i | continueLine i | selectChoice i _ | play i _ | finish i =>
    some i
  | _ => none

theorem maintains {P : World (Story δ) → Prop} {fuel : Nat} {a : Act δ} (hs : Steady P)
    (hset : ∀ name v, (Telling.setShared fuel name v).Maintains P)
    (hp : ∀ i, a.plays? = some i → Played fuel i P) (ha : a.isOrdinary = true) :
    (a.telling fuel).Maintains P := by
  cases a with
  | create | destroy | setFunction | takeEvents | takeEvent => cases ha
  | start i => exact (hp i rfl).start
  | startBough i bough => exact (hp i rfl).startBough bough
  | tick i => exact Telling.maintains_reply (hp i rfl).tick
  | continueLine i => exact (hp i rfl).continueLine
  | selectChoice i index => exact (hp i rfl).selectChoice index
  | play i r => exact (hp i rfl).play r
  | finish i => exact (hp i rfl).finish
  | setExtern i name v => exact Telling.maintains_reply (hs.setExtern fuel name v)
  | subscribe i name => exact Telling.maintains_reply (hs.subscribe fuel name)
  | unsubscribe i name => exact Telling.maintains_reply (hs.unsubscribe fuel name)
  | value i name => exact Telling.maintains_reply (hs.value fuel name)
  | saveState i => exact Telling.maintains_reply (hs.saveState fuel)
  | loadState i s => exact Telling.maintains_reply (hs.loadState fuel s)
  | setShared name v => exact Telling.maintains_reply (hset name v)

end Act

theorem Externs.preserves_bind {ε : Type} {P : World ε → Prop} {es : Externs ε} {fuel n : Nat}
    {h : Handle} {declared : List String} {w w' : World ε}
    (hop : ∀ {name e w r w'}, (name, e) ∈ es.entries → P w →
      World.exec fuel (bindOperation h name e) w = some (r, w') → P w')
    (hreport : ∀ (w : World ε) s message, P w →
      P { w with host := w.channel.handler s message w.host })
    (hw : P w) (hbind : es.bind (World.exec fuel) h declared w = some (n, w')) : P w' := by
  unfold bind at hbind
  generalize es.entries = entries at hop hbind
  induction entries generalizing w n with
  | nil =>
    cases hbind
    exact hw
  | cons entry entries ih =>
    unfold bindEntries at hbind
    split at hbind
    · split at hbind
      · rename_i hexec
        obtain ⟨⟨n', w₁⟩, hrest, heq⟩ := Option.map_eq_some_iff.mp hbind
        cases heq
        exact ih (hop (.head _) hw hexec) (fun he => hop (.tail _ he)) hrest
      · rename_i hexec
        exact ih (hop (.head _) hw hexec) (fun he => hop (.tail _ he)) hbind
      · cases hbind
    · refine ih ?_ (fun he => hop (.tail _ he)) hbind
      unfold World.report
      split
      · exact hw
      · exact hreport w _ _ hw

def Externs.Obeys {ε : Type} (d : Discipline ε) (es : Externs ε) : Prop :=
  ∀ name arity body, (name, .function arity body) ∈ es.entries → ∀ args, (body args).Obeys d

theorem Externs.Obeys.bindOperation {ε : Type} {d : Discipline ε} {es : Externs ε}
    (hes : es.Obeys d) {name : String} {e : Extern ε} (he : (name, e) ∈ es.entries) (h : Handle) :
    (bindOperation h name e).Grants d := by
  cases e with
  | value v => trivial
  | function arity body => exact hes name arity body he

def Act.Obeys (d : Discipline (Story δ)) : Act δ → Prop
  | create externs _ _ => externs.Obeys d
  | setFunction _ _ _ body => ∀ args, (body args).Obeys d
  | _ => True

theorem Operation.grants_of_isTame {ε : Type} {d : Discipline ε} {op : Operation ε}
    (hop : op.isTame = true) : op.Grants d := by
  cases op <;> first | exact trivial | cases hop

/-- What any operations maintain that hand out host code of the discipline, and any changes by the
host. -/
structure Unhindered (d : Discipline (Story δ)) (P : World (Story δ) → Prop) : Prop where
  exec : ∀ {fuel op w r w'}, op.Grants d → P w → World.exec fuel op w = some (r, w') → P w'
  update : ∀ (f : Story δ → Story δ) {w}, P w → P { w with host := f w.host }

namespace Unhindered

open Telling (maintains_alive maintains_bind maintains_bounded maintains_conversation?
  maintains_perform maintains_performFlag maintains_pure maintains_reply maintains_story
  maintains_throw maintains_update create_of_none create_of_some)

variable {d : Discipline (Story δ)} {P : World (Story δ) → Prop} (h : Unhindered d P) (fuel : Nat)

include h

theorem upheld (i : Nat) : Upheld i P :=
  ⟨fun hop => h.exec (Operation.grants_of_isTame hop), fun {f} _ _ => h.update f⟩

theorem perform {op : Operation (Story δ)} (hop : op.Grants d) :
    (Telling.perform fuel op).Maintains P :=
  maintains_perform fun _ _ _ hw => h.exec hop hw

theorem maintains (f : Story δ → Story δ) : (Telling.update f).Maintains P :=
  maintains_update fun _ hw => h.update f hw

theorem create {externs : Externs (Story δ)} (hd : d.trusts Story.dispatch)
    (hexterns : externs.Obeys d) (data : CompiledData) (config : Config) :
    (Telling.create fuel externs data config).Maintains P := by
  have henroll : (Telling.enroll fuel externs data config).Maintains P := by
    refine maintains_bind (h.perform fuel (.inl hd)) fun r => ?_
    split
    · refine maintains_bind maintains_story fun s => ?_
      refine maintains_bind (h.maintains _) fun _ => maintains_bind ?_ fun _ => ?_
      · refine maintains_bounded fun _ _ _ hw hbind => Externs.preserves_bind ?_ ?_ hw hbind
        · exact fun he hw hexec => h.exec (hexterns.bindOperation he _) hw hexec
        · exact fun w s message hw => h.update (w.channel.handler s message) hw
      · exact maintains_bind (h.maintains _) fun _ => maintains_pure _
    · exact maintains_throw _
    · exact maintains_throw _
  cases hseverity : config.severity with
  | none =>
    rw [create_of_none hseverity]
    exact henroll
  | some s =>
    rw [create_of_some hseverity]
    exact maintains_bind (h.perform fuel trivial) fun _ => henroll

theorem destroy (i : Nat) : (Telling.destroy fuel i).Maintains P := by
  unfold Telling.destroy
  refine maintains_bind (maintains_conversation? i) fun c => ?_
  split
  · exact maintains_pure _
  · split
    · exact maintains_pure _
    · refine maintains_bind (h.maintains _) fun _ => ?_
      refine maintains_bind ((h.upheld i).sustained.unbindStore fuel _) fun _ => ?_
      refine maintains_bind (h.maintains _) fun _ => ?_
      refine maintains_bind (h.perform fuel trivial) fun _ => ?_
      exact maintains_bind (h.maintains _) fun _ => maintains_pure _

theorem act (hd : d.trusts Story.dispatch) {a : Act δ} (ha : a.Obeys d) :
    (a.telling fuel).Maintains P := by
  cases a with
  | create externs data config => exact maintains_reply (h.create fuel hd ha data config)
  | destroy i => exact maintains_reply (h.destroy fuel i)
  | setFunction i name arity body =>
    refine maintains_reply (maintains_bind (maintains_alive i) fun _ => maintains_performFlag ?_)
    exact h.perform fuel ha
  | takeEvents i => exact maintains_reply (h.upheld i).takeEvents
  | takeEvent i => exact maintains_reply (h.upheld i).takeEvent?
  | _ =>
    have hs := (h.upheld 0).sustained
    exact Act.maintains hs.toSteady (hs.setShared fuel) (fun i _ => (h.upheld i).played fuel) rfl

end Unhindered

namespace Story

/-- Messages reach the state `δ` of the host and nothing else. -/
def logging (log : Severity → String → δ → δ) (severity : Severity) (message : String)
    (s : Story δ) : Story δ :=
  { s with host := log severity message s.host }

/-- Worlds that any operations on machines and any changes by the host lead to. -/
inductive Reachable (log : Severity → String → δ → δ) : World (Story δ) → Prop
  | create (s : Story δ) : Reachable log (.create (logging log) s)
  | operate {fuel : Nat} {op : Operation (Story δ)} {r : Reply} {w w' : World (Story δ)}
    (hw : Reachable log w) (hexec : World.exec fuel op w = some (r, w')) : Reachable log w'
  | update {w : World (Story δ)} (hw : Reachable log w) (f : Story δ → Story δ) :
    Reachable log { w with host := f w.host }

variable {log : Severity → String → δ → δ} {w w' : World (Story δ)}

def unruled : Discipline (Story δ) := ⟨fun _ => True, fun _ _ => True, fun _ => True⟩

mutual

theorem grants_unruled : ∀ op : Operation (Story δ), op.Grants unruled
  | .setFunction _ _ _ body => fun args => obeys_unruled (body args)
  | .create _ _ => .inl trivial
  | .destroy _ | .isAlive _ | .size | .start .. | .run _ | .state _ | .canContinue _ | .isWaiting _
  | .selectContinue _ | .selectChoice .. | .subscribe .. | .unsubscribe .. | .setExtern ..
  | .declareEnum .. | .getValue .. | .bufferBytes _ | .release _ | .outstanding | .save _ | .load ..
  | .externs _ | .boughNames _ | .setSeverity _ | .report .. | .resetHandler => trivial

theorem obeys_unruled : ∀ r : Reaction (Story δ), r.Obeys unruled
  | .done _ | .panic _ => trivial
  | .update _ next => ⟨fun _ => trivial, obeys_unruled next⟩
  | .inspect next => fun s => obeys_unruled (next s)
  | .call op next => ⟨⟨trivial, grants_unruled op⟩, fun reply => obeys_unruled (next reply)⟩

end

theorem unhindered_reachable : Unhindered unruled (Reachable (δ := δ) log) :=
  ⟨fun _ hw hexec => hw.operate hexec, fun f _ hw => hw.update f⟩

theorem reachable_create (fuel : Nat) (externs : Externs (Story δ)) (data : CompiledData)
    (config : Config) : (Telling.create fuel externs data config).Maintains (Reachable log) :=
  unhindered_reachable.create fuel trivial (fun _ _ body _ args => obeys_unruled (body args)) data
    config

theorem reachable_act (fuel : Nat) (a : Act δ) : (a.telling fuel).Maintains (Reachable log) := by
  refine unhindered_reachable.act fuel trivial ?_
  cases a with
  | create externs data config => exact fun _ _ body _ args => obeys_unruled (body args)
  | setFunction i name arity body => exact fun args => obeys_unruled (body args)
  | _ => trivial

end Story

end Dialogue
