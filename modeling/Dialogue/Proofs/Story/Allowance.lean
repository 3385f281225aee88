import Dialogue.Proofs.Story.Agreement
import Dialogue.Proofs.Story.Settings

namespace Dialogue

variable {δ α β : Type} {i fuel : Nat} {most : Option Nat}

def Config.limited (most : Option Nat) (k : Config) : Config := { k with maxSlices := most }

abbrev Conversation.limited (most : Option Nat) (c : Conversation δ) : Conversation δ :=
  c.recast (·.limited most) id

abbrev Story.limited (i : Nat) (most : Option Nat) (s : Story δ) : Story δ :=
  s.recast i (·.limited most) id

/-- A play of the conversation may take at most so many slices, or any number. -/
abbrev World.limited (i : Nat) (most : Option Nat) (w : World (Story δ)) : World (Story δ) :=
  w.recast i (·.limited most) id

namespace Story

/-- A change that does not touch the settings of the conversation, nor see its limit, nor take it
back to where it has not started. -/
structure Tends (i : Nat) (f : Story δ → Story δ) : Prop where
  limited : ∀ most s, f (s.limited i most) = (f s).limited i most
  keeps : ∀ s c, s.conversations[i]? = some c → ∃ c', (f s).conversations[i]? = some c' ∧
    c'.config = c.config ∧ (c.phase ≠ .created → c'.phase ≠ .created)

variable {f : Story δ → Story δ}

theorem tends_same (hlimited : ∀ most s, f (s.limited i most) = (f s).limited i most)
    (hf : ∀ s, (f s).conversations = s.conversations) : Tends i f :=
  ⟨hlimited, fun s c hc => ⟨c, by rw [hf s, hc], rfl, id⟩⟩

theorem tends_id : Tends i fun s : Story δ => s := tends_same (fun _ _ => rfl) fun _ => rfl

theorem Tends.modify {g : Conversation δ → Conversation δ} (hf : Tends i f)
    (hlimited : ∀ most c, g (c.limited most) = (g c).limited most)
    (hconfig : ∀ c, (g c).config = c.config)
    (hphase : ∀ c, c.phase ≠ .created → (g c).phase ≠ .created) :
    Tends i fun s => (f s).modify i g := by
  refine ⟨fun most s => ?_, fun s c hc => ?_⟩
  · rw [hf.limited]
    exact modify_recast (f s) i (hlimited most)
  · obtain ⟨c', hc', hconfig', hphase'⟩ := hf.keeps s c hc
    exact ⟨g c', by simp [Story.modify, hc'], (hconfig c').trans hconfig', hphase c' ∘ hphase'⟩

theorem Tends.stopSpeaker (hf : Tends i f) : Tends i fun s => (f s).stopSpeaker i := by
  refine ⟨fun most s => ?_, fun s c hc => ?_⟩
  · rw [hf.limited]
    exact stopSpeaker_recast (f s) i
  · obtain ⟨c', hc', hkeeps⟩ := hf.keeps s c hc
    unfold Story.stopSpeaker
    simp only [hc', Option.bind_some]
    split
    · exact ⟨{ c' with speaker := none }, by simp [Story.modify, hc'], hkeeps⟩
    · exact ⟨c', hc', hkeeps⟩

theorem tends_clearPending : Tends i fun s : Story δ => s.clearPending i :=
  tends_id.modify (fun _ _ => rfl) (fun _ => rfl) fun _ => id

end Story

namespace World

variable {w v : World (Story δ)} {k : Config} {B : Prop}

/-- The conversation has these settings, which host code does not see. If `B` holds, it has
started. -/
structure Configured (i : Nat) (k : Config) (B : Prop) (w : World (Story δ)) : Prop where
  heedless : w.Heedless i
  conversation : ∃ c, w.host.conversations[i]? = some c ∧ c.config = k ∧ (B → c.phase ≠ .created)

def Limited (i : Nat) (most : Option Nat) (k : Config) (B : Prop) (w v : World (Story δ)) : Prop :=
  w.Configured i k B ∧ v = w.limited i most

theorem Limited.exec (hw : Limited i most k B w v) {op : Operation (Story δ)}
    (hop : op.Heedless i) (fuel : Nat) :
    Option.Rel (fun r r' => r.1 = r'.1 ∧ Limited i most k B r.2 r'.2) (exec fuel op w)
      (exec fuel op v) := by
  obtain ⟨⟨hheedless, c, hc, rfl, hphase⟩, rfl⟩ := hw
  rw [exec_recast hheedless hop]
  cases hexec : World.exec fuel op w with
  | none => exact .none
  | some r =>
    obtain ⟨c', hc', hconfig', hphase'⟩ := hheedless.kept hop hexec hc
    refine .some ⟨rfl, ⟨hheedless.exec hop hexec, c', hc', hconfig', fun h => ?_⟩, rfl⟩
    rw [hphase']
    exact hphase h

theorem Limited.update (hw : Limited i most k B w v) {f : Story δ → Story δ}
    (hf : Story.Tends i f) :
    Limited i most k B { w with host := f w.host } { v with host := f v.host } := by
  obtain ⟨⟨hheedless, c, hc, rfl, hphase⟩, rfl⟩ := hw
  obtain ⟨c', hc', hconfig', hphase'⟩ := hf.keeps w.host c hc
  have hconversation := (List.getElem?_eq_some_iff.mp hc').1
  refine ⟨⟨⟨hheedless.host _, hconversation⟩, c', hc', hconfig',
    fun h => hphase' (hphase h)⟩, ?_⟩
  simp only [recast, hf.limited most w.host]

end World

theorem Operation.heedless_of_isTame {op : Operation (Story δ)} (hop : op.isTame = true) :
    op.Heedless i := by
  intro f p
  cases op <;> trivial

namespace Telling

open World (Limited)

/-- An action that comes to the same whatever the limit is, and leaves the limit to others. If `B`
holds, the conversation has to have started. -/
structure Indifferent (i : Nat) (B : Prop) (t : Telling δ α) : Prop where
  agree : ∀ most k, Agree (Limited i most k B) Eq t t
  unspent : ∀ {w e w'}, t.Yields w (.error e) w' → ∀ m, e ≠ .slicesExhausted m

variable {B : Prop} {t : Telling δ α}

theorem indifferent_pure (a : α) : Indifferent i B (pure a : Telling δ α) :=
  ⟨fun _ _ => agree_pure rfl, fun he => by cases (yields_pure.mp he).1⟩

theorem indifferent_throw {e : StoryError} (he : ∀ m, e ≠ .slicesExhausted m) :
    Indifferent i B (throw e : Telling δ α) := by
  refine ⟨fun _ _ => agree_throw e, fun hyields => ?_⟩
  cases (yields_throw.mp hyields).1
  exact he

theorem indifferent_bind {f : α → Telling δ β} (ht : Indifferent i B t)
    (hf : ∀ a, Indifferent i B (f a)) : Indifferent i B (t >>= f) := by
  constructor
  · intro most k
    refine agree_bind (ht.agree most k) fun a a' ha => ?_
    subst ha
    exact (hf a).agree most k
  · intro w e w' hyields
    rcases yields_bind.mp hyields with ⟨a, w₁, -, hyields⟩ | ⟨e', hyields, heq⟩
    · exact (hf a).unspent hyields
    · cases heq
      exact ht.unspent hyields

theorem indifferent_of_succeeds (ht : t.Succeeds) (h : ∀ most k, Agree (Limited i most k B) Eq t t) :
    Indifferent i B t := by
  refine ⟨h, fun hyields => ?_⟩
  obtain ⟨a, heq⟩ := ht _ _ _ hyields
  cases heq

theorem indifferent_perform {op : Operation (Story δ)} (hop : op.isTame = true) :
    Indifferent i B (perform fuel op) :=
  indifferent_of_succeeds (succeeds_perform fuel op) fun _ _ =>
    agree_perform fun _ _ hw => hw.exec (Operation.heedless_of_isTame hop) fuel

theorem indifferent_performFlag {op : Operation (Story δ)} (hop : op.isTame = true) :
    Indifferent i B (performFlag fuel op) := by
  refine indifferent_bind (indifferent_perform hop) fun r => ?_
  cases r <;> exact indifferent_pure _

theorem indifferent_update {f : Story δ → Story δ} (hf : Story.Tends i f) :
    Indifferent i B (update f) :=
  indifferent_of_succeeds (succeeds_update f) fun _ _ => agree_update fun _ _ hw => hw.update hf

theorem indifferent_guard {b : Prop} [Decidable b] {e : StoryError} {f : PUnit → Telling δ β}
    (he : ∀ m, e ≠ .slicesExhausted m) (hf : Indifferent i B (f .unit)) :
    Indifferent i B (if b then throw e >>= f else f .unit) := by
  split
  · exact indifferent_throw he
  · exact hf

theorem indifferent_forIn {xs : List β} {f : β → PUnit → Telling δ (ForInStep PUnit)}
    (hf : ∀ x u, Indifferent i B (f x u)) (u : PUnit) : Indifferent i B (forIn xs u f) := by
  induction xs generalizing u with
  | nil => exact indifferent_pure u
  | cons x xs ih =>
    rw [List.forIn_cons]
    refine indifferent_bind (hf x u) fun step => ?_
    cases step with
    | done u => exact indifferent_pure u
    | yield u => exact ih u

theorem indifferent_tryCatch {f : StoryError → Telling δ α} (ht : Indifferent i B t)
    (hf : ∀ e, (∀ m, e ≠ .slicesExhausted m) → Indifferent i B (f e)) :
    Indifferent i B (tryCatch t f : Telling δ α) := by
  constructor
  · intro most k w v hw
    rw [run_tryCatch, run_tryCatch]
    have hrel := ht.agree most k w v hw
    have hunspent {e : StoryError} {w' : World (Story δ)} (h : t.run.run w = some (.error e, w')) :
        ∀ m, e ≠ .slicesExhausted m := ht.unspent h
    generalize t.run.run w = o at hrel hunspent ⊢
    generalize t.run.run v = o' at hrel ⊢
    cases hrel with
    | none => exact .none
    | @some r r' hr =>
      obtain ⟨r, w'⟩ := r
      obtain ⟨r', v'⟩ := r'
      obtain ⟨hends, hw'⟩ := hr
      cases hends with
      | ok ha => exact .some ⟨.ok ha, hw'⟩
      | error e => exact (hf e (hunspent rfl)).agree most k _ _ hw'
  · intro w e w' hyields
    rcases yields_tryCatch.mp hyields with ⟨a, -, heq⟩ | ⟨e', w₁, ht', hyields⟩
    · cases heq
    · exact (hf e' (ht.unspent ht')).unspent hyields

theorem indifferent_story_bind {f : Story δ → Telling δ β}
    (hlimited : ∀ most s, f (Story.limited i most s) = f s) (hf : ∀ s, Indifferent i B (f s)) :
    Indifferent i B (story >>= f) := by
  constructor
  · intro most k w v hw
    change Option.Rel _ ((f w.host).run.run w) ((f v.host).run.run v)
    have hv : f v.host = f w.host := by
      rw [hw.2]
      exact hlimited most w.host
    rw [hv]
    exact (hf w.host).agree most k w v hw
  · intro w e w' hyields
    exact (hf w.host).unspent (yields_story_bind.mp hyields)

theorem indifferent_conversation?_bind {f : Option (Conversation δ) → Telling δ β}
    (hlimited : ∀ most (c : Conversation δ), f (some (c.limited most)) = f (some c))
    (hf : ∀ c, Indifferent i B (f c)) : Indifferent i B (conversation? i >>= f) :=
  indifferent_story_bind (f := fun s => f s.conversations[i]?)
    (fun most s => Story.of_conversation_recast s i (g := f) (hlimited most)) fun _ => hf _

theorem indifferent_alive_bind {f : Conversation δ → Telling δ β}
    (hlimited : ∀ most (c : Conversation δ), f (c.limited most) = f c)
    (hf : ∀ c, Indifferent i B (f c)) : Indifferent i B (alive i >>= f) := by
  unfold alive
  rw [bind_assoc]
  refine indifferent_conversation?_bind (fun most c => ?_) fun c => ?_
  · by_cases hphase : c.phase = .destroyed
    · have hphase' : (c.limited most).phase = .destroyed := hphase
      simp only [hphase, hphase', if_true]
      rfl
    · have hphase' : (c.limited most).phase ≠ .destroyed := hphase
      simp only [hphase, hphase', if_false, pure_bind]
      exact hlimited most c
  · cases c with
    | none => exact indifferent_throw nofun
    | some c =>
      by_cases hphase : c.phase = .destroyed
      · simp only [hphase, if_true]
        exact indifferent_throw nofun
      · simp only [hphase, if_false, pure_bind]
        exact hf c

theorem indifferent_machineState (h : Handle) :
    Indifferent i B (machineState fuel h : Telling δ _) := by
  refine indifferent_bind (indifferent_perform rfl) fun r => ?_
  split
  · exact indifferent_pure _
  · exact indifferent_throw nofun

theorem indifferent_pending : Indifferent i B (pending i : Telling δ _) :=
  indifferent_conversation?_bind (fun _ _ => rfl) fun _ => indifferent_pure _

theorem indifferent_inject (h : Handle) : Indifferent i B (inject fuel h : Telling δ _) := by
  refine indifferent_story_bind (fun _ _ => rfl) fun s => ?_
  simp only
  split
  · exact indifferent_bind (indifferent_perform rfl) fun _ => indifferent_pure _
  · exact indifferent_pure _

theorem indifferent_bindVariable (c : Conversation δ) (name : String) :
    Indifferent i B (bindVariable fuel i c name) := by
  refine indifferent_conversation?_bind (fun _ _ => rfl) fun own => ?_
  simp only
  split
  · exact indifferent_pure _
  have hwatch : Indifferent i B (watchVariable fuel i c name) := by
    refine indifferent_bind (indifferent_perform rfl) fun _ => ?_
    refine indifferent_story_bind (fun _ _ => rfl) fun s => ?_
    split
    · rename_i store _
      refine indifferent_update (.modify ?_ (fun _ _ => rfl) (fun _ => rfl) fun _ => id)
      exact Story.tends_same (fun _ _ => rfl) fun _ => rfl
    · exact indifferent_pure _
  refine indifferent_story_bind (fun _ _ => rfl) fun s => ?_
  split
  · exact indifferent_bind (indifferent_perform rfl) fun _ => hwatch
  · exact hwatch

theorem indifferent_bindStore (c : Conversation δ) :
    Indifferent i B (bindStore fuel i c) := by
  refine indifferent_story_bind (fun _ _ => rfl) fun s => ?_
  split
  · refine indifferent_bind (indifferent_forIn (fun d _ => ?_) _) fun _ => ?_
    · exact indifferent_bind (indifferent_perform rfl) fun _ => indifferent_pure _
    refine indifferent_bind (indifferent_forIn (fun name _ => ?_) _) fun _ => indifferent_pure _
    exact indifferent_bind (indifferent_bindVariable c name) fun _ => indifferent_pure _
  · exact indifferent_pure _

theorem indifferent_unbindStore (c : Conversation δ) :
    Indifferent i B (unbindStore fuel i c) := by
  refine indifferent_conversation?_bind (fun _ _ => rfl) fun own => ?_
  refine indifferent_bind (indifferent_update ?_) fun _ => ?_
  · exact Story.tends_id.modify (fun _ _ => rfl) (fun _ => rfl) fun _ => id
  refine indifferent_story_bind (fun _ _ => rfl) fun s => ?_
  split
  · refine indifferent_bind (indifferent_forIn (fun binding _ => ?_) _) fun _ => indifferent_pure _
    refine indifferent_bind (indifferent_update ?_) fun _ => ?_
    · exact Story.tends_same (fun _ _ => rfl) fun _ => rfl
    · exact indifferent_bind (indifferent_perform rfl) fun _ => indifferent_pure _
  · exact indifferent_pure _

theorem indifferent_saveState : Indifferent i B (saveState fuel i : Telling δ _) := by
  refine indifferent_alive_bind (fun _ _ => rfl) fun c => ?_
  refine indifferent_bind (indifferent_perform rfl) fun r => ?_
  split
  · exact indifferent_pure _
  · exact indifferent_throw nofun

theorem indifferent_finish : Indifferent i B (finish fuel i : Telling δ _) := by
  refine indifferent_conversation?_bind (fun _ _ => rfl) fun c => ?_
  split
  · exact indifferent_pure _
  split
  · exact indifferent_pure _
  refine indifferent_bind indifferent_saveState fun saved => ?_
  refine indifferent_bind (indifferent_update (.stopSpeaker ?_)) fun _ => ?_
  · exact Story.tends_same (fun _ _ => rfl) fun _ => rfl
  refine indifferent_bind (indifferent_unbindStore _) fun _ => ?_
  refine indifferent_update (.modify ?_ (fun _ _ => rfl) (fun _ => rfl) fun _ => id)
  exact Story.tends_id.modify (fun _ _ => rfl) (fun _ => rfl) fun _ _ => nofun

theorem indifferent_finishSlice : Indifferent i B (finishSlice fuel i : Telling δ _) :=
  indifferent_bind indifferent_finish fun _ => indifferent_pure _

theorem indifferent_tick : Indifferent i B (tick fuel i : Telling δ _) := by
  refine indifferent_alive_bind (fun _ _ => rfl) fun c => ?_
  refine indifferent_bind (indifferent_machineState _) fun state => ?_
  cases state with
  | ready | faulted => exact indifferent_throw nofun
  | finished => exact indifferent_finishSlice
  | waiting kind => exact indifferent_pending
  | running =>
    refine indifferent_bind (indifferent_update Story.tends_clearPending) fun _ => ?_
    refine indifferent_bind (indifferent_performFlag rfl) fun ran => ?_
    refine indifferent_bind (indifferent_machineState _) fun state => ?_
    split
    · exact indifferent_throw nofun
    refine indifferent_guard nofun ?_
    split
    · exact indifferent_pending
    · exact indifferent_finishSlice
    · exact indifferent_pure _

theorem indifferent_answer (op : Handle → Operation (Story δ)) (hop : ∀ h, (op h).isTame = true)
    {e : StoryError} (he : ∀ m, e ≠ .slicesExhausted m) :
    Indifferent i B (Replay.answer fuel i op e) := by
  refine indifferent_alive_bind (fun _ _ => rfl) fun c => ?_
  refine indifferent_bind (indifferent_performFlag (hop c.handle)) fun _ => ?_
  exact indifferent_guard he (indifferent_update Story.tends_clearPending)

theorem indifferent_continueLine : Indifferent i B (continueLine fuel i : Telling δ _) :=
  indifferent_answer .selectContinue (fun _ => rfl) nofun

theorem indifferent_selectChoice (index : Nat) :
    Indifferent i B (selectChoice fuel i index : Telling δ _) :=
  indifferent_answer (.selectChoice · index) (fun _ => rfl) nofun

theorem indifferent_respond (r : Responder δ) (slice : Slice) :
    Indifferent i B (respond fuel i r slice) := by
  have hhost (f : Story δ → δ) (hf : ∀ most s, f (Story.limited i most s) = f s) :
      Indifferent i B (update fun s => { s with host := f s }) :=
    indifferent_update (Story.tends_same (fun most s => by rw [hf]; rfl) fun _ => rfl)
  unfold respond
  split
  · exact indifferent_pure _
  · exact indifferent_pure _
  · rename_i spoken
    refine indifferent_bind (hhost (fun s => r.line spoken s.host) fun _ _ => rfl) fun _ => ?_
    exact indifferent_bind indifferent_continueLine fun _ => indifferent_pure _
  · refine indifferent_story_bind (fun _ _ => rfl) fun s => ?_
    refine indifferent_bind (hhost _ fun _ _ => rfl) fun _ => ?_
    refine indifferent_bind (indifferent_tryCatch (indifferent_selectChoice _) fun e he => ?_)
      fun _ => indifferent_pure _
    split
    · split
      · exact indifferent_pure _
      · exact indifferent_throw nofun
    · exact indifferent_throw he

theorem indifferent_startBough (bough : String) :
    Indifferent i B (startBough fuel i bough : Telling δ _) := by
  refine indifferent_alive_bind (fun _ _ => rfl) fun c => ?_
  refine indifferent_bind (indifferent_inject _) fun _ => ?_
  refine indifferent_bind (indifferent_bindStore c) fun _ => ?_
  refine indifferent_bind (indifferent_performFlag rfl) fun _ => ?_
  have hstarted : Story.Tends i fun s : Story δ => (s.clearPending i).modify i fun c =>
      { c with phase := .started } :=
    Story.tends_clearPending.modify (fun _ _ => rfl) (fun _ => rfl) fun _ _ => nofun
  refine indifferent_guard (f := fun _ => update _) nofun (indifferent_update ?_)
  exact hstarted.modify (fun _ _ => rfl) (fun _ => rfl) fun _ => id

theorem indifferent_start : Indifferent i B (start fuel i : Telling δ _) :=
  indifferent_conversation?_bind (fun _ _ => rfl) fun _ => indifferent_startBough _

variable {w w' : World (Story δ)} {k : Config}

theorem phase_of_start {c : Conversation δ} (hr : (start fuel i).Yields w (.ok ()) w')
    (hc : w'.host.conversations[i]? = some c) : c.phase = .started := by
  unfold start startBough at hr
  obtain ⟨_, w₁, -, hr⟩ := yields_bind_ok.mp hr
  obtain ⟨_, w₂, -, hr⟩ := yields_bind_ok.mp hr
  obtain ⟨_, w₃, -, hr⟩ := yields_bind_ok.mp hr
  obtain ⟨_, w₄, -, hr⟩ := yields_bind_ok.mp hr
  obtain ⟨a, w₅, -, ⟨-, hr⟩ | ⟨-, heq, -⟩⟩ := (yields_guard (t := update _)).mp hr
  · obtain ⟨-, rfl⟩ := yields_update.mp hr
    simp only [Story.emit, Story.clearPending, Story.modify_modify] at hc
    simp only [Story.modify, List.getElem?_modify_eq] at hc
    obtain ⟨c', -, rfl⟩ := Option.map_eq_some_iff.mp hc
    rfl
  · cases heq

theorem Indifferent.ran {t : Telling δ α} (ht : Indifferent i B t) (hw : w.Configured i k B)
    (most : Option Nat) : t.run.run (w.limited i most) =
      (t.run.run w).map (fun r => (r.1, r.2.limited i most)) ∧
        ∀ r w', t.Yields w r w' → w'.Configured i k B := by
  have hrel := ht.agree most k w _ ⟨hw, rfl⟩
  have hyields {r : Except StoryError α} {w' : World (Story δ)} (h : t.Yields w r w') :
      t.run.run w = some (r, w') := h
  generalize t.run.run w = o at hrel hyields ⊢
  generalize t.run.run (w.limited i most) = o' at hrel ⊢
  cases hrel with
  | none => exact ⟨rfl, fun r w' h => by cases hyields h⟩
  | @some r r' hr =>
    obtain ⟨r, w₁⟩ := r
    obtain ⟨r', v₁⟩ := r'
    obtain ⟨hends, hw₁, rfl⟩ := hr
    refine ⟨?_, fun r' w' h => ?_⟩
    · cases hends with
      | ok ha => exact congrArg (fun a => some (Except.ok a, w₁.limited i most)) ha.symm
      | error e => rfl
    · cases hyields h
      exact hw₁

theorem Indifferent.run {t : Telling δ α} (ht : Indifferent i B t) (hw : w.Configured i k B)
    (most : Option Nat) :
    t.run.run (w.limited i most) = (t.run.run w).map fun r => (r.1, r.2.limited i most) :=
  (ht.ran hw most).1

theorem Indifferent.configured {t : Telling δ α} {r : Except StoryError α} (ht : Indifferent i B t)
    (hw : w.Configured i k B) (hr : t.Yields w r w') : w'.Configured i k B :=
  (ht.ran hw none).2 r w' hr

theorem configured_of_start (hw : w.Configured i k B) (hr : (start fuel i).Yields w (.ok ()) w') :
    w'.Configured i k True := by
  obtain ⟨hheedless, c, hc, hconfig, -⟩ := indifferent_start.configured hw hr
  exact ⟨hheedless, c, hc, hconfig, fun _ => by rw [phase_of_start hr hc]; exact nofun⟩

end Telling

end Dialogue
