import Dialogue.Proofs.Story.Reachable

namespace Dialogue

def Operation.isRun {ε : Type} : Operation ε → Bool
  | run _ => true
  | _ => false

namespace World

variable {ε : Type} {w : World ε}

theorem AtRest.returns (hw : w.AtRest) {op : Operation ε} (hop : op.isRun = false) (fuel : Nat) :
    ∃ r w', exec (fuel + 2) op w = some (r, w') := by
  rcases op.kinds with ⟨bytes, callbacks, rfl⟩ | ⟨h, bough, rfl⟩ | ⟨h, rfl⟩ | ⟨c, hc⟩ | hquiet
  · exact ⟨_, _, rfl⟩
  · rcases hw.find_cases h with hget | ⟨i, inst, hfind, hidle⟩
    · change ∃ r w', drive _ (fuel + 1) "start" h (startInstance bough) w = some (r, w')
      rw [drive_lost hget]
      exact ⟨_, _, rfl⟩
    · rw [start_eq_of_find hfind hidle]
      split <;> exact ⟨_, _, rfl⟩
  · cases hop
  · obtain ⟨w', hexec, -⟩ := change_returns hw hc fuel
    exact ⟨_, w', hexec⟩
  · cases op <;> first | cases hquiet; done | exact ⟨_, _, rfl⟩

end World

namespace Telling

variable {δ α β : Type} {fuel i : Nat}

def Completes (t : Telling δ α) : Prop :=
  ∀ w : World (Story δ), w.AtRest → ∃ r w', t.Yields w r w' ∧ w'.AtRest

theorem completes_pure (a : α) : (pure a : Telling δ α).Completes :=
  fun w hw => ⟨_, w, yields_pure.mpr ⟨rfl, rfl⟩, hw⟩

theorem completes_throw (e : StoryError) : (throw e : Telling δ α).Completes :=
  fun w hw => ⟨_, w, yields_throw.mpr ⟨rfl, rfl⟩, hw⟩

theorem completes_bind {t : Telling δ α} {f : α → Telling δ β} (ht : t.Completes)
    (hf : ∀ a, (f a).Completes) : (t >>= f).Completes := by
  intro w hw
  obtain ⟨e | a, w₁, ha, hw₁⟩ := ht w hw
  · exact ⟨_, w₁, yields_bind.mpr (.inr ⟨e, ha, rfl⟩), hw₁⟩
  · obtain ⟨r, w', hr, hw'⟩ := hf a w₁ hw₁
    exact ⟨r, w', yields_bind.mpr (.inl ⟨a, w₁, ha, hr⟩), hw'⟩

theorem completes_guard {b : Prop} [Decidable b] {e : StoryError} {k : PUnit → Telling δ β}
    (hk : ∀ u, (k u).Completes) :
    (if b then throw e >>= k else k .unit : Telling δ β).Completes := by
  split
  · exact completes_bind (completes_throw e) hk
  · exact hk _

theorem completes_story : (story : Telling δ _).Completes :=
  fun w hw => ⟨_, w, yields_story.mpr ⟨rfl, rfl⟩, hw⟩

theorem completes_conversation? (i : Nat) : (conversation? i : Telling δ _).Completes :=
  fun w hw => ⟨_, w, yields_conversation?.mpr ⟨rfl, rfl⟩, hw⟩

theorem completes_update (f : Story δ → Story δ) : (update f).Completes :=
  fun _ hw => ⟨_, _, yields_update.mpr ⟨rfl, rfl⟩, hw.congr rfl rfl⟩

theorem completes_alive (i : Nat) : (alive i : Telling δ _).Completes := by
  unfold alive
  refine completes_bind (completes_conversation? i) fun c => ?_
  split
  · split
    · exact completes_throw _
    · exact completes_pure _
  · exact completes_throw _

theorem completes_perform {op : Operation (Story δ)} (hop : op.isRun = false) (fuel : Nat) :
    (perform (fuel + 2) op).Completes := by
  intro w hw
  obtain ⟨r, w', hexec⟩ := hw.returns hop fuel
  exact ⟨_, w', yields_perform.mpr ⟨r, hexec, rfl⟩, World.atRest_exec hw hexec⟩

theorem completes_performFlag {op : Operation (Story δ)} (hop : op.isRun = false) (fuel : Nat) :
    (performFlag (fuel + 2) op).Completes := by
  refine completes_bind (completes_perform hop fuel) fun r => ?_
  split <;> exact completes_pure _

theorem completes_forIn {xs : List β} {f : β → PUnit → Telling δ (ForInStep PUnit)}
    (hf : ∀ x u, (f x u).Completes) (u : PUnit) : (forIn xs u f).Completes := by
  induction xs generalizing u with
  | nil => exact completes_pure u
  | cons x xs ih =>
    rw [List.forIn_cons]
    refine completes_bind (hf x u) fun step => ?_
    cases step with
    | done u => exact completes_pure u
    | yield u => exact ih u

theorem completes_inject (fuel : Nat) (h : Handle) : (inject (fuel + 2) h : Telling δ _).Completes := by
  unfold inject
  refine completes_bind completes_story fun s => ?_
  simp only
  split
  · exact completes_bind (completes_perform rfl fuel) fun _ => completes_pure _
  · exact completes_pure _

theorem completes_bindVariable (fuel i : Nat) (c : Conversation δ) (name : String) :
    (bindVariable (fuel + 2) i c name).Completes := by
  unfold bindVariable
  refine completes_bind (completes_conversation? i) fun own => ?_
  simp only
  split
  · exact completes_pure _
  · have hwatch : (watchVariable (fuel + 2) i c name).Completes := by
      refine completes_bind (completes_perform rfl fuel) fun _ => ?_
      refine completes_bind completes_story fun s => ?_
      split
      · exact completes_update _
      · exact completes_pure _
    refine completes_bind completes_story fun s => ?_
    split
    · exact completes_bind (completes_perform rfl fuel) fun _ => hwatch
    · exact hwatch

theorem completes_bindStore (fuel i : Nat) (c : Conversation δ) :
    (bindStore (fuel + 2) i c).Completes := by
  unfold bindStore
  refine completes_bind completes_story fun s => ?_
  split
  · refine completes_bind (completes_forIn (fun d _ => ?_) _) fun _ => ?_
    · exact completes_bind (completes_perform rfl fuel) fun _ => completes_pure _
    · refine completes_bind (completes_forIn (fun name _ => ?_) _) fun _ => completes_pure _
      exact completes_bind (completes_bindVariable fuel i c name) fun _ => completes_pure _
  · exact completes_pure _

theorem completes_unbindStore (fuel i : Nat) (c : Conversation δ) :
    (unbindStore (fuel + 2) i c).Completes := by
  unfold unbindStore
  refine completes_bind (completes_conversation? i) fun own => ?_
  refine completes_bind (completes_update _) fun _ => completes_bind completes_story fun s => ?_
  split
  · refine completes_bind (completes_forIn (fun binding _ => ?_) _) fun _ => completes_pure _
    refine completes_bind (completes_update _) fun _ => ?_
    exact completes_bind (completes_perform rfl fuel) fun _ => completes_pure _
  · exact completes_pure _

theorem completes_saveState (fuel i : Nat) : (saveState (fuel + 2) i : Telling δ _).Completes := by
  unfold saveState
  refine completes_bind (completes_alive i) fun c => ?_
  refine completes_bind (completes_perform rfl fuel) fun r => ?_
  split
  · exact completes_pure _
  · exact completes_throw _

theorem completes_startBough (fuel i : Nat) (bough : String) :
    (startBough (fuel + 2) i bough : Telling δ _).Completes := by
  unfold startBough
  refine completes_bind (completes_alive i) fun c => ?_
  refine completes_bind (completes_inject fuel _) fun _ => ?_
  refine completes_bind (completes_bindStore fuel i c) fun _ => ?_
  refine completes_bind (completes_performFlag rfl fuel) fun started => ?_
  exact completes_guard fun _ => completes_update _

theorem completes_finish (fuel i : Nat) : (finish (fuel + 2) i : Telling δ _).Completes := by
  unfold finish
  refine completes_bind (completes_conversation? i) fun c => ?_
  split
  · exact completes_pure _
  · split
    · exact completes_pure _
    · refine completes_bind (completes_saveState fuel i) fun saved => ?_
      refine completes_bind (completes_update _) fun _ => ?_
      exact completes_bind (completes_unbindStore fuel i _) fun _ => completes_update _

theorem completes_destroy (fuel i : Nat) : (destroy (fuel + 2) i : Telling δ _).Completes := by
  unfold destroy
  refine completes_bind (completes_conversation? i) fun c => ?_
  split
  · exact completes_pure _
  · split
    · exact completes_pure _
    · refine completes_bind (completes_update _) fun _ => ?_
      refine completes_bind (completes_unbindStore fuel i _) fun _ => ?_
      refine completes_bind (completes_update _) fun _ => ?_
      refine completes_bind (completes_perform rfl fuel) fun _ => ?_
      exact completes_bind (completes_update _) fun _ => completes_pure _

end Telling

end Dialogue
