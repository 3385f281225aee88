import Dialogue.Story.Telling

namespace Dialogue

def Reply.isYes : Reply → Bool
  | flag b => b
  | _ => false

namespace Telling

variable {δ α β : Type} {w w' : World (Story δ)} {e : StoryError}

/-- From `w` the action ends with the result `r` in `w'`. -/
def Yields (t : Telling δ α) (w : World (Story δ)) (r : Except StoryError α)
    (w' : World (Story δ)) : Prop :=
  t.run.run w = some (r, w')

theorem Yields.unique {t : Telling δ α} {r r' : Except StoryError α} {w₁ : World (Story δ)}
    (h : t.Yields w r w') (h' : t.Yields w r' w₁) : r = r' ∧ w' = w₁ := by
  rw [Yields, h] at h'
  cases h'
  exact ⟨rfl, rfl⟩

abbrev enroll (fuel : Nat) (externs : Externs (Story δ)) (data : CompiledData) (config : Config) :
    Telling δ Nat := do
  match ← perform fuel (.create data.bytes Story.dispatch) with
  | .created (.ok h) =>
    let i := (← story).conversations.length
    update fun s => { s with
      conversations := s.conversations ++ [.create h config data.externs]
      routes := (h, i) :: s.routes.filter (·.1 != h) }
    let _ ← bounded (externs.bind (World.exec fuel) h data.externs)
    update (·.emit i (.created h))
    return i
  | .created (.error e) => throw (.library e)
  | _ => throw (.rejected "create")

theorem create_of_none {fuel : Nat} {externs : Externs (Story δ)} {data : CompiledData}
    {config : Config} (h : config.severity = none) :
    create fuel externs data config = enroll fuel externs data config := by
  cases config
  cases h
  rfl

theorem create_of_some {fuel : Nat} {externs : Externs (Story δ)} {data : CompiledData}
    {config : Config} {s : Severity} (h : config.severity = some s) :
    create fuel externs data config =
      perform fuel (.setSeverity s) >>= fun _ => enroll fuel externs data config := by
  cases config
  cases h
  rfl

abbrev watchVariable (fuel i : Nat) (c : Conversation δ) (name : String) : Telling δ Unit := do
  let _ ← perform fuel (.subscribe c.handle name)
  if let some store := (← story).store then
    let (id, store) := store.watch name c.handle
    update fun s =>
      { s with store := some store }.modify i fun c =>
        { c with bindings := c.bindings ++ [(name, id)] }

abbrev runSlice (fuel i : Nat) (h : Handle) : Telling δ Slice := do
  let ran ← performFlag fuel (.run h)
  match ← machineState fuel h with
  | .faulted => throw (.faulted h)
  | state =>
    if !ran then throw (.rejected "run")
    match state with
    | .waiting _ => pending i
    | .finished => finishSlice fuel i
    | _ => return .running

theorem yields_pure {a : α} {r : Except StoryError α} :
    (pure a : Telling δ α).Yields w r w' ↔ r = .ok a ∧ w' = w := by
  change some (Except.ok a, w) = some (r, w') ↔ _
  simp [eq_comm]

theorem yields_throw {r : Except StoryError α} :
    (throw e : Telling δ α).Yields w r w' ↔ r = .error e ∧ w' = w := by
  change some (Except.error e, w) = some (r, w') ↔ _
  simp [eq_comm]

theorem run_bind (t : Telling δ α) (f : α → Telling δ β) (w : World (Story δ)) :
    (t >>= f).run.run w = (t.run.run w).bind fun
      | (.ok a, w₁) => (f a).run.run w₁
      | (.error e, w₁) => some (.error e, w₁) := by
  change Option.bind (t.run.run w) _ = _
  congr 1
  funext x
  obtain ⟨_ | _, _⟩ := x <;> rfl

theorem yields_bind {t : Telling δ α} {f : α → Telling δ β} {r : Except StoryError β} :
    (t >>= f).Yields w r w' ↔ (∃ a w₁, t.Yields w (.ok a) w₁ ∧ (f a).Yields w₁ r w') ∨
      ∃ e, t.Yields w (.error e) w' ∧ r = .error e := by
  rw [Yields, run_bind, Option.bind_eq_some_iff]
  constructor
  · rintro ⟨⟨x | a, w₁⟩, ht, hf⟩
    · cases hf
      exact .inr ⟨x, ht, rfl⟩
    · exact .inl ⟨a, w₁, ht, hf⟩
  · rintro (⟨a, w₁, ht, hf⟩ | ⟨e, ht, rfl⟩)
    · exact ⟨(.ok a, w₁), ht, hf⟩
    · exact ⟨(.error e, w'), ht, rfl⟩

theorem yields_bounded {f : World (Story δ) → Option (α × World (Story δ))}
    {r : Except StoryError α} :
    (bounded f).Yields w r w' ↔ ∃ a, f w = some (a, w') ∧ r = .ok a := by
  change Option.bind (f w) _ = some (r, w') ↔ _
  rw [Option.bind_eq_some_iff]
  constructor
  · rintro ⟨⟨a, w₁⟩, hf, h⟩
    cases h
    exact ⟨a, hf, rfl⟩
  · rintro ⟨a, hf, rfl⟩
    exact ⟨(a, w'), hf, rfl⟩

theorem yields_perform {fuel : Nat} {op : Operation (Story δ)} {r : Except StoryError Reply} :
    (perform fuel op).Yields w r w' ↔ ∃ a, World.exec fuel op w = some (a, w') ∧ r = .ok a :=
  yields_bounded

theorem yields_story {r : Except StoryError (Story δ)} :
    (story : Telling δ _).Yields w r w' ↔ r = .ok w.host ∧ w' = w := by
  change some (Except.ok w.host, w) = some (r, w') ↔ _
  simp [eq_comm]

theorem yields_update {f : Story δ → Story δ} {r : Except StoryError Unit} :
    (update f).Yields w r w' ↔ r = .ok () ∧ w' = { w with host := f w.host } := by
  change some (Except.ok (), { w with host := f w.host }) = some (r, w') ↔ _
  simp [eq_comm]

theorem yields_conversation? {i : Nat} {r : Except StoryError (Option (Conversation δ))} :
    (conversation? i).Yields w r w' ↔ r = .ok w.host.conversations[i]? ∧ w' = w := by
  change some (Except.ok w.host.conversations[i]?, w) = some (r, w') ↔ _
  simp [eq_comm]

theorem yields_perform_bind {fuel : Nat} {op : Operation (Story δ)} {f : Reply → Telling δ β}
    {r : Except StoryError β} : (perform fuel op >>= f).Yields w r w' ↔
      ∃ a w₁, World.exec fuel op w = some (a, w₁) ∧ (f a).Yields w₁ r w' := by
  rw [yields_bind]
  constructor
  · rintro (⟨a, w₁, hop, hf⟩ | ⟨e, hop, -⟩)
    · obtain ⟨a', hexec, heq⟩ := yields_perform.mp hop
      cases heq
      exact ⟨a, w₁, hexec, hf⟩
    · obtain ⟨a', -, heq⟩ := yields_perform.mp hop
      cases heq
  · rintro ⟨a, w₁, hexec, hf⟩
    exact .inl ⟨a, w₁, yields_perform.mpr ⟨a, hexec, rfl⟩, hf⟩

theorem yields_bind_ok {t : Telling δ α} {f : α → Telling δ β} {b : β} :
    (t >>= f).Yields w (.ok b) w' ↔ ∃ a w₁, t.Yields w (.ok a) w₁ ∧ (f a).Yields w₁ (.ok b) w' := by
  simp [yields_bind]

theorem yields_bind_of_ok {t : Telling δ α} {f : α → Telling δ β} {a : α} {w₁ : World (Story δ)}
    {r : Except StoryError β} (ht : t.Yields w (.ok a) w₁) :
    (t >>= f).Yields w r w' ↔ (f a).Yields w₁ r w' := by
  rw [yields_bind]
  constructor
  · rintro (⟨a', w₂, ht', hf⟩ | ⟨e, ht', -⟩)
    · obtain ⟨heq, rfl⟩ := ht.unique ht'
      cases heq
      exact hf
    · cases (ht.unique ht').1
  · exact fun hf => .inl ⟨a, w₁, ht, hf⟩

theorem yields_story_bind {f : Story δ → Telling δ β} {r : Except StoryError β} :
    (story >>= f).Yields w r w' ↔ (f w.host).Yields w r w' :=
  yields_bind_of_ok (yields_story.mpr ⟨rfl, rfl⟩)

theorem yields_update_bind {g : Story δ → Story δ} {f : Unit → Telling δ β}
    {r : Except StoryError β} : (update g >>= f).Yields w r w' ↔
      (f ()).Yields { w with host := g w.host } r w' :=
  yields_bind_of_ok (yields_update.mpr ⟨rfl, rfl⟩)

theorem yields_conversation?_bind {i : Nat} {f : Option (Conversation δ) → Telling δ β}
    {r : Except StoryError β} : (conversation? i >>= f).Yields w r w' ↔
      (f w.host.conversations[i]?).Yields w r w' :=
  yields_bind_of_ok (yields_conversation?.mpr ⟨rfl, rfl⟩)

theorem yields_performFlag_bind {fuel : Nat} {op : Operation (Story δ)} {f : Bool → Telling δ β}
    {r : Except StoryError β} : (performFlag fuel op >>= f).Yields w r w' ↔
      ∃ a w₁, World.exec fuel op w = some (a, w₁) ∧ (f a.isYes).Yields w₁ r w' := by
  unfold performFlag
  rw [bind_assoc, yields_perform_bind]
  constructor
  · rintro ⟨a, w₁, hexec, hf⟩
    refine ⟨a, w₁, hexec, ?_⟩
    cases a <;> exact hf
  · rintro ⟨a, w₁, hexec, hf⟩
    refine ⟨a, w₁, hexec, ?_⟩
    cases a <;> exact hf

theorem yields_throw_bind {f : α → Telling δ β} {r : Except StoryError β} :
    (throw e >>= f).Yields w r w' ↔ r = .error e ∧ w' = w :=
  yields_throw

theorem yields_guard {fuel : Nat} {op : Operation (Story δ)} {t : Telling δ β}
    {r : Except StoryError β} :
    (performFlag fuel op >>= fun b =>
      if !b then throw e >>= fun _ : PUnit => t else t).Yields w r w' ↔
      ∃ a w₁, World.exec fuel op w = some (a, w₁) ∧
        (a.isYes = true ∧ t.Yields w₁ r w' ∨ a.isYes = false ∧ r = .error e ∧ w' = w₁) := by
  rw [yields_performFlag_bind]
  refine exists_congr fun a => exists_congr fun w₁ => and_congr_right fun _ => ?_
  cases a.isYes with
  | true => simp
  | false => simpa using yields_throw_bind (f := fun _ : PUnit => t)

theorem yields_alive_bind {i : Nat} {c : Conversation δ} (hc : w.host.conversations[i]? = some c)
    (hphase : c.phase ≠ .destroyed) {f : Conversation δ → Telling δ β} {r : Except StoryError β} :
    (alive i >>= f).Yields w r w' ↔ (f c).Yields w r w' := by
  apply yields_bind_of_ok
  unfold alive
  rw [yields_conversation?_bind, hc]
  simp only [if_neg hphase]
  exact yields_pure.mpr ⟨rfl, rfl⟩

theorem yields_alive_bind_of_destroyed {i : Nat} {c : Conversation δ}
    (hc : w.host.conversations[i]? = some c) (hphase : c.phase = .destroyed)
    {f : Conversation δ → Telling δ β} {r : Except StoryError β} :
    (alive i >>= f).Yields w r w' ↔ r = .error (.destroyed c.handle) ∧ w' = w := by
  unfold alive
  rw [bind_assoc, yields_conversation?_bind, hc]
  simp only [if_pos hphase]
  exact yields_throw_bind

theorem yields_finish_of_ne_started {fuel i : Nat} {c : Conversation δ} {r : Except StoryError Unit}
    (hc : w.host.conversations[i]? = some c) (hphase : c.phase ≠ .started) :
    (finish fuel i).Yields w r w' ↔ r = .ok () ∧ w' = w := by
  unfold finish
  rw [yields_conversation?_bind, hc]
  simp only [if_pos hphase]
  exact yields_pure

theorem yields_finishSlice {fuel i : Nat} {slice : Slice} :
    (finishSlice fuel i).Yields w (.ok slice) w' ↔
      (finish fuel i).Yields w (.ok ()) w' ∧ slice = .finished := by
  unfold finishSlice
  rw [yields_bind_ok]
  constructor
  · rintro ⟨_, w₁, hfinish, hr⟩
    obtain ⟨heq, rfl⟩ := yields_pure.mp hr
    exact ⟨hfinish, Except.ok.inj heq⟩
  · rintro ⟨hfinish, rfl⟩
    exact ⟨_, w', hfinish, yields_pure.mpr ⟨rfl, rfl⟩⟩

theorem yields_pending {i : Nat} {r : Except StoryError Slice} :
    (pending i).Yields w r w' ↔
      r = .ok (((w.host.conversations[i]?).bind (·.pending)).getD .running) ∧ w' = w := by
  unfold pending
  rw [yields_conversation?_bind]
  exact yields_pure

theorem alive_bind {i : Nat} {f : Conversation δ → Telling δ β} {r : Except StoryError β}
    (hr : (alive i >>= f).Yields w r w') :
    (∃ c, w.host.conversations[i]? = some c ∧ c.phase ≠ .destroyed ∧ (f c).Yields w r w') ∨
      ((∀ c, w.host.conversations[i]? = some c → c.phase = .destroyed) ∧
        (∃ h, r = .error (.destroyed h)) ∧ w' = w) := by
  unfold Telling.alive at hr
  rw [bind_assoc, yields_conversation?_bind] at hr
  split at hr
  · rename_i c hc
    split at hr
    · rename_i hphase
      obtain ⟨rfl, rfl⟩ := yields_throw_bind.mp hr
      exact .inr ⟨by simp [hc, hphase], ⟨_, rfl⟩, rfl⟩
    · rename_i hphase
      exact .inl ⟨c, hc, hphase, hr⟩
  · rename_i hnone
    obtain ⟨rfl, rfl⟩ := yields_throw_bind.mp hr
    exact .inr ⟨by simp [hnone], ⟨_, rfl⟩, rfl⟩

theorem run_tryCatch (t : Telling δ α) (f : StoryError → Telling δ α) (w : World (Story δ)) :
    (tryCatch t f : Telling δ α).run.run w = (t.run.run w).bind fun
      | (.ok a, w₁) => some (.ok a, w₁)
      | (.error e, w₁) => (f e).run.run w₁ := by
  change Option.bind (t.run.run w) _ = _
  congr 1
  funext x
  obtain ⟨_ | _, _⟩ := x <;> rfl

theorem tryCatch_throw {t : Telling δ α} {f : StoryError → Telling δ α} (hf : ∀ e, f e = throw e) :
    tryCatch t f = t := by
  funext w
  refine (run_tryCatch t f w).trans ?_
  change _ = t.run.run w
  rcases t.run.run w with _ | ⟨_ | _, w₁⟩
  · rfl
  · simp only [Option.bind_some, hf]
    rfl
  · rfl

theorem yields_tryCatch {t : Telling δ α} {f : StoryError → Telling δ α}
    {r : Except StoryError α} : (tryCatch t f : Telling δ α).Yields w r w' ↔
      (∃ a, t.Yields w (.ok a) w' ∧ r = .ok a) ∨
        ∃ e w₁, t.Yields w (.error e) w₁ ∧ (f e).Yields w₁ r w' := by
  rw [Yields, run_tryCatch, Option.bind_eq_some_iff]
  constructor
  · rintro ⟨⟨e | a, w₁⟩, ht, hf⟩
    · exact .inr ⟨e, w₁, ht, hf⟩
    · cases hf
      exact .inl ⟨a, ht, rfl⟩
  · rintro (⟨a, ht, rfl⟩ | ⟨e, w₁, ht, hf⟩)
    · exact ⟨(.ok a, w'), ht, rfl⟩
    · exact ⟨(.error e, w₁), ht, hf⟩

def trySelect (fuel i : Nat) (cs : List Choice) (index : Nat) : Telling δ Unit :=
  tryCatch (selectChoice fuel i index) fun e =>
    match e with
    | .rejected _ => if cs.length ≤ index then return () else throw e
    | e => throw e

theorem respond_choices {fuel i : Nat} {r : Responder δ} {cs : List Choice} :
    respond fuel i r (.choices cs) = (do
      let s ← story
      update fun s' => { s' with host := (r.choose cs s.host).2 }
      trySelect fuel i cs (r.choose cs s.host).1
      return false) := rfl

theorem trySelect_of_lt {fuel i index : Nat} {cs : List Choice} (h : index < cs.length) :
    (trySelect fuel i cs index : Telling δ Unit) = selectChoice fuel i index := by
  refine tryCatch_throw fun e => ?_
  cases e with
  | rejected name => exact if_neg (Nat.not_le_of_lt h)
  | _ => rfl

theorem yields_trySelect {fuel i index : Nat} {cs : List Choice} :
    (trySelect fuel i cs index : Telling δ Unit).Yields w (.ok ()) w' ↔
      (selectChoice fuel i index).Yields w (.ok ()) w' ∨
        cs.length ≤ index ∧
          ∃ name, (selectChoice fuel i index).Yields w (.error (.rejected name)) w' := by
  by_cases hrange : cs.length ≤ index
  · rw [trySelect, yields_tryCatch]
    constructor
    · rintro (⟨_, hselect, -⟩ | ⟨e, w₁, hselect, hcaught⟩)
      · exact .inl hselect
      · cases e with
        | rejected name =>
          simp only [hrange, if_true] at hcaught
          obtain ⟨-, rfl⟩ := yields_pure.mp hcaught
          exact .inr ⟨hrange, name, hselect⟩
        | _ => cases (yields_throw.mp hcaught).1
    · rintro (hselect | ⟨-, name, hselect⟩)
      · exact .inl ⟨(), hselect, rfl⟩
      · refine .inr ⟨_, w', hselect, ?_⟩
        simp only [hrange, if_true]
        exact yields_pure.mpr ⟨rfl, rfl⟩
  · rw [trySelect_of_lt (Nat.lt_of_not_le hrange)]
    exact ⟨.inl, fun h => h.resolve_right fun hrejected => hrange hrejected.1⟩

theorem playSlices_succ {fuel i rounds count : Nat} {r : Responder δ} {most : Option Nat}
    (hmost : ∀ n, most = some n → count < n) :
    playSlices fuel i r most (rounds + 1) count = (do
      if ← respond fuel i r (← tick fuel i) then return ()
      playSlices fuel i r most rounds (count + 1)) := by
  cases most with
  | none => rfl
  | some n => exact if_neg (Nat.not_le_of_lt (hmost n rfl))

theorem playSlices_spent {fuel i rounds count n : Nat} {r : Responder δ} (h : n ≤ count) :
    playSlices fuel i r (some n) (rounds + 1) count = throw (.slicesExhausted n) := if_pos h

def Succeeds (t : Telling δ α) : Prop := ∀ w r w', t.Yields w r w' → ∃ a, r = .ok a

theorem succeeds_pure (a : α) : (pure a : Telling δ α).Succeeds :=
  fun _ _ _ hr => ⟨a, (yields_pure.mp hr).1⟩

theorem succeeds_bind {t : Telling δ α} {f : α → Telling δ β} (ht : t.Succeeds)
    (hf : ∀ a, (f a).Succeeds) : (t >>= f).Succeeds := by
  intro w r w' hr
  rcases yields_bind.mp hr with ⟨a, w₁, -, hr⟩ | ⟨e, he, -⟩
  · exact hf a w₁ r w' hr
  · obtain ⟨a, heq⟩ := ht w _ w' he
    cases heq

theorem succeeds_story : (story : Telling δ _).Succeeds :=
  fun _ _ _ hr => ⟨_, (yields_story.mp hr).1⟩

theorem succeeds_conversation? (i : Nat) : (conversation? i : Telling δ _).Succeeds :=
  fun _ _ _ hr => ⟨_, (yields_conversation?.mp hr).1⟩

theorem succeeds_update (f : Story δ → Story δ) : (update f).Succeeds :=
  fun _ _ _ hr => ⟨(), (yields_update.mp hr).1⟩

theorem succeeds_perform (fuel : Nat) (op : Operation (Story δ)) : (perform fuel op).Succeeds := by
  intro w r w' hr
  obtain ⟨a, -, rfl⟩ := yields_perform.mp hr
  exact ⟨a, rfl⟩

theorem succeeds_forIn {xs : List β} {f : β → PUnit → Telling δ (ForInStep PUnit)}
    (hf : ∀ x u, (f x u).Succeeds) (u : PUnit) : (forIn xs u f).Succeeds := by
  induction xs generalizing u with
  | nil => exact succeeds_pure u
  | cons x xs ih =>
    rw [List.forIn_cons]
    refine succeeds_bind (hf x u) fun step => ?_
    cases step with
    | done u => exact succeeds_pure u
    | yield u => exact ih u

theorem succeeds_unbindStore (fuel i : Nat) (c : Conversation δ) :
    (unbindStore fuel i c).Succeeds := by
  unfold unbindStore
  refine succeeds_bind (succeeds_conversation? i) fun own => ?_
  refine succeeds_bind (succeeds_update _) fun _ => succeeds_bind succeeds_story fun s => ?_
  split
  · refine succeeds_bind (succeeds_forIn (fun b _ => ?_) _) fun _ => succeeds_pure _
    refine succeeds_bind (succeeds_update _) fun _ => ?_
    exact succeeds_bind (succeeds_perform fuel _) fun _ => succeeds_pure _
  · exact succeeds_pure _

def Maintains (P : World (Story δ) → Prop) (t : Telling δ α) : Prop :=
  ∀ w r w', P w → t.Yields w r w' → P w'

variable {P : World (Story δ) → Prop}

theorem maintains_pure (a : α) : (pure a : Telling δ α).Maintains P := by
  intro w r w' hw h
  rw [yields_pure] at h
  exact h.2 ▸ hw

theorem maintains_throw (e : StoryError) : (throw e : Telling δ α).Maintains P := by
  intro w r w' hw h
  rw [yields_throw] at h
  exact h.2 ▸ hw

theorem maintains_bind {t : Telling δ α} {f : α → Telling δ β} (ht : t.Maintains P)
    (hf : ∀ a, (f a).Maintains P) : (t >>= f).Maintains P := by
  intro w r w' hw h
  rcases yields_bind.mp h with ⟨a, w₁, ha, h⟩ | ⟨e, he, -⟩
  · exact hf a w₁ r w' (ht w _ w₁ hw ha) h
  · exact ht w _ w' hw he

theorem yields_of_reply {t : Telling δ α} {r : Except StoryError Unit}
    (hr : (do let _ ← t : Telling δ Unit).Yields w r w') : ∃ r', t.Yields w r' w' := by
  rcases yields_bind.mp hr with ⟨x, w₁, ht, hr⟩ | ⟨e, ht, -⟩
  · obtain ⟨-, rfl⟩ := yields_pure.mp hr
    exact ⟨_, ht⟩
  · exact ⟨_, ht⟩

theorem maintains_reply {t : Telling δ α} (ht : t.Maintains P) :
    (do let _ ← t : Telling δ Unit).Maintains P := by
  intro w r w' hw hr
  obtain ⟨r', hr⟩ := yields_of_reply hr
  exact ht w r' w' hw hr

theorem maintains_guard {b : Prop} [Decidable b] {k : PUnit → Telling δ β}
    (hk : ∀ u, (k u).Maintains P) :
    (if b then throw e >>= k else k .unit : Telling δ β).Maintains P := by
  split
  · exact maintains_bind (maintains_throw e) hk
  · exact hk _

theorem maintains_story : (story : Telling δ _).Maintains P := by
  intro w r w' hw h
  rw [yields_story] at h
  exact h.2 ▸ hw

theorem maintains_conversation? (i : Nat) : (conversation? i : Telling δ _).Maintains P := by
  intro w r w' hw h
  rw [yields_conversation?] at h
  exact h.2 ▸ hw

theorem maintains_alive (i : Nat) : (alive i).Maintains P := by
  unfold alive
  refine maintains_bind (maintains_conversation? i) fun c => ?_
  split
  · split
    · exact maintains_throw _
    · exact maintains_pure _
  · exact maintains_throw _

theorem maintains_update {f : Story δ → Story δ} (hf : ∀ w, P w → P { w with host := f w.host }) :
    (update f).Maintains P := by
  intro w r w' hw h
  rw [yields_update] at h
  exact h.2 ▸ hf w hw

theorem maintains_bounded {f : World (Story δ) → Option (α × World (Story δ))}
    (hf : ∀ w a w', P w → f w = some (a, w') → P w') : (bounded f).Maintains P := by
  intro w r w' hw h
  obtain ⟨a, hfw, -⟩ := yields_bounded.mp h
  exact hf w a w' hw hfw

theorem maintains_perform {fuel : Nat} {op : Operation (Story δ)}
    (hop : ∀ w r w', P w → World.exec fuel op w = some (r, w') → P w') :
    (perform fuel op).Maintains P :=
  maintains_bounded hop

theorem maintains_performFlag {fuel : Nat} {op : Operation (Story δ)}
    (hop : (perform fuel op).Maintains P) : (performFlag fuel op).Maintains P := by
  apply maintains_bind hop
  intro r
  split <;> exact maintains_pure _

theorem maintains_forIn {xs : List β} {f : β → PUnit → Telling δ (ForInStep PUnit)}
    (hf : ∀ x u, (f x u).Maintains P) (u : PUnit) : (forIn xs u f).Maintains P := by
  induction xs generalizing u with
  | nil => exact maintains_pure u
  | cons x xs ih =>
    rw [List.forIn_cons]
    apply maintains_bind (hf x u)
    intro step
    cases step with
    | done u => exact maintains_pure u
    | yield u => exact ih u

theorem maintains_pending (i : Nat) : (pending i).Maintains P :=
  maintains_bind (maintains_conversation? i) fun _ => maintains_pure _

theorem maintains_finishSlice {fuel i : Nat} (hfinish : (finish fuel i).Maintains P) :
    (finishSlice fuel i).Maintains P :=
  maintains_bind hfinish fun _ => maintains_pure _

theorem maintains_tryCatch {t : Telling δ α} {f : StoryError → Telling δ α} (ht : t.Maintains P)
    (hf : ∀ e, (f e).Maintains P) : (tryCatch t f : Telling δ α).Maintains P := by
  intro w r w' hw h
  rcases yields_tryCatch.mp h with ⟨a, ha, -⟩ | ⟨e, w₁, he, h⟩
  · exact ht w _ w' hw ha
  · exact hf e w₁ r w' (ht w _ w₁ hw he) h

theorem maintains_respond {fuel i : Nat} {r : Responder δ}
    (hline : ∀ spoken w, P w →
      P { w with host := { w.host with host := r.line spoken w.host.host } })
    (hchoose : ∀ cs w, P w →
      P { w with host := { w.host with host := (r.choose cs w.host.host).2 } })
    (hcontinue : (continueLine fuel i).Maintains P)
    (hselect : ∀ index, (selectChoice fuel i index).Maintains P) (slice : Slice) :
    (respond fuel i r slice).Maintains P := by
  cases slice with
  | running => exact maintains_pure _
  | finished => exact maintains_pure _
  | line spoken =>
    refine maintains_bind (maintains_update (hline spoken)) fun _ => ?_
    exact maintains_bind hcontinue fun _ => maintains_pure _
  | choices cs =>
    intro w x w' hw hx
    rw [respond_choices, yields_story_bind, yields_update_bind] at hx
    refine maintains_bind (maintains_tryCatch (hselect _) fun e => ?_) (fun _ => maintains_pure _) _ x
      w' (hchoose cs w hw) hx
    split
    · split
      · exact maintains_pure _
      · exact maintains_throw _
    · exact maintains_throw _

theorem maintains_playSlices {fuel i : Nat} {r : Responder δ} (htick : (tick fuel i).Maintains P)
    (hrespond : ∀ slice, (respond fuel i r slice).Maintains P) (most : Option Nat)
    (rounds slices : Nat) : (playSlices fuel i r most rounds slices).Maintains P := by
  induction rounds generalizing slices with
  | zero =>
    intro w x w' _ hyields
    obtain ⟨a, hnone, -⟩ := yields_bounded.mp hyields
    cases hnone
  | succ rounds ih =>
    have hround : (do
        if ← respond fuel i r (← tick fuel i) then return ()
        playSlices fuel i r most rounds (slices + 1) : Telling δ Unit).Maintains P := by
      refine maintains_bind htick fun slice => maintains_bind (hrespond slice) fun last => ?_
      split
      · exact maintains_pure _
      · exact ih _
    unfold playSlices
    cases most with
    | none => exact hround
    | some most => exact maintains_guard (b := most ≤ slices) fun _ => hround

theorem maintains_play {fuel i : Nat} {r : Responder δ} (hstart : (start fuel i).Maintains P)
    (htick : (tick fuel i).Maintains P) (hrespond : ∀ slice, (respond fuel i r slice).Maintains P) :
    (play fuel i r).Maintains P := by
  unfold play
  refine maintains_bind (maintains_conversation? i) fun c => ?_
  split
  · split
    · exact maintains_bind hstart fun _ => maintains_playSlices htick hrespond _ _ _
    · exact maintains_playSlices htick hrespond _ _ _
  · exact maintains_pure _

def Reaches (P Q : World (Story δ) → Prop) (t : Telling δ α) : Prop :=
  ∀ w r w', P w → t.Yields w r w' → Q w'

variable {Q : World (Story δ) → Prop}

theorem reaches_of_maintains {t : Telling δ α} (hPQ : ∀ w, P w → Q w) (ht : t.Maintains Q) :
    t.Reaches P Q :=
  fun w r w' hw => ht w r w' (hPQ w hw)

theorem reaches_bind {t : Telling δ α} {f : α → Telling δ β} (ht : t.Maintains P)
    (hPQ : ∀ w, P w → Q w) (hf : ∀ a, (f a).Reaches P Q) : (t >>= f).Reaches P Q := by
  intro w r w' hw hr
  rcases yields_bind.mp hr with ⟨a, w₁, ha, hr⟩ | ⟨e, he, -⟩
  · exact hf a w₁ r w' (ht w _ w₁ hw ha) hr
  · exact hPQ w' (ht w _ w' hw he)

theorem reaches_runSlice {fuel i : Nat} {h : Handle} (hrun : (performFlag fuel (.run h)).Maintains P)
    (hstate : (machineState fuel h).Maintains P) (hPQ : ∀ w, P w → Q w)
    (hfinish : (finish fuel i).Maintains Q) : (runSlice fuel i h).Reaches P Q := by
  refine reaches_bind hrun hPQ fun ran => reaches_bind hstate hPQ fun state => ?_
  refine reaches_of_maintains hPQ ?_
  split
  · exact maintains_throw _
  · split
    · exact maintains_guard fun _ => maintains_pending i
    · exact maintains_guard fun _ => maintains_finishSlice hfinish
    · exact maintains_guard fun _ => maintains_pure _

end Telling

end Dialogue
