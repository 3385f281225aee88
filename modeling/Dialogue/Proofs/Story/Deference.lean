import Dialogue.Proofs.Host.Discipline
import Dialogue.Proofs.Machine.Announcement
import Dialogue.Proofs.Story.Stage

/-!
Host code that leaves it to the player to answer a machine. However operations are nested, the
conversation of that machine waits for what the machine waits for.
-/

namespace Dialogue

variable {δ : Type}

namespace Story

def Routed (s : Story δ) : Prop :=
  ∀ h i, s.route? h = some i → ∃ c, s.conversations[i]? = some c ∧ c.handle = h

structure Spares (h : Handle) (s s' : Story δ) : Prop where
  conversations : ∀ (i : Nat) (c : Conversation δ), c.handle = h →
    (s'.conversations[i]? = some c ↔ s.conversations[i]? = some c)
  route : s'.route? h = s.route? h
  routed : s.Routed → s'.Routed

end Story

mutual

/-- Operations that neither answer the machine nor destroy it, and hand out host code that does
neither. -/
def Operation.Defers (h : Handle) : Operation (Story δ) → Prop
  | .selectContinue h' | .selectChoice h' _ | .destroy h' => h' ≠ h
  | .setFunction _ _ _ body => ∀ args, (body args).Defers h
  | .create _ callbacks => callbacks = Story.dispatch ∨ ∀ h' e, (callbacks h' e).Defers h
  | _ => True

def Reaction.Defers (h : Handle) : Reaction (Story δ) → Prop
  | .done _ | .panic _ => True
  | .update f next => (∀ s, Story.Spares h s (f s)) ∧ next.Defers h
  | .inspect next => ∀ s, (next s).Defers h
  | .call op next => op.Defers h ∧ ∀ r, (next r).Defers h

end

/-- Host code that performs operations in `K` and spares the conversation of the machine. -/
def Discipline.sparing (K : Operation (Story δ) → Prop) (h : Handle) : Discipline (Story δ) where
  performs := K
  changes := Story.Spares h
  trusts callbacks := callbacks = Story.dispatch

abbrev Discipline.deferring (h : Handle) : Discipline (Story δ) :=
  .sparing (fun op => ¬op.Answers h ∧ op ≠ .destroy h) h

theorem Operation.Defers.performs {h : Handle} {op : Operation (Story δ)} (hop : op.Defers h) :
    ¬op.Answers h ∧ op ≠ .destroy h := by
  refine ⟨fun hanswers => ?_, fun heq => ?_⟩
  · cases hanswers <;> exact hop rfl
  · subst heq
    exact hop rfl

mutual

theorem Operation.grants_of_defers {h : Handle} :
    ∀ op : Operation (Story δ), op.Defers h → op.Grants (.deferring h)
  | .setFunction _ _ _ body, hop => fun args => Reaction.obeys_of_defers (body args) (hop args)
  | .create _ callbacks, hop =>
    hop.imp_right fun hdefers h' e => Reaction.obeys_of_defers (callbacks h' e) (hdefers h' e)
  | .destroy _, _ | .isAlive _, _ | .size, _ | .start .., _ | .run _, _ | .state _, _
  | .canContinue _, _ | .isWaiting _, _ | .selectContinue _, _ | .selectChoice .., _
  | .subscribe .., _ | .unsubscribe .., _ | .setExtern .., _ | .declareEnum .., _
  | .getValue .., _ | .bufferBytes _, _ | .release _, _ | .outstanding, _ | .save _, _ | .load .., _
  | .externs _, _ | .boughNames _, _ | .setSeverity _, _ | .report .., _ | .resetHandler, _ => trivial

theorem Reaction.obeys_of_defers {h : Handle} :
    ∀ r : Reaction (Story δ), r.Defers h → r.Obeys (.deferring h)
  | .done _, _ | .panic _, _ => trivial
  | .update _ next, hr => ⟨hr.1, Reaction.obeys_of_defers next hr.2⟩
  | .inspect next, hr => fun s => Reaction.obeys_of_defers (next s) (hr s)
  | .call op next, hr => ⟨⟨hr.1.performs, Operation.grants_of_defers op hr.1⟩,
      fun reply => Reaction.obeys_of_defers (next reply) (hr.2 reply)⟩

end

theorem Operation.Defers.grants {h : Handle} {op : Operation (Story δ)} (hop : op.Defers h) :
    op.Grants (.deferring h) :=
  Operation.grants_of_defers op hop

theorem Operation.Defers.permitted {h : Handle} {op : Operation (Story δ)} (hop : op.Defers h) :
    (Discipline.deferring h).Permits op :=
  ⟨hop.performs, hop.grants⟩

def Event.heard (spoken : SpokenLine) : Event → StoryEvent
  | .line _ => .line spoken
  | .choices cs => .choices cs
  | .changed name v => .changed name v

structure Conversation.Hears (e : Event) (c c' : Conversation δ) : Prop where
  post : c'.post = c.post
  events : ∃ spoken, c'.events = c.events ++ [e.heard spoken]
  line : ∀ l, e = .line l →
    ∃ spoken, c'.pending = some (.line spoken) ∧ c'.said = c.said ++ [spoken]
  choices : ∀ cs, e = .choices cs → c'.pending = some (.choices cs)
  change : e.isChange = true → c'.pending = c.pending

namespace Story

variable {h : Handle} {i j : Nat} {s s' s'' : Story δ} {c : Conversation δ}

/-- What operations do to the conversation of the machine: it does not appear, nor does it get into
another phase. -/
structure Retains (h : Handle) (s s' : Story δ) : Prop where
  routed : s.Routed → s'.Routed
  own : ∀ (i : Nat) (c' : Conversation δ), s'.conversations[i]? = some c' → c'.handle = h →
    ∃ c, s.conversations[i]? = some c ∧ c'.post = c.post

theorem Retains.earlier {c' : Conversation δ} (hs : Retains h s s')
    (hc' : s'.conversations[i]? = some c') (hhandle : c'.handle = h) :
    ∃ c, s.conversations[i]? = some c ∧ c.handle = h ∧ c.phase = c'.phase := by
  obtain ⟨c, hc, hpost⟩ := hs.own i c' hc' hhandle
  exact ⟨c, hc, (congrArg (·.1) hpost).symm.trans hhandle, (congrArg (·.2.2.2) hpost).symm⟩

theorem Retains.refl (s : Story δ) : Retains h s s := ⟨id, fun _ c hc _ => ⟨c, hc, rfl⟩⟩

theorem Retains.trans (hs : Retains h s s') (hs' : Retains h s' s'') : Retains h s s'' := by
  refine ⟨fun hrouted => hs'.routed (hs.routed hrouted), fun i c'' hc'' hhandle => ?_⟩
  obtain ⟨c', hc', hpost'⟩ := hs'.own i c'' hc'' hhandle
  have hhandle' : c'.handle = h := (congrArg (·.1) hpost').symm.trans hhandle
  obtain ⟨c, hc, hpost⟩ := hs.own i c' hc' hhandle'
  exact ⟨c, hc, hpost'.trans hpost⟩

theorem Spares.refl (h : Handle) (s : Story δ) : Spares h s s := ⟨fun _ _ _ => Iff.rfl, rfl, id⟩

theorem Spares.retains (hs : Spares h s s') : Retains h s s' :=
  ⟨hs.routed, fun i c hc hhandle => ⟨c, (hs.conversations i c hhandle).mp hc, rfl⟩⟩

structure Aside (h : Handle) (i : Nat) (s s' : Story δ) : Prop where
  retains : Retains h s s'
  route : s'.route? h = s.route? h
  conversation : ∀ c : Conversation δ, c.handle = h → s.conversations[i]? = some c →
    s'.conversations[i]? = some c

theorem Spares.aside (hs : Spares h s s') (i : Nat) : Aside h i s s' :=
  ⟨hs.retains, hs.route, fun c hhandle hc => (hs.conversations i c hhandle).mpr hc⟩

structure Stirs (i : Nat) (s s' : Story δ) : Prop where
  routes : s'.routes = s.routes
  posts : s'.conversations.map Conversation.post = s.conversations.map Conversation.post
  others : ∀ j, j ≠ i → s'.conversations[j]? = s.conversations[j]?

theorem Stirs.trans (hs : Stirs i s s') (hs' : Stirs i s' s'') : Stirs i s s'' :=
  ⟨hs'.routes.trans hs.routes, hs'.posts.trans hs.posts,
    fun j hj => (hs'.others j hj).trans (hs.others j hj)⟩

theorem stirs_modify (s : Story δ) (i : Nat) {f : Conversation δ → Conversation δ}
    (hf : ∀ c, (f c).post = c.post) : Stirs i s (s.modify i f) :=
  ⟨rfl, map_modify s i hf, fun j hj => by simp [modify, Ne.symm hj]⟩

theorem Stirs.modify {f : Conversation δ → Conversation δ} (hs : Stirs i s s')
    (hf : ∀ c, (f c).post = c.post) : Stirs i s (s'.modify i f) :=
  hs.trans (stirs_modify s' i hf)

theorem stirs_same (i : Nat) (hroutes : s'.routes = s.routes)
    (hconversations : s'.conversations = s.conversations) : Stirs i s s' :=
  ⟨hroutes, by rw [hconversations], fun j _ => by rw [hconversations]⟩

theorem stirs_stopSpeaker (s : Story δ) (i : Nat) : Stirs i s (s.stopSpeaker i) := by
  unfold stopSpeaker
  split
  · exact Stirs.modify (stirs_same i rfl rfl) fun _ => rfl
  · exact stirs_same i rfl rfl

theorem stirs_hear (s : Story δ) (i : Nat) (e : Event) : Stirs i s (s.hear i e) := by
  cases e with
  | line l =>
    exact Stirs.modify ((stirs_stopSpeaker s i).trans (stirs_same i rfl rfl)) fun _ => rfl
  | choices cs => exact stirs_modify s i fun _ => rfl
  | changed name v => exact stirs_modify s i fun _ => rfl

theorem Routed.modify {f : Conversation δ → Conversation δ} (hs : s.Routed)
    (hf : ∀ c, (f c).handle = c.handle) (i : Nat) : (s.modify i f).Routed := by
  intro h j hroute
  obtain ⟨c, hc, hhandle⟩ := hs h j hroute
  by_cases hj : i = j
  · subst hj
    exact ⟨f c, by simp [Story.modify, hc], (hf c).trans hhandle⟩
  · exact ⟨c, by simp [Story.modify, hj, hc], hhandle⟩

theorem retains_of_posts (hroutes : s'.routes = s.routes)
    (hposts : s'.conversations.map Conversation.post = s.conversations.map Conversation.post) :
    Retains h s s' := by
  have hpost (j : Nat) : s'.conversations[j]?.map Conversation.post =
      s.conversations[j]?.map Conversation.post := by
    rw [← List.getElem?_map, hposts, List.getElem?_map]
  constructor
  · intro hrouted h' j hroute
    rw [route?, hroutes] at hroute
    obtain ⟨c, hc, hhandle⟩ := hrouted h' j hroute
    have hc' := hpost j
    rw [hc, Option.map_some] at hc'
    obtain ⟨c', hc', heq⟩ := Option.map_eq_some_iff.mp hc'
    exact ⟨c', hc', (congrArg (·.1) heq).trans hhandle⟩
  · intro j c' hc' _
    have hc := hpost j
    rw [hc', Option.map_some] at hc
    obtain ⟨c, hc, heq⟩ := Option.map_eq_some_iff.mp hc.symm
    exact ⟨c, hc, heq.symm⟩

theorem Stirs.retains (hs : Stirs i s s') : Retains h s s' := retains_of_posts hs.routes hs.posts

theorem Even.retains (hs : Even s s') : Retains h s s' := by
  refine retains_of_posts hs.routes ?_
  have hposts := congrArg (List.map Conversation.post) hs.bare
  rw [List.map_map, List.map_map] at hposts
  exact hposts

theorem Stirs.aside (hs : Stirs j s s') (hi : i ≠ j) : Aside h i s s' := by
  refine ⟨hs.retains, by rw [route?, hs.routes, route?], fun c _ hc => ?_⟩
  rw [hs.others i hi]
  exact hc

theorem aside_same (hroutes : s'.routes = s.routes)
    (hconversations : s'.conversations = s.conversations) : Aside h i s s' :=
  (stirs_same (i + 1) hroutes hconversations).aside (Nat.succ_ne_self i).symm

theorem hears_hear (hc : s.conversations[i]? = some c) (e : Event) :
    ∃ c', (s.hear i e).conversations[i]? = some c' ∧ c.Hears e c' := by
  cases e with
  | line l =>
    obtain ⟨c₁, hc₁, hpost, hevents⟩ : ∃ c₁, (s.stopSpeaker i).conversations[i]? = some c₁ ∧
        c₁.post = c.post ∧ c₁.events = c.events := by
      unfold stopSpeaker
      split
      · exact ⟨{ c with speaker := none }, by simp [modify, hc], rfl, rfl⟩
      · exact ⟨c, hc, rfl, rfl⟩
    let spoken : SpokenLine := ⟨(s.stopSpeaker i).speakers.displayName l.speaker, l⟩
    let c' : Conversation δ := { c₁ with
      speaker := (s.stopSpeaker i).speakers.get? l.speaker
      pending := some (.line spoken)
      events := c₁.events ++ [.line spoken] }
    refine ⟨c', ?_, hpost, ⟨spoken, ?_⟩, fun l' hl => ⟨spoken, rfl, ?_⟩, fun _ h => ?_,
      fun h => ?_⟩
    · simp [hear, speak, modify, hc₁, Conversation.emit, c', spoken]
    · rw [← hevents, Event.heard]
    · simp [Conversation.said, c', ← hevents, StoryEvent.line?]
    · cases h
    · cases h
  | choices cs =>
    let c' : Conversation δ := { c with pending := some (.choices cs) }.emit (.choices cs)
    refine ⟨c', by simp [hear, offer, modify, hc, c'], rfl, ⟨default, rfl⟩, fun _ h => ?_,
      fun cs' h => ?_, fun h => ?_⟩
    · cases h
    · cases h
      rfl
    · cases h
  | changed name v =>
    let c' : Conversation δ := c.emit (.changed name v)
    refine ⟨c', by simp [hear, emit, modify, hc, c'], rfl, ⟨default, rfl⟩, fun _ h => ?_,
      fun _ h => ?_, fun _ => rfl⟩
    · cases h
    · cases h

theorem upholds_tell {K : Operation (Story δ) → Prop} {I : Story δ → Prop}
    {last : Reaction (Story δ)} (htells : ∀ h name v, K (.setExtern h name v)) (name : String)
    (v : Value) (told : List Handle) (hlast : ∀ s, I s → last.Upholds K I s) :
    ∀ s, I s → (tell name v told last).Upholds K I s := by
  induction told with
  | nil => exact hlast
  | cons h' told ih => exact fun _ _ => ⟨htells h' name v, fun _ s hs => ih s hs⟩

theorem upholds_dispatch {K : Operation (Story δ) → Prop} {I : Story δ → Prop} {h' : Handle}
    {e : Event} (htells : ∀ h name v, K (.setExtern h name v))
    (hreports : ∀ severity message, K (.report severity message)) (hs : I s)
    (hshares : ∀ name v store told, s.share name v = .ok (some (store, told)) →
      I { s with store := some store })
    (hhears : ∀ j s', s.route? h' = some j → I s' → I (s'.hear j e)) :
    (dispatch h' e : Reaction (Story δ)).Upholds K I s := by
  rw [dispatch, Reaction.Upholds]
  cases hroute : s.route? h' with
  | none => exact ⟨hreports _ _, fun _ _ _ => trivial⟩
  | some j =>
    have hear := hhears j
    cases e with
    | line l => exact ⟨hear s hroute hs, trivial⟩
    | choices cs => exact ⟨hear s hroute hs, trivial⟩
    | changed name v =>
      have hlast (s' : Story δ) (hs' : I s') : (Reaction.update (·.emit j (.changed name v))
          (.done .nil) : Reaction (Story δ)).Upholds K I s' :=
        ⟨hear s' hroute hs', trivial⟩
      simp only [changed]
      split
      · split
        · rename_i store told hshare
          have hstore := hshares name v store told hshare
          exact ⟨hstore, upholds_tell htells name v told hlast _ hstore⟩
        · exact hlast s hs
      · exact hlast s hs

end Story

/-- Operations that leave it to the player to answer the machine and to destroy it. Callbacks of
conversations may perform theirs. -/
structure Reserves (h : Handle) (K : Operation (Story δ) → Prop) : Prop where
  defers : ∀ {op}, K op → ¬op.Answers h ∧ op ≠ .destroy h
  tells : ∀ h' name v, K (.setExtern h' name v)
  reports : ∀ severity message, K (.report severity message)

theorem reserves_deferring (h : Handle) :
    Reserves h fun op : Operation (Story δ) => ¬op.Answers h ∧ op ≠ .destroy h :=
  ⟨id, fun _ _ _ => ⟨nofun, nofun⟩, fun _ _ => ⟨nofun, nofun⟩⟩

mutual

theorem Reserves.defers_of_grants {h : Handle} {K : Operation (Story δ) → Prop} (hK : Reserves h K) :
    ∀ op : Operation (Story δ), K op → op.Grants (.sparing K h) → op.Defers h
  | .setFunction _ _ _ body, _, hop => fun args => hK.defers_of_obeys (body args) (hop args)
  | .create _ callbacks, _, hop =>
    hop.imp_right fun hobeys h' e => hK.defers_of_obeys (callbacks h' e) (hobeys h' e)
  | .destroy _, hop, _ => fun heq => (hK.defers hop).2 (congrArg Operation.destroy heq)
  | .selectContinue h', hop, _ => fun (heq : h' = h) => (hK.defers hop).1 (heq ▸ .line)
  | .selectChoice h' index, hop, _ => fun (heq : h' = h) => (hK.defers hop).1 (heq ▸ .choice index)
  | .isAlive _, _, _ | .size, _, _ | .start .., _, _ | .run _, _, _ | .state _, _, _
  | .canContinue _, _, _ | .isWaiting _, _, _ | .subscribe .., _, _ | .unsubscribe .., _, _
  | .setExtern .., _, _ | .declareEnum .., _, _ | .getValue .., _, _ | .bufferBytes _, _, _
  | .release _, _, _ | .outstanding, _, _ | .save _, _, _ | .load .., _, _ | .externs _, _, _
  | .boughNames _, _, _ | .setSeverity _, _, _ | .report .., _, _ | .resetHandler, _, _ => trivial

theorem Reserves.defers_of_obeys {h : Handle} {K : Operation (Story δ) → Prop} (hK : Reserves h K) :
    ∀ r : Reaction (Story δ), r.Obeys (.sparing K h) → r.Defers h
  | .done _, _ | .panic _, _ => trivial
  | .update _ next, hr => ⟨hr.1, hK.defers_of_obeys next hr.2⟩
  | .inspect next, hr => fun s => hK.defers_of_obeys (next s) (hr s)
  | .call op next, hr => ⟨hK.defers_of_grants op hr.1.1 hr.1.2,
      fun reply => hK.defers_of_obeys (next reply) (hr.2 reply)⟩

end

open Story (Retains) in
theorem Reserves.bounds {h : Handle} {K : Operation (Story δ) → Prop} (hK : Reserves h K) :
    (Discipline.sparing K h).Bounds (Retains h) where
  refl := Retains.refl
  trans := Retains.trans
  idle := .refl h
  changes hs := hs.retains
  trusts := by
    rintro c rfl h' e s
    refine Story.upholds_dispatch (fun h name v => ⟨hK.tells h name v, trivial⟩)
      (fun severity message => ⟨hK.reports severity message, trivial⟩) (.refl s)
      (fun name v store told _ => Story.Stirs.retains (Story.stirs_same 0 rfl rfl))
      fun j s' _ hs' => hs'.trans (Story.stirs_hear s' j e).retains

abbrev Reserves.conduct {h : Handle} {K : Operation (Story δ) → Prop} (hK : Reserves h K) :
    Conduct (Story δ) :=
  (Discipline.sparing K h).conduct hK.bounds (L := fun _ => True) fun _ => trivial

/-- The conversation waits for what the machine waits for: for an answer to the last line, where
`told` are those before the events, or to the choices on offer. -/
structure Accord (told : List SpokenLine) (c : Conversation δ) (m : HostMachine (Story δ)) :
    Prop where
  line : m.state = .waiting .continuation →
    ∃ spoken, (told ++ c.said).getLast? = some spoken ∧ c.pending = some (.line spoken)
  choices : m.state = .waiting .choice → c.pending = some (.choices m.pending)
  idle : m.isWaiting = false → c.pending = none

/-- What the events of its machine do to the record of a conversation, one by one. -/
inductive HearsAll : List Event → Conversation δ → Conversation δ → Prop
  | nil (c : Conversation δ) : HearsAll [] c c
  | cons {e : Event} {es : List Event} {c c₁ c' : Conversation δ} (first : c.Hears e c₁)
    (rest : HearsAll es c₁ c') : HearsAll (e :: es) c c'

section

variable {c c' : Conversation δ} {es : List Event} {told : List SpokenLine}
  {m m' : HostMachine (Story δ)}

theorem HearsAll.post (h : HearsAll es c c') : c'.post = c.post := by
  induction h with
  | nil => rfl
  | cons first _ ih => exact ih.trans first.post

theorem HearsAll.changes (h : HearsAll es c c') (hes : ∀ e ∈ es, e.isChange = true) :
    c'.pending = c.pending := by
  induction h with
  | nil => rfl
  | cons first _ ih =>
    obtain ⟨he, hes⟩ := List.forall_mem_cons.mp hes
    exact (ih hes).trans (first.change he)

theorem HearsAll.last {e : Event} (h : HearsAll (es ++ [e]) c c') :
    ∃ c₁, HearsAll es c c₁ ∧ c₁.Hears e c' := by
  induction es generalizing c with
  | nil =>
    cases h with
    | cons first rest =>
      cases rest
      exact ⟨c, .nil c, first⟩
  | cons e' es ih =>
    cases h with
    | cons first rest =>
      obtain ⟨c₁, hes, he⟩ := ih rest
      exact ⟨c₁, .cons first hes, he⟩

theorem Accord.congr (h : Accord told c m) (hstate : m'.state = m.state)
    (hpending : m'.pending = m.pending) : Accord told c m' := by
  refine ⟨fun hm => h.line (hstate.symm.trans hm), fun hm => ?_, fun hm => h.idle ?_⟩
  · rw [hpending]
    exact h.choices (hstate.symm.trans hm)
  · rwa [Machine.isWaiting, hstate, ← Machine.isWaiting] at hm

theorem Accord.line_iff (h : Accord told c m) : m.state = .waiting .continuation ↔
    ∃ spoken, c.pending = some (.line spoken) ∧ (told ++ c.said).getLast? = some spoken := by
  constructor
  · intro hstate
    obtain ⟨spoken, hlast, hpending⟩ := h.line hstate
    exact ⟨spoken, hpending, hlast⟩
  · rintro ⟨spoken, hpending, -⟩
    cases hwaiting : m.isWaiting with
    | false => simp [h.idle hwaiting] at hpending
    | true =>
      obtain ⟨kind, hstate⟩ := Machine.isWaiting_iff.mp hwaiting
      cases kind with
      | continuation => exact hstate
      | choice => simp [h.choices hstate] at hpending

theorem Accord.choices_iff (h : Accord told c m) :
    m.state = .waiting .choice ↔ c.pending = some (.choices m.pending) := by
  refine ⟨h.choices, fun hpending => ?_⟩
  cases hwaiting : m.isWaiting with
  | false => simp [h.idle hwaiting] at hpending
  | true =>
    obtain ⟨kind, hstate⟩ := Machine.isWaiting_iff.mp hwaiting
    cases kind with
    | continuation =>
      obtain ⟨spoken, -, hline⟩ := h.line hstate
      simp [hline] at hpending
    | choice => exact hstate

theorem Accord.record {told' : List SpokenLine} (h : Accord told c m)
    (hsaid : told' ++ c'.said = told ++ c.said) (hpending : c'.pending = c.pending) :
    Accord told' c' m := by
  constructor
  · rw [hsaid, hpending]
    exact h.line
  · rw [hpending]
    exact h.choices
  · rw [hpending]
    exact h.idle

theorem accord_of_idle (hidle : m.isWaiting = false) (hnone : c.pending = none) :
    Accord told c m := by
  refine ⟨fun hstate => ?_, fun hstate => ?_, fun _ => hnone⟩
  · simp [Machine.isWaiting, hstate] at hidle
  · simp [Machine.isWaiting, hstate] at hidle

theorem accord_of_announces (hm : m.Announces) (hnone : c.pending = none)
    (h : HearsAll m.events c c') : Accord told c' m := by
  cases hm with
  | changes idle events => exact accord_of_idle idle ((h.changes events).trans hnone)
  | line state es changes l events =>
    rw [events] at h
    obtain ⟨c₁, -, hl⟩ := h.last
    obtain ⟨spoken, hpending, hsaid⟩ := hl.line l rfl
    refine ⟨fun _ => ⟨spoken, by simp [hsaid, ← List.append_assoc], hpending⟩, fun hstate => ?_,
      fun hidle => ?_⟩
    · rw [state] at hstate
      cases hstate
    · simp [Machine.isWaiting, state] at hidle
  | choices state es changes events =>
    rw [events] at h
    obtain ⟨c₁, -, hcs⟩ := h.last
    refine ⟨fun hstate => ?_, fun _ => hcs.choices _ rfl, fun hidle => ?_⟩
    · rw [state] at hstate
      cases hstate
    · simp [Machine.isWaiting, state] at hidle

end

namespace World

open Story (Aside Retains Spares)

variable {h h' : Handle} {i k k' : Nat} {w w' w'' : World (Story δ)} {c c' c'' : Conversation δ}
  {inst inst' inst'' : Instance (Story δ)} {K : Operation (Story δ) → Prop}

structure Scene (h : Handle) (i k : Nat) (c : Conversation δ) (inst : Instance (Story δ))
    (w : World (Story δ)) : Prop where
  conversation : w.host.conversations[i]? = some c
  handle : c.handle = h
  routed : w.host.Routed
  route : w.host.route? h = some i
  alive : w.arena.get? h = some k
  found : w.instances[k]? = some inst
  callbacks : inst.callbacks = Story.dispatch

/-- The instance does what it did, and its machine waits for what it waited for. -/
structure Stands (inst inst' : Instance (Story δ)) : Prop where
  busy : inst'.busy = inst.busy
  dispatching : inst'.dispatching = inst.dispatching
  state : inst'.machine.state = inst.machine.state
  pending : inst'.machine.pending = inst.machine.pending

theorem Stands.trans (hs : Stands inst inst') (hs' : Stands inst' inst'') : Stands inst inst'' :=
  ⟨hs'.busy.trans hs.busy, hs'.dispatching.trans hs.dispatching, hs'.state.trans hs.state,
    hs'.pending.trans hs.pending⟩

def Occupied (K : Operation (Story δ) → Prop) (h : Handle) (inst : Instance (Story δ)) : Prop :=
  inst.busy = true ∨ inst.dispatching = true ∨ ∀ op, K op → ¬op.Drives h

/-- While the machine is occupied, neither it nor its conversation changes; otherwise they stay in
accord. -/
structure Attends (K : Operation (Story δ) → Prop) (h : Handle) (c : Conversation δ)
    (inst : Instance (Story δ)) (c' : Conversation δ) (inst' : Instance (Story δ)) : Prop where
  busy : inst'.busy = inst.busy
  dispatching : inst'.dispatching = inst.dispatching
  post : c'.post = c.post
  occupied : Occupied K h inst → c' = c ∧ Stands inst inst'
  accord : inst.busy = false → inst.dispatching = false → ∀ told, Accord told c inst.machine →
    Accord told c' inst'.machine

theorem Stands.attends (hs : Stands inst inst') : Attends K h c inst c inst' :=
  ⟨hs.busy, hs.dispatching, rfl, fun _ => ⟨rfl, hs⟩,
    fun _ _ _ haccord => haccord.congr hs.state hs.pending⟩

theorem Attends.trans (ha : Attends K h c inst c' inst') (ha' : Attends K h c' inst' c'' inst'') :
    Attends K h c inst c'' inst'' := by
  refine ⟨ha'.busy.trans ha.busy, ha'.dispatching.trans ha.dispatching, ha'.post.trans ha.post,
    fun hoccupied => ?_, fun hbusy hidle told haccord => ?_⟩
  · obtain ⟨rfl, hs⟩ := ha.occupied hoccupied
    rw [Occupied, ← ha.busy, ← ha.dispatching] at hoccupied
    obtain ⟨rfl, hs'⟩ := ha'.occupied hoccupied
    exact ⟨rfl, hs.trans hs'⟩
  · exact ha'.accord (ha.busy.trans hbusy) (ha.dispatching.trans hidle) told
      (ha.accord hbusy hidle told haccord)

def Follows (K : Operation (Story δ) → Prop) (h : Handle) (i k : Nat) (w w' : World (Story δ)) :
    Prop :=
  ∀ c inst, Scene h i k c inst w → inst.machine.events = [] →
    ∃ c' inst', Scene h i k c' inst' w' ∧ inst'.machine.events = [] ∧ Attends K h c inst c' inst'

def Leaves (h : Handle) (i k : Nat) (w w' : World (Story δ)) : Prop :=
  ∀ c inst, Scene h i k c inst w → Scene h i k c inst w'

theorem Leaves.follows (hl : Leaves h i k w w') : Follows K h i k w w' :=
  fun c inst hs htaken => ⟨c, inst, hl c inst hs, htaken, Stands.attends ⟨rfl, rfl, rfl, rfl⟩⟩

theorem Leaves.trans (hl : Leaves h i k w w') (hl' : Leaves h i k w' w'') : Leaves h i k w w'' :=
  fun c inst hs => hl' c inst (hl c inst hs)

theorem Follows.refl (h : Handle) (i k : Nat) (w : World (Story δ)) : Follows K h i k w w :=
  Leaves.follows fun _ _ hs => hs

theorem Follows.trans (hf : Follows K h i k w w') (hf' : Follows K h i k w' w'') :
    Follows K h i k w w'' := by
  intro c inst hs htaken
  obtain ⟨c', inst', hs', htaken', ha⟩ := hf c inst hs htaken
  obtain ⟨c'', inst'', hs'', htaken'', ha'⟩ := hf' c' inst' hs' htaken'
  exact ⟨c'', inst'', hs'', htaken'', ha.trans ha'⟩

theorem leaves_of_aside (harena : ∀ k, w.arena.get? h = some k → w'.arena.get? h = some k)
    (hinst : ∀ inst, w.instances[k]? = some inst → w'.instances[k]? = some inst)
    (hhost : Aside h i w.host w'.host) : Leaves h i k w w' := by
  intro c inst hs
  exact ⟨hhost.conversation c hs.handle hs.conversation, hs.handle, hhost.retains.routed hs.routed,
    hhost.route.trans hs.route, harena k hs.alive, hinst inst hs.found, hs.callbacks⟩

theorem leaves_host {s : Story δ} (hhost : Aside h i w.host s) :
    Leaves h i k w { w with host := s } :=
  leaves_of_aside (fun _ => id) (fun _ => id) hhost

theorem leaves_set (hk : k' ≠ k) : Leaves h i k w (w.setInstance k' inst') :=
  leaves_of_aside (fun _ => id) (fun inst hinst => by simpa [setInstance, hk] using hinst)
    (Story.aside_same rfl rfl)

theorem leaves_modify (hk : k' ≠ k) (f : Instance (Story δ) → Instance (Story δ)) :
    Leaves h i k w (w.modifyInstance k' f) :=
  leaves_of_aside (fun _ => id) (fun inst hinst => by simpa [modifyInstance, hk] using hinst)
    (Story.aside_same rfl rfl)

theorem leaves_dispatch (hk : k' ≠ k) (b : Bool) : Leaves h i k w (w.dispatch k' b) :=
  leaves_modify hk _

theorem Scene.set (hs : Scene h i k c inst w) (hcallbacks : inst'.callbacks = inst.callbacks) :
    Scene h i k c inst' (w.setInstance k inst') := by
  obtain ⟨hk, -⟩ := List.getElem?_eq_some_iff.mp hs.found
  exact ⟨hs.conversation, hs.handle, hs.routed, hs.route, hs.alive, by simp [setInstance, hk],
    hcallbacks.trans hs.callbacks⟩

theorem Scene.dispatch (hs : Scene h i k c inst w) (b : Bool) :
    Scene h i k c { inst with dispatching := b } (w.dispatch k b) := by
  rw [Conduct.dispatch_eq hs.found]
  exact hs.set rfl

abbrev Heeding (hK : Reserves h K) (k : Option Nat) (w : World (Story δ)) : Prop :=
  hK.conduct.Orderly k w

abbrev Orderly (h : Handle) (k : Option Nat) (w : World (Story δ)) : Prop :=
  Heeding (reserves_deferring h) k w

def Considerate (h : Handle) (w : World (Story δ)) : Prop :=
  ∀ severity message s, Spares h s (w.channel.handler severity message s)

theorem channel_report (w : World (Story δ)) (severity : Severity) (message : String) :
    (w.report severity message).channel = w.channel := by
  unfold report
  split <;> rfl

theorem channel_answer {α : Type} (w : World (Story δ)) (r : Except LibraryError α) :
    (w.answer r).2.channel = w.channel := by
  cases r with
  | ok x => rfl
  | error e => exact channel_report w _ _

theorem leaves_report (hw : w.Considerate h) (severity : Severity) (message : String) :
    Leaves h i k w (w.report severity message) := by
  refine leaves_of_aside (by simp) (by simp) ?_
  unfold report
  split
  · exact Story.aside_same rfl rfl
  · exact (hw severity message w.host).aside i

theorem leaves_abandon (hk : k' ≠ k) (hw : w.Considerate h) (h' : Handle) (message : Option String) :
    Leaves h i k w (w.abandon h' k' message) := by
  have hhalt := leaves_modify (h := h) (i := i) (w := w) hk
    fun inst => { inst with machine := inst.machine.halt }
  refine hhalt.trans (leaves_report ?_ _ _)
  exact hw

theorem leaves_reports (hw : w.Considerate h) (es : List MachineError) :
    Leaves h i k w (w.reports es) := by
  induction es generalizing w with
  | nil => exact fun _ _ hs => hs
  | cons e es ih =>
    refine (leaves_report hw e.severity e.message).trans (ih ?_)
    rw [Considerate, channel_report]
    exact hw

theorem leaves_answer {α : Type} (hw : w.Considerate h) (r : Except LibraryError α) :
    Leaves h i k w (w.answer r).2 := by
  cases r with
  | ok x => exact fun _ _ hs => hs
  | error e => exact leaves_report hw _ _

theorem leaves_of_answered {α : Type} {r : Except LibraryError α}
    (hw : (w.answer r).2.Considerate h) : Leaves h i k w (w.answer r).2 := by
  rw [Considerate, channel_answer] at hw
  exact leaves_answer hw r

theorem leaves_of_logs (hw : w.Considerate h) (hlogs : w.Logs w') : Leaves h i k w w' := by
  obtain ⟨messages, rfl⟩ := hlogs
  induction messages generalizing w with
  | nil => exact fun _ _ hs => hs
  | cons m messages ih =>
    have haside : Aside h i w.host (w.channel.handler m.1 m.2 w.host) := (hw m.1 m.2 w.host).aside i
    exact (leaves_host haside).trans
      (ih (w := { w with host := w.channel.handler m.1 m.2 w.host }) hw)

end World

end Dialogue
