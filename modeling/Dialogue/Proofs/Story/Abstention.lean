import Dialogue.Proofs.Story.Awaiting

/-!
Host code that leaves it to the player to get a machine on. Whatever else is done in a library leaves
the conversation of that machine as it is, and the machine in its state.
-/

namespace Dialogue

variable {δ : Type}

/-- Host code that leaves it to the player to start and run the machine, to answer and to destroy
it. -/
abbrev Discipline.abstaining (h : Handle) : Discipline (Story δ) :=
  .sparing (fun op => ¬op.Plays h ∧ op ≠ .destroy h) h

def Operation.plays? {ε : Type} : Operation ε → Option Handle
  | start h _ | run h | selectContinue h | selectChoice h _ => some h
  | _ => none

theorem Operation.Plays.plays? {h : Handle} {op : Operation (Story δ)} (hop : op.Plays h) :
    op.plays? = some h := by
  rcases hop with (⟨bough, rfl⟩ | rfl) | hop
  · rfl
  · rfl
  · cases hop <;> rfl

theorem Operation.not_plays {h : Handle} {op : Operation (Story δ)} (hop : op.plays? = none) :
    ¬op.Plays h := by
  intro hplays
  rw [hplays.plays?] at hop
  cases hop

theorem Operation.abstains_of_isSteady {h : Handle} {op : Operation (Story δ)}
    (hop : op.isSteady = true) : ¬op.Plays h ∧ op ≠ .destroy h := by
  refine ⟨not_plays ?_, fun heq => by simp [heq, isSteady] at hop⟩
  cases op <;> first | rfl | cases hop

theorem Operation.Plays.abstains {h h' : Handle} {op : Operation (Story δ)} (hop : op.Plays h')
    (hne : h' ≠ h) : ¬op.Plays h ∧ op ≠ .destroy h := by
  have hplayed := hop.plays?
  refine ⟨fun hop' => hne (Option.some.inj (hplayed.symm.trans hop'.plays?)), fun heq => ?_⟩
  rw [heq] at hplayed
  cases hplayed

theorem reserves_abstaining (h : Handle) :
    Reserves h fun op : Operation (Story δ) => ¬op.Plays h ∧ op ≠ .destroy h where
  defers hop := ⟨fun hanswers => hop.1 (.inr hanswers), hop.2⟩
  tells _ _ _ := Operation.abstains_of_isSteady rfl
  reports _ _ := Operation.abstains_of_isSteady rfl

namespace Story

variable {h : Handle} {i j : Nat} {s s' : Story δ} {c : Conversation δ}

theorem conversations_modify_ne (hj : j ≠ i) {f : Conversation δ → Conversation δ} :
    (s.modify j f).conversations[i]? = s.conversations[i]? := by
  simp only [modify, List.getElem?_modify, hj, if_false, id_map']

def Only (h : Handle) (i : Nat) (s : Story δ) : Prop :=
  ∀ (j : Nat) (c : Conversation δ), s.conversations[j]? = some c → c.handle = h →
    c.phase ≠ .destroyed → j = i

theorem Retains.only (hs : Retains h s s') (honly : s.Only h i) : s'.Only h i := by
  intro j c' hc' hhandle hphase
  obtain ⟨c, hc, hhandle', hphase'⟩ := hs.earlier hc' hhandle
  rw [← hphase'] at hphase
  exact honly j c hc hhandle' hphase

def Freezes (h : Handle) (i : Nat) (s s' : Story δ) : Prop :=
  ∀ c : Conversation δ, s.conversations[i]? = some c → c.handle = h → s.Routed →
    s.route? h ≠ some i → s'.conversations[i]? = some c ∧ s'.Routed ∧ s'.route? h ≠ some i

theorem Freezes.hear {h' : Handle} (hs : Freezes h i s s') (hroute : s.route? h' = some j)
    (e : Event) : Freezes h i s (s'.hear j e) := by
  intro c hc hhandle hrouted hgone
  obtain ⟨hc', hrouted', hgone'⟩ := hs c hc hhandle hrouted hgone
  -- No machine is routed to the conversation, since that could only be its own.
  have hj : i ≠ j := by
    rintro rfl
    obtain ⟨c₁, hc₁, rfl⟩ := hrouted h' i hroute
    obtain rfl : c = c₁ := Option.some.inj (hc.symm.trans hc₁)
    exact hgone (hhandle ▸ hroute)
  have hstirs := stirs_hear s' j e
  refine ⟨(hstirs.others i hj).trans hc', (hstirs.retains (h := h)).routed hrouted', ?_⟩
  rwa [route?, hstirs.routes, ← route?]

theorem bounds_freezes (h : Handle) (i : Nat) :
    (Discipline.abstaining (δ := δ) h).Bounds (Freezes h i) where
  refl _ _ hc _ hrouted hgone := ⟨hc, hrouted, hgone⟩
  trans hs hs' c hc hhandle hrouted hgone := by
    obtain ⟨hc', hrouted', hgone'⟩ := hs c hc hhandle hrouted hgone
    exact hs' c hc' hhandle hrouted' hgone'
  idle := .refl h
  changes hs c hc hhandle hrouted hgone :=
    ⟨(hs.conversations i c hhandle).mpr hc, hs.routed hrouted, hs.route.symm ▸ hgone⟩
  trusts := by
    rintro callbacks rfl h' e s
    have hK := reserves_abstaining (δ := δ) h
    refine upholds_dispatch (fun h name v => ⟨hK.tells h name v, trivial⟩)
      (fun severity message => ⟨hK.reports severity message, trivial⟩) ?_ ?_ ?_
    · exact fun c hc _ hrouted hgone => ⟨hc, hrouted, hgone⟩
    · exact fun name v store told _ c hc _ hrouted hgone => ⟨hc, hrouted, hgone⟩
    · exact fun j s' hroute hs' => hs'.hear hroute e

end Story

namespace World

open Story (Even Only Retains Spares Freezes)

variable {h h' : Handle} {i j : Nat} {b b' c : Conversation δ} {t : Option MachineState}
  {w w' : World (Story δ)} {fuel : Nat} {op : Operation (Story δ)} {r : Reply}

theorem freezes_exec (hw : Heeding (reserves_abstaining h) none w)
    (hop : op.Grants (.abstaining h)) (hexec : exec fuel op w = some (r, w')) :
    Freezes h i w.host w'.host :=
  (Conduct.preserves_exec (C := (Discipline.abstaining h).conduct (Story.bounds_freezes h i)
    (L := fun _ => True) fun _ => trivial) ⟨trivial, hop⟩ hexec
    ⟨hw.handler, hw.callbacks, hw.bodies, hw.clear, hw.sound, hw.housed⟩).2.host

/-- Where the conversation `i` is, whose record is `b`: with its machine, in the state `t`, or without
one. -/
inductive Place (h : Handle) (i : Nat) (b : Conversation δ) :
    Option MachineState → World (Story δ) → Prop
  | gone {w : World (Story δ)} {c : Conversation δ} (hc : w.host.conversations[i]? = some c)
    (hbare : c.bare = b) (hroute : w.host.route? h ≠ some i) : Place h i b none w
  | here {w : World (Story δ)} {k : Nat} {c : Conversation δ} {inst : Instance (Story δ)}
    (hs : Scene h i k c inst w) (hbare : c.bare = b) (honly : w.host.Only h i) :
    Place h i b (some inst.machine.state) w

/-- A library at rest, whose host code leaves the machine to the player, with the conversation in its
place. -/
structure Untouched (h : Handle) (i : Nat) (b : Conversation δ) (t : Option MachineState)
    (w : World (Story δ)) : Prop where
  orderly : Heeding (reserves_abstaining h) none w
  rest : w.AtRest
  routed : w.host.Routed
  handle : b.handle = h
  place : Place h i b t w

theorem Untouched.record (hw : Untouched h i b t w) :
    ∃ c, w.host.conversations[i]? = some c ∧ c.bare = b := by
  cases hw.place with
  | gone hc hbare hroute => exact ⟨_, hc, hbare⟩
  | here hs hbare honly => exact ⟨_, hs.conversation, hbare⟩

theorem Untouched.own (hw : Untouched h i b t w) (hc : w.host.conversations[i]? = some c) :
    c.bare = b ∧ c.handle = h := by
  obtain ⟨own, hown, rfl⟩ := hw.record
  obtain rfl : c = own := Option.some.inj (hc.symm.trans hown)
  exact ⟨rfl, hw.handle⟩

theorem Untouched.only (hw : Untouched h i b t w) (ht : t ≠ none) : w.host.Only h i := by
  cases hw.place with
  | gone => exact absurd rfl ht
  | here hs hbare honly => exact honly

theorem Untouched.scene {state : MachineState} (hw : Untouched h i b (some state) w) :
    ∃ (k : Nat) (c : Conversation δ) (inst : Instance (Story δ)), Scene h i k c inst w ∧
      c.bare = b ∧ inst.machine.state = state ∧ inst.status = .idle := by
  cases hw.place with
  | here hs hbare honly =>
    exact ⟨_, _, _, hs, hbare, rfl, hw.rest.idle _ (List.mem_of_getElem? hs.found)⟩

theorem Untouched.exec (hw : Untouched h i b t w) (hop : op.Grants (.abstaining h))
    (habstains : t ≠ none → ¬op.Plays h ∧ op ≠ .destroy h)
    (hexec : World.exec fuel op w = some (r, w')) : Untouched h i b t w' := by
  have hretains := retains_exec hw.orderly hop hexec
  refine ⟨heeding_exec hw.orderly hop hexec, atRest_exec hw.rest hexec,
    hretains.routed hw.routed, hw.handle, ?_⟩
  cases hw.place with
  | @gone _ c hc hbare hroute =>
    obtain ⟨hc', -, hroute'⟩ :=
      freezes_exec hw.orderly hop hexec c hc (hw.own hc).2 hw.routed hroute
    exact .gone hc' hbare hroute'
  | @here _ k c inst hs hbare honly =>
    have hidle := hw.rest.idle inst (List.mem_of_getElem? hs.found)
    have hpermits : (Discipline.abstaining h).Permits op := ⟨habstains (by simp), hop⟩
    obtain ⟨c', inst', hs', -, hattends⟩ :=
      follows_exec hpermits hw.orderly hexec c inst hs (congrArg Status.events hidle)
    obtain ⟨rfl, hstands⟩ :=
      hattends.occupied (.inr (.inr fun _ hop hdrives => hop.1 (.inl hdrives)))
    rw [← hstands.state]
    exact .here hs' hbare (hretains.only honly)

theorem Untouched.restage {s : Story δ} (hw : Untouched h i b t w) (hrouted : s.Routed)
    (hroute : s.route? h = some i ↔ w.host.route? h = some i) (hhandle : b'.handle = b.handle)
    (hrecord : ∀ c, w.host.conversations[i]? = some c → c.bare = b →
      ∃ c', s.conversations[i]? = some c' ∧ c'.bare = b')
    (honly : t ≠ none → w.host.Only h i → s.Only h i) :
    Untouched h i b' t { w with host := s } := by
  refine ⟨hw.orderly.host s, hw.rest.congr rfl rfl, hrouted, hhandle.trans hw.handle, ?_⟩
  cases hw.place with
  | gone hc hbare hgone =>
    obtain ⟨c', hc', hbare'⟩ := hrecord _ hc hbare
    exact .gone hc' hbare' fun h => hgone (hroute.mp h)
  | here hs hbare honly₀ =>
    obtain ⟨c', hc', hbare'⟩ := hrecord _ hs.conversation hbare
    have hown : c'.handle = h := by
      rw [← hw.handle, ← hhandle, ← hbare']
      rfl
    exact .here ⟨hc', hown, hrouted, hroute.mpr hs.route, hs.alive, hs.found, hs.callbacks⟩ hbare'
      (honly (by simp) honly₀)

theorem Untouched.spare {s : Story δ} (hw : Untouched h i b t w) (hs : Spares h w.host s) :
    Untouched h i b t { w with host := s } := by
  refine hw.restage (hs.routed hw.routed) (by rw [hs.route]) rfl (fun c hc hbare => ?_)
    fun _ => hs.retains.only
  exact ⟨c, (hs.conversations i c (hw.own hc).2).mpr hc, hbare⟩

theorem Untouched.even {s : Story δ} (hw : Untouched h i b t w) (hs : Even w.host s) :
    Untouched h i b t { w with host := s } := by
  have hretains : Retains h w.host s := hs.retains
  refine hw.restage (hretains.routed hw.routed) ?_ rfl (fun c hc hbare => ?_)
    fun _ => hretains.only
  · rw [Story.route?, hs.routes, ← Story.route?]
  · have hsame := congrArg (·[i]?) hs.bare
    simp only [List.getElem?_map, hc, Option.map_some] at hsame
    obtain ⟨c', hc', heq⟩ := Option.map_eq_some_iff.mp hsame
    exact ⟨c', hc', heq.trans hbare⟩

theorem Untouched.modify {f : Conversation δ → Conversation δ} (hw : Untouched h i b t w)
    (hhandle : ∀ c, (f c).handle = c.handle) (hbare : ∀ c, (f c).bare = f c.bare) :
    Untouched h i (f b) t { w with host := w.host.modify i f } := by
  refine hw.restage (hw.routed.modify hhandle i) .rfl (hhandle b) (fun c hc hb => ?_)
    fun _ honly j c' hc' hown hphase => ?_
  · exact ⟨f c, by simp [Story.modify, hc], (hbare c).trans (congrArg f hb)⟩
  · by_cases hj : j = i
    · exact hj
    · rw [Story.conversations_modify_ne (Ne.symm hj)] at hc'
      exact honly j c' hc' hown hphase

theorem Untouched.modify_ne {f : Conversation δ → Conversation δ} (hw : Untouched h i b t w)
    (hj : j ≠ i) (hhandle : ∀ c, (f c).handle = c.handle)
    (hphase : t ≠ none → ∀ c, w.host.conversations[j]? = some c → c.handle = h →
      (f c).phase ≠ .destroyed → c.phase ≠ .destroyed) :
    Untouched h i b t { w with host := w.host.modify j f } := by
  refine hw.restage (hw.routed.modify hhandle j) .rfl rfl (fun c hc hb => ?_)
    fun ht honly j' c' hc' hown hlive => ?_
  · exact ⟨c, by rwa [Story.conversations_modify_ne hj], hb⟩
  · by_cases hj' : j = j'
    · subst hj'
      simp only [Story.modify, List.getElem?_modify_eq] at hc'
      obtain ⟨c, hc, rfl⟩ := Option.map_eq_some_iff.mp hc'
      have hown' := (hhandle c).symm.trans hown
      exact honly j c hc hown' (hphase ht c hc hown' hlive)
    · rw [Story.conversations_modify_ne hj'] at hc'
      exact honly j' c' hc' hown hlive

theorem Untouched.filter (hw : Untouched h i b t w) (hh : t ≠ none → h' ≠ h) :
    Untouched h i b t
      { w with host := { w.host with routes := w.host.routes.filter (·.1 != h') } } := by
  refine hw.restage (hw.routed.filter h') ?_ rfl (fun c hc hb => ⟨c, hc, hb⟩) fun _ => id
  rw [Story.route?_filter]
  split
  · rename_i heq
    cases hw.place with
    | gone hc hbare hroute => simp [hroute]
    | here => exact absurd heq.symm (hh (by simp))
  · exact .rfl

theorem Untouched.enroll (hw : Untouched h i b t w) (hh : t ≠ none → c.handle ≠ h) :
    Untouched h i b t { w with host := w.host.enroll c } := by
  have hi : i < w.host.conversations.length := by
    obtain ⟨c, hc, -⟩ := hw.record
    exact (List.getElem?_eq_some_iff.mp hc).1
  refine hw.restage (hw.routed.enroll c) ?_ rfl (fun c' hc' hb => ⟨c', ?_, hb⟩)
    fun ht honly j c' hc' hown hphase => ?_
  · rw [Story.route?_enroll]
    split
    · rename_i heq
      cases hw.place with
      | gone hc hbare hroute => simp [hroute, Nat.ne_of_gt hi]
      | here => exact absurd heq.symm (hh (by simp))
    · exact .rfl
  · rwa [Story.enroll, List.getElem?_append_left hi]
  · rcases Story.enroll_cases hc' with hc' | ⟨rfl, rfl⟩
    · exact honly j c' hc' hown hphase
    · exact absurd hown (hh ht)

theorem sustained_untouched : Sustained (Untouched (δ := δ) h i b t) where
  exec hop hw := hw.exec (Operation.grants_of_isTame (Operation.isTame_of_isSteady hop))
    fun _ => Operation.abstains_of_isSteady hop
  update heven hw := hw.even heven

structure Beside (h : Handle) (i : Nat) (b : Conversation δ) (t : Option MachineState) (j : Nat)
    (h' : Handle) (w : World (Story δ)) : Prop extends Untouched h i b t w where
  ne : j ≠ i
  other : t ≠ none → h' ≠ h ∧ ∀ c, w.host.conversations[j]? = some c → c.handle ≠ h

theorem Beside.of_retains (hw : Beside h i b t j h' w) (hw' : Untouched h i b t w')
    (hretains : Retains h w.host w'.host) : Beside h i b t j h' w' := by
  refine ⟨hw', hw.ne, fun ht => ⟨(hw.other ht).1, fun c' hc' hown => ?_⟩⟩
  obtain ⟨c, hc, hown', -⟩ := hretains.earlier hc' hown
  exact (hw.other ht).2 c hc hown'

theorem Beside.exec (hw : Beside h i b t j h' w) (hop : op.Grants (.abstaining h))
    (habstains : t ≠ none → ¬op.Plays h ∧ op ≠ .destroy h)
    (hexec : World.exec fuel op w = some (r, w')) : Beside h i b t j h' w' :=
  hw.of_retains (hw.toUntouched.exec hop habstains hexec) (retains_exec hw.orderly hop hexec)

theorem sustained_beside : Sustained (Beside (δ := δ) h i b t j h') where
  exec hop hw := hw.exec (Operation.grants_of_isTame (Operation.isTame_of_isSteady hop))
    fun _ => Operation.abstains_of_isSteady hop
  update heven hw := hw.of_retains (hw.toUntouched.even heven) heven.retains

theorem tended_untouched (hj : j = i → b.phase = .destroyed) :
    Tended j (Untouched (δ := δ) h i b t) (Beside h i b t j) where
  enter {w c} hw hc hphase := by
    have hne : j ≠ i := by
      rintro rfl
      exact hphase ((congrArg (·.phase) (hw.own hc).1).trans (hj rfl))
    have hother (ht : t ≠ none) : c.handle ≠ h := fun hhandle =>
      hne (hw.only ht j c hc hhandle hphase)
    refine ⟨hw, hne, fun ht => ⟨hother ht, fun c' hc' => ?_⟩⟩
    obtain rfl : c = c' := Option.some.inj (hc.symm.trans hc')
    exact hother ht
  leave _ _ hw := hw.toUntouched
  serves h' :=
    { exec hop := sustained_beside.exec hop
      play hop hw := hw.exec (Operation.grants_of_isTame hop.isTame)
        fun ht => hop.abstains (hw.other ht).1
      modify {f w} hf hw := by
        refine ⟨hw.toUntouched.modify_ne hw.ne (fun c => (hf c).handle) ?_, hw.ne, fun ht =>
          ⟨(hw.other ht).1, fun c' hc' => ?_⟩⟩
        · exact fun ht c hc hhandle => absurd hhandle ((hw.other ht).2 c hc)
        · simp only [Story.modify, List.getElem?_modify_eq] at hc'
          obtain ⟨c, hc, rfl⟩ := Option.map_eq_some_iff.mp hc'
          rw [(hf c).handle]
          exact (hw.other ht).2 c hc
      silence {state w} hw := sustained_beside.update
        (f := fun s => Story.stopSpeaker { s with state := state } j) (w.host.even_silence state j) hw
      bindStore fuel c _ := sustained_beside.bindStore fuel c
      unbindStore fuel c _ := sustained_beside.unbindStore fuel c }
  host {_} x hw := hw.even (.of_conversations rfl rfl)

end World

namespace Act

def moves? : Act δ → Option Nat
  | destroy i => some i
  | a => a.plays?

def takes? : Act δ → Option Nat
  | takeEvents i | takeEvent i => some i
  | _ => none

end Act

namespace Telling

open World

variable {h : Handle} {i : Nat} {b : Conversation δ} {t : Option MachineState}
  {w w' : World (Story δ)} {fuel : Nat}

theorem untouched_enrolled {k : Container} {data : CompiledData} (config : Config)
    (hw : Untouched h i b t w) (hroom : w.arena.HasRoom)
    (hparse : Container.parse data.bytes = .ok k) : Untouched h i b t (w.enrolled k data config) := by
  have hw₁ := hw.exec (by exact .inl rfl) (fun _ => ⟨Operation.not_plays rfl, by simp⟩)
    (exec_create_parsed config hparse 0)
  refine Untouched.enroll (c := .create (w.arena.insert w.instances.length).1 config data.externs)
    hw₁ fun ht heq => ?_
  -- The handle has been free, and that of the conversation stands for its machine.
  have hfree := Arena.get?_insert_fst (x := w.instances.length) hw.rest.sound hroom
  cases hw.place with
  | gone => exact ht rfl
  | here hs hbare honly =>
    rw [show (w.arena.insert w.instances.length).1 = h from heq, hs.alive] at hfree
    cases hfree

theorem untouched_bind {externs : Externs (Story δ)} {h' : Handle} {declared : List String} {n : Nat}
    (hw : Untouched h i b t w) (hexterns : externs.Obeys (.abstaining h))
    (hbind : externs.bind (World.exec fuel) h' declared w = some (n, w')) : Untouched h i b t w' := by
  refine Externs.preserves_bind ?_ ?_ hw hbind
  · intro name e w r w' he hw hexec
    refine hw.exec (hexterns.bindOperation he _) (fun _ => ⟨Operation.not_plays ?_, ?_⟩) hexec
    · cases e <;> rfl
    · cases e <;> simp [Externs.bindOperation]
  · exact fun w severity message hw => hw.spare (hw.orderly.handler severity message w.host)

theorem untouched_enroll {externs : Externs (Story δ)} {data : CompiledData} {config : Config}
    {r : Except StoryError Nat} (hw : Untouched h i b t w) (hroom : w.arena.HasRoom)
    (hexterns : externs.Obeys (.abstaining h)) (hr : (enroll fuel externs data config).Yields w r w') :
    Untouched h i b t w' := by
  rcases enroll_cases hr with ⟨a, message, e, hexec, -⟩ | ⟨k, n, w₁, hparse, hbind, -, rfl⟩
  · exact hw.exec (by exact .inl rfl) (fun _ => ⟨Operation.not_plays rfl, by simp⟩) hexec
  · have hbound := untouched_bind (untouched_enrolled config hw hroom hparse) hexterns hbind
    have hi : w.host.conversations.length ≠ i := by
      obtain ⟨c, hc, -⟩ := hw.record
      exact Nat.ne_of_gt (List.getElem?_eq_some_iff.mp hc).1
    exact hbound.modify_ne hi (fun _ => rfl) fun _ _ _ _ => id

theorem untouched_create {externs : Externs (Story δ)} {data : CompiledData} {config : Config}
    {r : Except StoryError Nat} (hw : Untouched h i b t w) (hroom : w.arena.HasRoom)
    (hexterns : externs.Obeys (.abstaining h)) (hr : (create fuel externs data config).Yields w r w') :
    Untouched h i b t w' := by
  obtain ⟨w₁, hthreshold, harena, henroll⟩ := enrolls_of_create hr
  rw [← harena] at hroom
  rcases hthreshold with rfl | ⟨s, a, hexec⟩
  · exact untouched_enroll hw hroom hexterns henroll
  · exact untouched_enroll (sustained_untouched.exec rfl hw hexec) hroom hexterns henroll

theorem untouched_destroy {j : Nat} {r : Except StoryError Bool} (hw : Untouched h i b t w)
    (hj : j = i → b.phase = .destroyed) (hr : (destroy fuel j).Yields w r w') :
    Untouched h i b t w' := by
  unfold destroy at hr
  rw [yields_conversation?_bind] at hr
  split at hr
  · obtain ⟨-, rfl⟩ := yields_pure.mp hr
    exact hw
  · rename_i c hc
    split at hr
    · obtain ⟨-, rfl⟩ := yields_pure.mp hr
      exact hw
    · rename_i hphase
      have hbeside := (tended_untouched hj).enter hw hc hphase
      rw [yields_update_bind] at hr
      refine reaches_bind (sustained_beside.unbindStore fuel c) (fun _ h => h.toUntouched)
        (fun _ => ?_) _ r w' (sustained_beside.update (f := fun s => s.stopSpeaker j)
          (w.host.even_stopSpeaker j) hbeside) hr
      intro w r w' hw hr
      have hother := fun ht => (hw.other ht).1
      rw [yields_update_bind] at hr
      obtain ⟨a, w₁, hexec, hr⟩ := yields_perform_bind.mp hr
      rw [yields_update_bind] at hr
      obtain ⟨-, rfl⟩ := yields_pure.mp hr
      have hw₁ := (hw.toUntouched.filter hother).exec (by trivial)
        (fun ht => ⟨Operation.not_plays rfl, by simp [hother ht]⟩) hexec
      exact hw₁.modify_ne hw.ne (fun _ => rfl) fun _ _ _ _ h => absurd rfl h

theorem untouched_act {a : Act δ} {r : Except StoryError Unit} (hw : Untouched h i b t w)
    (ha : a.Obeys (.abstaining h)) (hfits : a.Fits w)
    (hmoves : a.moves? = some i → b.phase = .destroyed) (htakes : a.takes? ≠ some i)
    (hr : (a.telling fuel).Yields w r w') : Untouched h i b t w' := by
  cases a with
  | create externs data config =>
    obtain ⟨r', hr⟩ := yields_of_reply hr
    exact untouched_create hw hfits ha hr
  | destroy j =>
    obtain ⟨r', hr⟩ := yields_of_reply hr
    exact untouched_destroy hw (fun hj => hmoves (congrArg some hj)) hr
  | setFunction j name arity body =>
    refine maintains_reply (maintains_bind (maintains_alive j) fun c => ?_) w r w' hw hr
    refine maintains_performFlag (maintains_perform fun w r w' hw => hw.exec ?_ fun _ => ?_)
    · exact ha
    · exact ⟨Operation.not_plays rfl, by simp⟩
  | takeEvents j =>
    obtain ⟨r', hr⟩ := yields_of_reply hr
    obtain ⟨-, rfl⟩ := yields_takeEvents.mp hr
    exact hw.modify_ne (fun hj => htakes (congrArg some hj)) (fun _ => rfl) fun _ _ _ _ => id
  | takeEvent j =>
    obtain ⟨r', hr⟩ := yields_of_reply hr
    obtain ⟨-, rfl⟩ := yields_takeEvent?.mp hr
    exact hw.modify_ne (fun hj => htakes (congrArg some hj)) (fun _ => rfl) fun _ _ _ _ => id
  | _ =>
    refine Act.maintains sustained_untouched.toSteady (sustained_untouched.setShared fuel) ?_ rfl w r
      w' hw hr
    exact fun j hj => (tended_untouched fun heq => hmoves (hj.trans (congrArg some heq))).played fuel

end Telling

end Dialogue
