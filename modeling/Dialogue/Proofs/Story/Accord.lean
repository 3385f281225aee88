import Dialogue.Proofs.Story.Attendance
import Dialogue.Proofs.Story.Creation

namespace Dialogue

variable {δ : Type} {h h₀ : Handle} {i : Nat} {told told' : Nat → List SpokenLine}
  {w w' : World (Story δ)} {c : Conversation δ} {fuel : Nat} {op : Operation (Story δ)} {r : Reply}

theorem Operation.defers_of_isSteady (hop : op.isSteady = true) : op.Defers h := by
  cases op <;> first | exact trivial | cases hop

def Externs.Defers (h : Handle) (es : Externs (Story δ)) : Prop :=
  ∀ name arity body, (name, .function arity body) ∈ es.entries → ∀ args, (body args).Defers h

theorem Externs.Defers.bindOperation {es : Externs (Story δ)} (hes : es.Defers h) {name : String}
    {e : Extern (Story δ)} (he : (name, e) ∈ es.entries) (h' : Handle) :
    (Externs.bindOperation h' name e).Defers h := by
  cases e with
  | value v => trivial
  | function arity body => exact hes name arity body he

theorem Operation.Answers.change (hop : op.Answers h) : ∃ ch : Change (Story δ),
    op.change? = some ch ∧ ch.handle = h ∧ ch.fallback.isYes = false ∧
      ∀ m r m', ch.apply m = .ok (r, m') →
        r.isYes = true ∧ m.isWaiting = true ∧ m'.state = .running := by
  cases hop with
  | line =>
    refine ⟨_, rfl, rfl, rfl, fun m r m' happly => ?_⟩
    obtain ⟨m₁, hselect, heq⟩ := Except.map_eq_ok_iff.mp happly
    cases heq
    obtain ⟨hstate, rfl⟩ := Machine.selectContinue_eq_ok hselect
    exact ⟨rfl, Machine.isWaiting_iff.mpr ⟨_, hstate⟩, rfl⟩
  | choice index =>
    refine ⟨_, rfl, rfl, rfl, fun m r m' happly => ?_⟩
    obtain ⟨m₁, hselect, heq⟩ := Except.map_eq_ok_iff.mp happly
    cases heq
    obtain ⟨hstate, o, -, rfl⟩ := Machine.selectChoice_eq_ok hselect
    exact ⟨rfl, Machine.isWaiting_iff.mpr ⟨_, hstate⟩, rfl⟩

theorem Operation.Answers.grants (hop : op.Answers h₀) {d : Discipline (Story δ)} :
    op.Grants d := by
  cases hop <;> trivial

theorem Operation.Answers.defers (hop : op.Answers h₀) (hne : h₀ ≠ h) : op.Defers h := by
  cases hop <;> exact hne

namespace World

open Story (Even Retains Routed Spares)

theorem Scene.machine? {k : Nat} {inst : Instance (Story δ)} (hs : Scene h i k c inst w) :
    w.machine? h = some inst.machine := by
  simp [World.machine?, hs.alive, hs.found]

/-- A library at rest, where the conversation of the machine waits for what the machine waits for,
unless it has been destroyed. Of its events, the lines `told` have been taken. -/
structure InAccord (h : Handle) (told : Nat → List SpokenLine) (w : World (Story δ)) : Prop where
  orderly : Orderly h none w
  rest : w.AtRest
  routed : w.host.Routed
  scene : ∀ i c, w.host.conversations[i]? = some c → c.handle = h → c.phase ≠ .destroyed →
    ∃ k inst, Scene h i k c inst w ∧ Accord (told i) c inst.machine

theorem InAccord.exec (hw : InAccord h told w) (hop : op.Defers h)
    (hexec : exec fuel op w = some (r, w')) : InAccord h told w' := by
  have hretains := retains_exec hw.orderly hop.grants hexec
  refine ⟨heeding_exec hw.orderly hop.grants hexec, atRest_exec hw.rest hexec,
    hretains.routed hw.routed, fun i c' hc' hhandle hphase => ?_⟩
  obtain ⟨c, hc, hhandle', hphase'⟩ := hretains.earlier hc' hhandle
  rw [← hphase'] at hphase
  obtain ⟨k, inst, hs, haccord⟩ := hw.scene i c hc hhandle' hphase
  have hidle := hw.rest.idle inst (List.mem_of_getElem? hs.found)
  obtain ⟨c₁, inst', hs', -, hattends⟩ :=
    follows_exec hop.permitted hw.orderly hexec c inst hs (congrArg Status.events hidle)
  obtain rfl : c₁ = c' := Option.some.inj (hs'.conversation.symm.trans hc')
  exact ⟨k, inst', hs', hattends.accord (congrArg Status.busy hidle)
    (congrArg Status.dispatching hidle) _ haccord⟩

theorem InAccord.update {s : Story δ} (hw : InAccord h told w) (hrouted : s.Routed)
    (hroute : s.route? h = w.host.route? h)
    (hs : ∀ i c', s.conversations[i]? = some c' → c'.handle = h → c'.phase ≠ .destroyed →
      ∃ c, w.host.conversations[i]? = some c ∧ c.handle = h ∧ c.phase ≠ .destroyed ∧
        ∀ m, w.machine? h = some m → Accord (told i) c m → Accord (told' i) c' m) :
    InAccord h told' { w with host := s } := by
  refine ⟨hw.orderly.host s, hw.rest.congr rfl rfl, hrouted, fun i c' hc' hhandle hphase => ?_⟩
  obtain ⟨c, hc, hhandle', hphase', haccord⟩ := hs i c' hc' hhandle hphase
  obtain ⟨k, inst, hscene, h⟩ := hw.scene i c hc hhandle' hphase'
  exact ⟨k, inst, ⟨hc', hhandle, hrouted, hroute.trans hscene.route, hscene.alive, hscene.found,
    hscene.callbacks⟩, haccord _ hscene.machine? h⟩

theorem InAccord.spare {s : Story δ} (hw : InAccord h told w) (hs : Spares h w.host s) :
    InAccord h told { w with host := s } :=
  hw.update (hs.routed hw.routed) hs.route fun i c hc hhandle hphase =>
    ⟨c, (hs.conversations i c hhandle).mp hc, hhandle, hphase, fun _ _ => id⟩

theorem InAccord.even {s : Story δ} (hw : InAccord h told w) (hs : Even w.host s) :
    InAccord h told { w with host := s } := by
  have hretains : Retains h w.host s := hs.retains
  refine hw.update (hretains.routed hw.routed) ?_ fun i c' hc' hhandle hphase => ?_
  · rw [Story.route?, hs.routes, Story.route?]
  · have hbare := congrArg (·[i]?) hs.bare
    simp only [List.getElem?_map, hc', Option.map_some] at hbare
    obtain ⟨c, hc, heq⟩ := Option.map_eq_some_iff.mp hbare.symm
    have hevents : c.events = c'.events := (congrArg Conversation.events heq :)
    have hpending : c.pending = c'.pending := (congrArg Conversation.pending heq :)
    refine ⟨c, hc, (congrArg Conversation.handle heq).trans hhandle, ?_, fun m _ haccord => ?_⟩
    · exact fun hdestroyed => hphase ((congrArg Conversation.phase heq.symm).trans hdestroyed)
    · refine haccord.record ?_ hpending.symm
      rw [Conversation.said, ← hevents, Conversation.said]

theorem InAccord.modify {f : Conversation δ → Conversation δ} (hw : InAccord h told w)
    (hf : ∀ c, (f c).handle = c.handle) (htold : ∀ j, j ≠ i → told' j = told j)
    (hphase : ∀ c, w.host.conversations[i]? = some c → c.handle = h → (f c).phase ≠ .destroyed →
      c.phase ≠ .destroyed)
    (haccord : ∀ c m, w.host.conversations[i]? = some c → c.handle = h → w.machine? h = some m →
      Accord (told i) c m → Accord (told' i) (f c) m) :
    InAccord h told' { w with host := w.host.modify i f } := by
  refine hw.update (hw.routed.modify hf i) rfl fun j c' hc' hhandle hphase' => ?_
  by_cases hj : i = j
  · subst hj
    simp only [Story.modify, List.getElem?_modify_eq] at hc'
    obtain ⟨c, hc, rfl⟩ := Option.map_eq_some_iff.mp hc'
    have hhandle' := (hf c).symm.trans hhandle
    exact ⟨c, hc, hhandle', hphase c hc hhandle' hphase',
      fun m hm => haccord c m hc hhandle' hm⟩
  · simp only [Story.modify, List.getElem?_modify, hj, if_false, id_map'] at hc'
    exact ⟨c', hc', hhandle, hphase', fun m _ h => htold j (Ne.symm hj) ▸ h⟩

/-- Of the conversation `i`, if it is that of the machine, it is known that it has not been
destroyed and that its handle is `h₀`. -/
structure Engaged (h : Handle) (told : Nat → List SpokenLine) (i : Nat) (h₀ : Handle)
    (w : World (Story δ)) : Prop extends InAccord h told w where
  own : ∀ c, w.host.conversations[i]? = some c → c.handle = h → h₀ = h ∧ c.phase ≠ .destroyed

theorem InAccord.engage (hw : InAccord h told w) (hc : w.host.conversations[i]? = some c)
    (hphase : c.phase ≠ .destroyed) : Engaged h told i c.handle w := by
  refine ⟨hw, fun c' hc' hhandle => ?_⟩
  obtain rfl : c = c' := Option.some.inj (hc.symm.trans hc')
  exact ⟨hhandle, hphase⟩

theorem Engaged.of_retains (hw : Engaged h told i h₀ w) (hw' : InAccord h told w')
    (hretains : Retains h w.host w'.host) : Engaged h told i h₀ w' := by
  refine ⟨hw', fun c' hc' hhandle => ?_⟩
  obtain ⟨c, hc, hhandle', hphase⟩ := hretains.earlier hc' hhandle
  rw [← hphase]
  exact hw.own c hc hhandle'

theorem Engaged.exec (hw : Engaged h told i h₀ w) (hop : op.Defers h)
    (hexec : exec fuel op w = some (r, w')) : Engaged h told i h₀ w' :=
  hw.of_retains (hw.toInAccord.exec hop hexec) (retains_exec hw.orderly hop.grants hexec)

theorem sustained_inAccord : Sustained (InAccord (δ := δ) h told) :=
  ⟨⟨fun hop hw => hw.exec (Operation.defers_of_isSteady hop)⟩, fun heven hw => hw.even heven⟩

theorem sustained_engaged : Sustained (Engaged (δ := δ) h told i h₀) :=
  ⟨⟨fun hop hw => hw.exec (Operation.defers_of_isSteady hop)⟩,
    fun heven hw => hw.of_retains (hw.toInAccord.even heven) heven.retains⟩

theorem Engaged.modify {f : Conversation δ → Conversation δ} (hw : Engaged h told i h₀ w)
    (hf : ∀ c, (f c).handle = c.handle)
    (haccord : ∀ c m, w.machine? h₀ = some m → Accord (told i) c m → Accord (told i) (f c) m) :
    InAccord h told { w with host := w.host.modify i f } := by
  refine hw.toInAccord.modify hf (fun _ _ => rfl) (fun c hc hhandle _ => (hw.own c hc hhandle).2) ?_
  intro c m hc hhandle hm
  rw [← (hw.own c hc hhandle).1] at hm
  exact haccord c m hm

theorem running_of_start {bough : String} (hw : w.AtRest)
    (hexec : exec fuel (.start h bough) w = some (r, w')) (hyes : r.isYes = true)
    {m : HostMachine (Story δ)} (hm : w'.machine? h = some m) : m.state = .running := by
  rcases start_cases hw hexec with ⟨m₀, m₁, hm₀, hstart, -, rfl⟩ | ⟨-, rfl, -⟩
  · rw [machine?_modifyMachine hw.sound, if_pos rfl, hm₀] at hm
    cases hm
    obtain ⟨b, -, rfl⟩ := Machine.start_eq_ok hstart
    rfl
  · cases hyes

theorem InAccord.only {k : Nat} {inst : Instance (Story δ)} {s : Story δ} (hw : InAccord h told w)
    (hs : Scene h i k c inst w) (hretains : Retains h w.host s) {j : Nat}
    {c' : Conversation δ} (hc' : s.conversations[j]? = some c') (hhandle : c'.handle = h)
    (hphase : c'.phase ≠ .destroyed) : j = i := by
  obtain ⟨c₀, hc₀, hhandle₀, hphase₀⟩ := hretains.earlier hc' hhandle
  rw [← hphase₀] at hphase
  obtain ⟨k₀, inst₀, hs₀, -⟩ := hw.scene j c₀ hc₀ hhandle₀ hphase
  exact Option.some.inj (hs₀.route.symm.trans hs.route)

theorem Scene.answered {K : Operation (Story δ) → Prop} {hK : Reserves h K} {k : Nat}
    {inst : Instance (Story δ)} (hs : Scene h i k c inst w) (hrest : w.AtRest)
    (hw : Heeding hK none w) (hop : op.Answers h) (hexec : World.exec fuel op w = some (r, w')) :
    ∃ inst', Scene h i k c inst' w' ∧
      (r.isYes = true ∧ inst.machine.isWaiting = true ∧ inst'.machine.state = .running ∨
        r.isYes = false ∧ inst'.machine = inst.machine) := by
  obtain ⟨ch, hchange, hch, hfallback, happly⟩ := hop.change
  obtain ⟨rfl, hlogs⟩ := change_eq hrest hchange hexec
  rw [hch, modifyMachine_of_find (find_eq_of_get? hs.alive hs.found)] at hlogs
  rw [hch, hs.machine?]
  have hset : Scene h i k c { inst with machine := ch.effect inst.machine }
      (w.setInstance k { inst with machine := ch.effect inst.machine }) := hs.set rfl
  have hleaves : Leaves h i k _ w' := leaves_of_logs (by exact hw.handler) hlogs
  refine ⟨_, hleaves c _ hset, ?_⟩
  simp only [Change.reply, Change.effect]
  cases heffect : ch.apply inst.machine with
  | error e => exact .inr ⟨hfallback, rfl⟩
  | ok x =>
    obtain ⟨hyes, hwaiting, hrunning⟩ := happly inst.machine x.1 x.2 heffect
    exact .inl ⟨hyes, hwaiting, hrunning⟩

theorem InAccord.answer (hw : InAccord h told w) (hc : w.host.conversations[i]? = some c)
    (hphase : c.phase ≠ .destroyed) (hop : op.Answers c.handle)
    (hexec : World.exec fuel op w = some (r, w')) :
    (r.isYes = true → InAccord h told { w' with host := w'.host.clearPending i }) ∧
      (r.isYes = false → InAccord h told w') := by
  by_cases hhandle : c.handle = h
  · subst hhandle
    have hw' := heeding_exec hw.orderly hop.grants hexec
    have hretains := retains_exec hw.orderly hop.grants hexec
    have hrest := atRest_exec hw.rest hexec
    obtain ⟨k, inst, hs, haccord⟩ := hw.scene i c hc rfl hphase
    obtain ⟨inst', hs', hanswer⟩ := hs.answered hw.rest hw.orderly hop hexec
    constructor
    · intro hyes
      have hrunning := (hanswer.resolve_right (by simp [hyes])).2.2
      have hclear : Retains c.handle w'.host (w'.host.clearPending i) :=
        Story.Stirs.retains (i := i) (Story.stirs_modify _ _ fun _ => rfl)
      have hrouted := hclear.routed (hretains.routed hw.routed)
      refine ⟨hw'.host _, hrest.congr rfl rfl, hrouted, fun j c' hc' hhandle hphase' => ?_⟩
      obtain rfl := hw.only hs (hretains.trans hclear) hc' hhandle hphase'
      have hnone : c'.pending = none := by
        simp only [Story.clearPending, Story.modify, List.getElem?_modify_eq,
          hs'.conversation] at hc'
        cases hc'
        rfl
      exact ⟨k, inst', ⟨hc', hhandle, hrouted, hs'.route, hs'.alive, hs'.found, hs'.callbacks⟩,
        accord_of_idle (Machine.isWaiting_of_running hrunning) hnone⟩
    · intro hno
      have hsame := (hanswer.resolve_left (by simp [hno])).2
      refine ⟨hw', hrest, hretains.routed hw.routed, fun j c' hc' hhandle hphase' => ?_⟩
      obtain rfl := hw.only hs hretains hc' hhandle hphase'
      obtain rfl : c = c' := Option.some.inj (hs'.conversation.symm.trans hc')
      exact ⟨k, inst', hs', hsame ▸ haccord⟩
  · have hw' := (hw.engage hc hphase).exec (hop.defers hhandle) hexec
    refine ⟨fun _ => ?_, fun _ => hw'.toInAccord⟩
    refine hw'.toInAccord.modify (fun _ => rfl) (fun _ _ => rfl) (fun _ _ _ => id) ?_
    intro c' m hc' hhandle'
    exact absurd (hw'.own c' hc' hhandle').1 hhandle

theorem InAccord.cleared {m : HostMachine (Story δ)} (hw : InAccord h told w)
    (hc : w.host.conversations[i]? = some c) (hphase : c.phase ≠ .destroyed)
    (hm : w.machine? c.handle = some m) (hrunning : m.state = .running) :
    InAccord h told { w with host := w.host.clearPending i } := by
  refine (hw.engage hc hphase).modify (fun _ => rfl) fun c m' hm' _ => ?_
  obtain rfl : m = m' := Option.some.inj (hm.symm.trans hm')
  exact accord_of_idle (Machine.isWaiting_of_running hrunning) rfl

end World

namespace Story

variable {s : Story δ}

theorem route?_filter (s : Story δ) (h h' : Handle) :
    { s with routes := s.routes.filter (·.1 != h) }.route? h' =
      if h' = h then none else s.route? h' := by
  simp only [route?, List.find?_filter]
  by_cases heq : h' = h
  · simp [heq]
  · rw [if_neg heq]
    congr 2
    funext route
    by_cases hroute : route.1 = h'
    · simp [hroute, heq]
    · simp [hroute]

theorem Routed.filter (hs : s.Routed) (h : Handle) :
    { s with routes := s.routes.filter (·.1 != h) }.Routed := by
  intro h' i hroute
  rw [route?_filter] at hroute
  split at hroute
  · cases hroute
  · exact hs h' i hroute

def enroll (s : Story δ) (c : Conversation δ) : Story δ :=
  { s with
    conversations := s.conversations ++ [c]
    routes := (c.handle, s.conversations.length) :: s.routes.filter (·.1 != c.handle) }

theorem route?_enroll (s : Story δ) (c : Conversation δ) (h : Handle) : (s.enroll c).route? h =
    if h = c.handle then some s.conversations.length else s.route? h := by
  by_cases heq : h = c.handle
  · simp [route?, enroll, heq]
  · rw [if_neg heq, ← (route?_filter s c.handle h).trans (if_neg heq)]
    simp [route?, enroll, Ne.symm heq]

theorem enroll_cases {c' : Conversation δ} (hc' : (s.enroll c).conversations[i]? = some c') :
    s.conversations[i]? = some c' ∨ i = s.conversations.length ∧ c' = c := by
  rw [enroll, List.getElem?_append] at hc'
  split at hc'
  · exact .inl hc'
  · obtain ⟨hlt, heq⟩ := List.getElem?_eq_some_iff.mp hc'
    rw [List.length_singleton] at hlt
    rw [List.getElem_singleton] at heq
    exact .inr ⟨by omega, heq.symm⟩

theorem Routed.enroll (hs : s.Routed) (c : Conversation δ) : (s.enroll c).Routed := by
  intro h i hroute
  rw [route?_enroll] at hroute
  split at hroute
  · rename_i heq
    cases hroute
    exact ⟨c, by simp [Story.enroll], heq.symm⟩
  · obtain ⟨c', hc', hhandle⟩ := hs h i hroute
    refine ⟨c', ?_, hhandle⟩
    rw [Story.enroll, List.getElem?_append_left (List.getElem?_eq_some_iff.mp hc').1]
    exact hc'

theorem retains_filter (s : Story δ) (h h' : Handle) :
    Retains h s { s with routes := s.routes.filter (·.1 != h') } :=
  ⟨fun hs => hs.filter h', fun _ c hc _ => ⟨c, hc, rfl⟩⟩

end Story

namespace World

open Story (Retains)

theorem InAccord.take {g : List StoryEvent → List StoryEvent} {lines : Nat → List SpokenLine}
    (hw : InAccord h told w) (hothers : ∀ j, j ≠ i → lines j = [])
    (hg : ∀ c, w.host.conversations[i]? = some c →
      lines i ++ (g c.events).filterMap StoryEvent.line? = c.said) :
    InAccord h (fun j => told j ++ lines j)
      { w with host := w.host.modify i fun c => { c with events := g c.events } } := by
  refine hw.modify (fun _ => rfl) (fun j hj => by rw [hothers j hj, List.append_nil])
    (fun _ _ _ => id) fun c m hc _ _ haccord => haccord.record ?_ rfl
  rw [Conversation.said, List.append_assoc, hg c hc]

theorem scene_enrolled (k : Container) (data : CompiledData) (config : Config)
    (hsound : w.arena.Sound) (hroom : w.arena.HasRoom) (hrouted : w.host.Routed) :
    Scene (w.arena.insert w.instances.length).1 w.host.conversations.length w.instances.length
      (.create (w.arena.insert w.instances.length).1 config data.externs)
      ⟨.create k, Story.dispatch, false, false⟩ (w.enrolled k data config) := by
  let c₀ : Conversation δ := .create (w.arena.insert w.instances.length).1 config data.externs
  have hroute : (w.host.enroll c₀).route? c₀.handle = some w.host.conversations.length := by
    rw [Story.route?_enroll, if_pos rfl]
  exact ⟨by simp [enrolled], rfl, hrouted.enroll c₀, hroute, Arena.get?_insert_self hsound hroom,
    by simp [enrolled], rfl⟩

theorem InAccord.enroll {k : Container} {data : CompiledData} (config : Config)
    (hw : InAccord h told w) (hroom : w.arena.HasRoom)
    (hparse : Container.parse data.bytes = .ok k) :
    InAccord h told (w.enrolled k data config) := by
  have hw₁ : InAccord h told { w.enrolled k data config with host := w.host } :=
    hw.exec (by exact .inl rfl) (exec_create_parsed config hparse 0)
  have hscene := scene_enrolled k data config hw.orderly.sound hroom hw.routed
  generalize hc₀ :
    Conversation.create (w.arena.insert w.instances.length).1 config data.externs = c₀ at hscene
  have hhost : (w.enrolled k data config).host = w.host.enroll c₀ := by
    rw [← hc₀]
    rfl
  have hhandle₀ : (w.arena.insert w.instances.length).1 = c₀.handle := by
    rw [← hc₀]
    rfl
  have hrouted := hw.routed.enroll c₀
  by_cases hhandle : c₀.handle = h
  · refine ⟨hw₁.orderly.host _, hw₁.rest.congr rfl rfl, hhost ▸ hrouted,
      fun i c hc hown hphase => ?_⟩
    rw [hhost] at hc
    rcases Story.enroll_cases hc with hc | ⟨rfl, rfl⟩
    · obtain ⟨k', inst, hs, -⟩ := hw.scene i c hc hown hphase
      have hfree := Arena.get?_insert_fst (x := w.instances.length) hw.orderly.sound hroom
      rw [hhandle₀, hhandle, hs.alive] at hfree
      cases hfree
    · rw [hhandle₀, hhandle] at hscene
      refine ⟨_, _, hscene, ?_⟩
      rw [← hc₀]
      exact accord_of_idle rfl rfl
  · refine hw₁.update (s := (w.enrolled k data config).host) (hhost ▸ hrouted) ?_ ?_
    · rw [hhost, Story.route?_enroll, if_neg (Ne.symm hhandle)]
    · intro i c hc hown hphase
      rw [hhost] at hc
      rcases Story.enroll_cases hc with hc | ⟨rfl, rfl⟩
      · exact ⟨c, hc, hown, hphase, fun _ _ => id⟩
      · exact absurd hown hhandle

structure Sole (h : Handle) (i : Nat) (w : World (Story δ)) : Prop where
  orderly : Orderly h none w
  rest : w.AtRest
  routed : w.host.Routed
  sole : ∀ j c, w.host.conversations[j]? = some c → c.handle = h → c.phase ≠ .destroyed → j = i

theorem Sole.of_retains (hw : Sole h i w) (hw' : Orderly h none w') (hrest : w'.AtRest)
    (hretains : Retains h w.host w'.host) : Sole h i w' := by
  refine ⟨hw', hrest, hretains.routed hw.routed, fun j c' hc' hhandle hphase => ?_⟩
  obtain ⟨c, hc, hhandle', hphase'⟩ := hretains.earlier hc' hhandle
  rw [← hphase'] at hphase
  exact hw.sole j c hc hhandle' hphase

theorem Sole.exec (hw : Sole h i w) (hop : op.Grants (.deferring h))
    (hexec : exec fuel op w = some (r, w')) : Sole h i w' :=
  hw.of_retains (heeding_exec hw.orderly hop hexec) (atRest_exec hw.rest hexec)
    (retains_exec hw.orderly hop hexec)

theorem Sole.host {s : Story δ} (hw : Sole h i w) (hs : Retains h w.host s) :
    Sole h i { w with host := s } :=
  hw.of_retains (hw.orderly.host s) (hw.rest.congr rfl rfl) hs

theorem sustained_sole : Sustained (Sole (δ := δ) h i) :=
  ⟨⟨fun hop hw => hw.exec (Operation.defers_of_isSteady hop).grants⟩,
    fun heven hw => hw.host heven.retains⟩

theorem Sole.destroyed (hw : Sole h i w) : InAccord h told
    { w with host := w.host.modify i fun c => { c with phase := .destroyed } } := by
  have hrouted : (w.host.modify i fun c => { c with phase := .destroyed }).Routed :=
    Story.Routed.modify hw.routed (by simp) i
  refine ⟨hw.orderly.host _, hw.rest.congr rfl rfl, hrouted, fun j c hc hhandle hphase => ?_⟩
  have hne : i ≠ j := by
    rintro rfl
    simp only [Story.modify, List.getElem?_modify_eq] at hc
    obtain ⟨c₀, -, rfl⟩ := Option.map_eq_some_iff.mp hc
    exact hphase rfl
  simp only [Story.modify, List.getElem?_modify, hne, if_false, id_map'] at hc
  exact absurd (hw.sole j c hc hhandle hphase).symm hne

end World

end Dialogue
