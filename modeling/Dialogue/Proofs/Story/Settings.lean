import Dialogue.Proofs.Host.Likeness
import Dialogue.Proofs.Story.Creation
import Dialogue.Proofs.Story.Deference

namespace Dialogue

variable {δ : Type} {i : Nat} {f : Config → Config} {p : Phase → Phase}

def Conversation.recast (f : Config → Config) (p : Phase → Phase) (c : Conversation δ) :
    Conversation δ :=
  { c with config := f c.config, phase := p c.phase }

namespace Story

def recast (i : Nat) (f : Config → Config) (p : Phase → Phase) (s : Story δ) : Story δ :=
  s.modify i (·.recast f p)

variable (s : Story δ) (j : Nat)

theorem modify_recast {g : Conversation δ → Conversation δ}
    (hg : ∀ c, g (c.recast f p) = (g c).recast f p) :
    (s.recast i f p).modify j g = (s.modify j g).recast i f p := by
  have hconversations : (s.conversations.modify i (·.recast f p)).modify j g =
      (s.conversations.modify j g).modify i (·.recast f p) := by
    apply List.ext_getElem?
    intro k
    simp only [List.getElem?_modify]
    cases s.conversations[k]? with
    | none => simp
    | some c => by_cases hi : i = k <;> by_cases hj : j = k <;> simp [hi, hj, hg]
  simp only [recast, modify, hconversations]

theorem conversation_recast :
    (s.recast i f p).conversations[i]? = s.conversations[i]?.map (·.recast f p) := by
  simp only [recast, modify, List.getElem?_modify_eq, Option.map_eq_map]

theorem of_conversation_recast {β : Type} {g : Option (Conversation δ) → β}
    (hg : ∀ c : Conversation δ, g (some (c.recast f p)) = g (some c)) :
    g (s.recast i f p).conversations[j]? = g s.conversations[j]? := by
  by_cases hj : i = j
  · subst hj
    rw [conversation_recast]
    cases s.conversations[i]? with
    | none => rfl
    | some c => exact hg c
  · simp [recast, modify, hj]

theorem stopSpeaker_recast : (s.recast i f p).stopSpeaker j = (s.stopSpeaker j).recast i f p := by
  have hspeaker : ((s.recast i f p).conversations[j]?).bind (·.speaker) =
      (s.conversations[j]?).bind (·.speaker) :=
    of_conversation_recast s j (g := fun c => c.bind (·.speaker)) fun _ => rfl
  unfold stopSpeaker
  rw [hspeaker]
  cases (s.conversations[j]?).bind (·.speaker) with
  | none => rfl
  | some speaker =>
    exact modify_recast { s with host := speaker.stop s.host } j
      (g := fun c => { c with speaker := none }) fun _ => rfl

theorem hear_recast (e : Event) : (s.recast i f p).hear j e = (s.hear j e).recast i f p := by
  cases e with
  | line l =>
    let spoken : SpokenLine := ⟨(s.stopSpeaker j).speakers.displayName l.speaker, l⟩
    have hspeakers : ((s.stopSpeaker j).recast i f p).speakers = (s.stopSpeaker j).speakers := rfl
    simp only [hear, speak, stopSpeaker_recast, hspeakers]
    cases (s.stopSpeaker j).speakers.get? l.speaker with
    | none =>
      exact modify_recast (s.stopSpeaker j) j (g := fun c =>
        { c with speaker := none, pending := some (.line spoken) }.emit (.line spoken)) fun _ => rfl
    | some speaker =>
      exact modify_recast
        { s.stopSpeaker j with host := speaker.start l (s.stopSpeaker j).host } j (g := fun c =>
          { c with speaker := some speaker, pending := some (.line spoken) }.emit (.line spoken))
        fun _ => rfl
  | choices cs =>
    exact modify_recast s j (g := fun c =>
      { c with pending := some (.choices cs) }.emit (.choices cs)) fun _ => rfl
  | changed name v =>
    exact modify_recast s j (g := fun c => c.emit (.changed name v)) fun _ => rfl

end Story

def Likeness.recasts (i : Nat) (f : Config → Config) (p : Phase → Phase) : Likeness (Story δ) where
  hosts _ s s' := i < s.conversations.length ∧ s' = s.recast i f p
  counts _ := false
  held _ := False
  scope := none

def Operation.Heedless (i : Nat) (op : Operation (Story δ)) : Prop :=
  ∀ f p, op.Respects (.recasts i f p)

/-- Host code that does the same whatever the settings and the phase of the conversation are, leaves
them as they are and does not remove the conversation. -/
def Reaction.Heedless (i : Nat) (r : Reaction (Story δ)) : Prop :=
  ∀ f p, r.Respects (.recasts i f p)

theorem Reaction.respects_update {g : Story δ → Story δ} {next : Reaction (Story δ)}
    (hlength : ∀ s, (g s).conversations.length = s.conversations.length)
    (hrecast : ∀ s, g (s.recast i f p) = (g s).recast i f p)
    (hnext : next.Respects (.recasts i f p)) :
    (Reaction.update g next).Respects (.recasts i f p) := by
  rw [Reaction.Respects]
  refine ⟨?_, hnext⟩
  rintro - s _ ⟨hi, rfl⟩
  exact ⟨Nat.lt_of_lt_of_eq hi (hlength s).symm, hrecast s⟩

namespace Story

theorem respects_tell (name : String) (v : Value) (told : List Handle)
    {last : Reaction (Story δ)} (hlast : last.Respects (.recasts i f p)) :
    (tell name v told last).Respects (.recasts i f p) := by
  induction told with
  | nil => exact hlast
  | cons h told ih =>
    rw [tell, List.map_cons, Reaction.sequence, List.foldr_cons, Reaction.Respects]
    exact ⟨rfl, trivial, fun _ => ih⟩

theorem Stirs.length {j : Nat} {s s' : Story δ} (hs : Stirs j s s') :
    s'.conversations.length = s.conversations.length := by
  simpa using congrArg List.length hs.posts

theorem heedless_dispatch (i : Nat) (h : Handle) (e : Event) :
    (dispatch h e : Reaction (Story δ)).Heedless i := by
  intro f p
  have hhear (j : Nat) (e : Event) : (Reaction.update (·.hear j e) (.done .nil)).Respects
      (.recasts (δ := δ) i f p) :=
    Reaction.respects_update (fun s => (stirs_hear s j e).length) (fun s => hear_recast s j e) trivial
  rw [dispatch, Reaction.Respects]
  constructor
  · rintro - s _ ⟨-, rfl⟩
    have hroute : (s.recast i f p).route? h = s.route? h := rfl
    rw [hroute]
    cases s.route? h with
    | none => rfl
    | some j =>
      cases e with
      | line l => rfl
      | choices cs => rfl
      | changed name v =>
        have hbound : ((s.recast i f p).conversations[j]?).any (·.isBound name) =
            (s.conversations[j]?).any (·.isBound name) :=
          of_conversation_recast s j (g := fun c => c.any (·.isBound name)) fun _ => rfl
        simp only [changed, hbound]
        rfl
  · intro s
    cases s.route? h with
    | none =>
      rw [Reaction.Respects]
      exact ⟨rfl, trivial, fun _ => trivial⟩
    | some j =>
      cases e with
      | line l => exact hhear j (.line l)
      | choices cs => exact hhear j (.choices cs)
      | changed name v =>
        have hlast := hhear j (.changed name v)
        simp only [changed]
        split
        · split
          · refine Reaction.respects_update (fun _ => rfl) (fun _ => rfl) ?_
            exact respects_tell name v _ hlast
          · exact hlast
        · exact hlast

end Story

namespace World

def recast (i : Nat) (f : Config → Config) (p : Phase → Phase) (w : World (Story δ)) :
    World (Story δ) :=
  { w with host := w.host.recast i f p }

/-- No host code sees or changes the settings and the phase of the conversation. -/
structure Oblivious (i : Nat) (w : World (Story δ)) : Prop where
  handler : ∀ severity message, (Reaction.update (w.channel.handler severity message)
    (.done .nil)).Heedless i
  callbacks : ∀ inst ∈ w.instances, ∀ h e, (inst.callbacks h e).Heedless i
  bodies : ∀ inst ∈ w.instances,
    inst.machine.Bodies fun body => ∀ args, (body args).Heedless i

structure Heedless (i : Nat) (w : World (Story δ)) : Prop extends w.Oblivious i where
  conversation : i < w.host.conversations.length

theorem Oblivious.host {w : World (Story δ)} (hw : w.Oblivious i) (s : Story δ) :
    Oblivious i { w with host := s } :=
  ⟨hw.handler, hw.callbacks, hw.bodies⟩

variable {w w' : World (Story δ)} {s s' : Recorded (Story δ)}

open Likeness (recasts)

theorem Heedless.like (hw : w.Heedless i) (f : Config → Config) (p : Phase → Phase) :
    (recasts i f p).Like none ⟨w, []⟩ ⟨w.recast i f p, []⟩ where
  whole _ := ⟨rfl, rfl, rfl, rfl, fun _ => False.elim⟩
  handles _ _ := rfl
  reaches _ _ _ _ := by simp [Likeness.Shares, recasts]
  instances j _ := by
    change Option.Rel _ w.instances[j]? w.instances[j]?
    cases hinst : w.instances[j]? with
    | none => exact .none
    | some inst =>
      have hmem := List.mem_of_getElem? hinst
      refine .some ⟨rfl, rfl, rfl, fun h e => hw.callbacks inst hmem h e f p, fun h => h.elim,
        .refl fun g hg arity body hslot => .inr ⟨rfl, fun args => ?_⟩⟩
      exact hw.bodies inst hmem g hg arity body hslot args f p
  channel := rfl
  handler n severity message s s' hs := by
    have hupdate := hw.handler severity message f p
    rw [Reaction.Respects] at hupdate
    exact hupdate.1 n s s' hs
  hosts := ⟨0, rfl, hw.conversation, rfl⟩
  invocations _ _ := rfl

theorem recast_of_like (hl : (recasts i f p).Like none s s') :
    i < s.world.host.conversations.length ∧ s'.world = s.world.recast i f p := by
  have hwhole := hl.whole rfl
  obtain ⟨-, -, hi, hhost⟩ := hl.hosts
  refine ⟨hi, ?_⟩
  have hinstances : s'.world.instances = s.world.instances := by
    refine List.ext_getElem? fun j => ?_
    rcases hl.instance_cases (i := j) (by simp [Likeness.Shares, recasts]) with
      ⟨hx, hy⟩ | ⟨inst, inst', hx, hy, ha⟩
    · rw [hx, hy]
    · rw [hx, hy]
      have hmachine : inst'.machine = inst.machine :=
        ha.machine.eq fun _ _ hb => (hb.resolve_left id).1
      rcases inst' with ⟨m', callbacks', busy', dispatching'⟩
      obtain rfl : m' = inst.machine := hmachine
      obtain rfl : callbacks' = inst.callbacks := ha.callbacks
      obtain rfl : busy' = inst.busy := ha.busy
      obtain rfl : dispatching' = inst.dispatching := ha.dispatching
      rfl
  rcases s' with ⟨⟨arena', instances', buffers', outstanding', channel', host'⟩, t⟩
  obtain rfl : arena' = s.world.arena := hwhole.arena
  obtain rfl : instances' = s.world.instances := hinstances
  obtain rfl : buffers' = s.world.buffers := hwhole.buffers
  obtain rfl : outstanding' = s.world.outstanding := hwhole.outstanding
  obtain rfl : channel' = s.world.channel := hl.channel
  obtain rfl : host' = s.world.host.recast i f p := hhost
  rfl

theorem heedless_of_like (hl : ∀ f p, ∃ s', (recasts i f p).Like none s s') :
    s.world.Heedless i := by
  have hinst {j : Nat} {inst : Instance (Story δ)} (f : Config → Config) (p : Phase → Phase)
      (hinst : s.world.instances[j]? = some inst) :
      ∃ k inst', (recasts i f p).Alike k j inst inst' := by
    obtain ⟨s', hs'⟩ := hl f p
    rcases hs'.instance_cases (i := j) (by simp [Likeness.Shares, recasts]) with
      ⟨hx, -⟩ | ⟨inst₁, inst', hx, -, ha⟩
    · rw [hinst] at hx
      cases hx
    · rw [hinst] at hx
      cases hx
      exact ⟨none, inst', ha⟩
  obtain ⟨s', hs'⟩ := hl id id
  refine ⟨⟨fun severity message f p => ?_, fun inst hmem h e f p => ?_, ?_⟩,
    (recast_of_like hs').1⟩
  · obtain ⟨s', hs'⟩ := hl f p
    rw [Reaction.Respects]
    exact ⟨fun n => hs'.handler n severity message, trivial⟩
  · obtain ⟨j, hj⟩ := List.mem_iff_getElem?.mp hmem
    obtain ⟨k, inst', ha⟩ := hinst f p hj
    exact ha.respects h e
  · intro inst hmem g hg arity body hslot args f p
    obtain ⟨j, hj⟩ := List.mem_iff_getElem?.mp hmem
    obtain ⟨k, inst', ha⟩ := hinst f p hj
    obtain ⟨body', hbody⟩ := ha.machine.bodies g hg arity body hslot
    exact (hbody.resolve_left id).2 args

theorem exec_recast (hw : w.Heedless i) {op : Operation (Story δ)} (hop : op.Heedless i)
    (fuel : Nat) (f : Config → Config) (p : Phase → Phase) :
    exec fuel op (w.recast i f p) = (exec fuel op w).map fun r => (r.1, r.2.recast i f p) := by
  have hlike := Likeness.like_exec (hop f p) (.inl rfl) (hw.like f p) fuel
  have hfirst := Recorded.erase_exec fuel op (⟨w, []⟩ : Recorded (Story δ))
  have hsecond := Recorded.erase_exec fuel op (⟨w.recast i f p, []⟩ : Recorded (Story δ))
  rcases hlike.cases with ⟨hx, hy⟩ | ⟨r, s, s', hx, hy, hl⟩
  · rw [hx] at hfirst
    rw [hy] at hsecond
    rw [← hfirst, ← hsecond]
    rfl
  · rw [hx] at hfirst
    rw [hy] at hsecond
    rw [← hfirst, ← hsecond]
    simp only [Recorded.erase, Option.map_some, Prod.map, id, (recast_of_like hl).2]

variable {fuel : Nat} {op : Operation (Story δ)} {r : Reply}

theorem Heedless.exec (hw : w.Heedless i) (hop : op.Heedless i)
    (hexec : exec fuel op w = some (r, w')) : w'.Heedless i := by
  have hfirst := Recorded.erase_exec fuel op (⟨w, []⟩ : Recorded (Story δ))
  rw [hexec] at hfirst
  obtain ⟨⟨r', s⟩, hs, heq⟩ := Option.map_eq_some_iff.mp hfirst
  cases heq
  refine heedless_of_like fun f p => ?_
  rcases (Likeness.like_exec (hop f p) (.inl rfl) (hw.like f p) fuel).cases with
    ⟨hx, -⟩ | ⟨_, _, s', hx, -, hl⟩
  · rw [hs] at hx
    cases hx
  · rw [hs] at hx
    cases hx
    exact ⟨s', hl⟩

theorem Heedless.kept (hw : w.Heedless i) (hop : op.Heedless i)
    (hexec : World.exec fuel op w = some (r, w')) {c : Conversation δ}
    (hc : w.host.conversations[i]? = some c) :
    ∃ c', w'.host.conversations[i]? = some c' ∧ c'.config = c.config ∧ c'.phase = c.phase := by
  let f : Config → Config := fun _ => c.config
  let p : Phase → Phase := fun _ => c.phase
  have hself : w.recast i f p = w := by
    have hhost : w.host.recast i f p = w.host := by
      refine (Story.modify_congr fun c' hc' => ?_).trans (Story.modify_id w.host i)
      cases hc.symm.trans hc'
      rfl
    rw [recast, hhost]
  have hagain := exec_recast hw hop fuel f p
  rw [hself, hexec, Option.map_some, Option.some.injEq, Prod.mk.injEq] at hagain
  obtain ⟨c', hc'⟩ : ∃ c', w'.host.conversations[i]? = some c' :=
    ⟨_, List.getElem?_eq_getElem (hw.exec hop hexec).conversation⟩
  refine ⟨c'.recast f p, ?_, rfl, rfl⟩
  rw [hagain.2, recast, Story.conversation_recast, hc', Option.map_some]

theorem Oblivious.enrolled (hw : w.Oblivious w.host.conversations.length) (k : Container)
    (data : CompiledData) (config : Config) :
    (w.enrolled k data config).Heedless w.host.conversations.length := by
  refine ⟨⟨hw.handler, fun inst hinst => ?_, fun inst hinst => ?_⟩, ?_⟩
  · rcases List.mem_append.mp hinst with hold | hnew
    · exact hw.callbacks inst hold
    · obtain rfl := List.mem_singleton.mp hnew
      exact Story.heedless_dispatch _
  · rcases List.mem_append.mp hinst with hold | hnew
    · exact hw.bodies inst hold
    · obtain rfl := List.mem_singleton.mp hnew
      intro g hg arity body hslot
      obtain ⟨symbol, -, rfl⟩ := List.mem_map.mp hg
      cases hslot
  · simp [World.enrolled]

theorem oblivious_create (log : Severity → String → δ → δ) (s : Story δ) :
    (World.create (Story.logging log) s).Oblivious i :=
  ⟨fun _ _ _ _ => Reaction.respects_update (fun _ => rfl) (fun _ => rfl) trivial,
    fun _ hinst => (List.not_mem_nil hinst).elim, fun _ hinst => (List.not_mem_nil hinst).elim⟩

theorem Heedless.handle (hw : w.Heedless i) (severity : Severity) (message : String) :
    Heedless i { w with host := w.channel.handler severity message w.host } := by
  have hupdate := hw.handler severity message id id
  rw [Reaction.Respects] at hupdate
  have hhosts : (recasts (δ := δ) i id id).hosts 0 w.host (w.host.recast i id id) :=
    ⟨hw.conversation, rfl⟩
  exact ⟨hw.host _, (hupdate.1 0 _ _ hhosts).1⟩

theorem Heedless.emit (hw : w.Heedless i) (j : Nat) (e : StoryEvent) :
    Heedless i { w with host := w.host.emit j e } :=
  ⟨hw.host _, by simpa [Story.emit, Story.modify] using hw.conversation⟩

end World

namespace Telling

variable {w w' : World (Story δ)} {fuel : Nat} {externs : Externs (Story δ)} {data : CompiledData}
  {config : Config}

theorem heedless_create (hw : w.Oblivious w.host.conversations.length)
    (hexterns : ∀ name arity body, (name, .function arity body) ∈ externs.entries → ∀ args,
      (body args).Heedless w.host.conversations.length)
    (hr : (create fuel externs data config).Yields w (.ok i) w') : w'.Heedless i := by
  obtain ⟨w₁, hthreshold, -, henroll⟩ := enrolls_of_create hr
  obtain ⟨hw₁, hhost⟩ : w₁.Oblivious w.host.conversations.length ∧ w₁.host = w.host := by
    rcases hthreshold with rfl | ⟨s, a, hexec⟩
    · exact ⟨hw, rfl⟩
    · rcases fuel with _ | fuel <;> cases hexec
      exact ⟨⟨hw.handler, hw.callbacks, hw.bodies⟩, rfl⟩
  rw [← hhost] at hw₁ hexterns
  rcases enroll_cases henroll with ⟨a, message, e, -, -, heq⟩ | ⟨k, n, w₂, -, hbind, heq, rfl⟩
  · cases heq
  · cases heq
    have hbound : w₂.Heedless w₁.host.conversations.length := by
      refine Externs.preserves_bind ?_ ?_ (hw₁.enrolled k data config) hbind
      · intro name e w r w' he hw hexec
        refine hw.exec ?_ hexec
        cases e with
        | value v => exact fun _ _ => trivial
        | function arity body => exact fun f p args => hexterns name arity body he args f p
      · exact fun w severity message hw => hw.handle severity message
    exact hbound.emit _ _

end Telling

end Dialogue
