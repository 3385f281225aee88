import Dialogue.Proofs.Machine.Sequence
import Dialogue.Proofs.Machine.Sharing
import Dialogue.Proofs.Story.Registry
import Dialogue.Proofs.Value.Finite
import Dialogue.Story.Files

namespace Dialogue

/-- The values of the machine can be read from the saved state, if their numbers are finite. -/
def Snapshot.Holds {φ : Type} (s : Snapshot) (m : Machine φ) : Prop :=
  ∀ name v, m.value name = .ok v → v.Finite → ∃ j, v.toJson = .ok j ∧ s.get? name = some j ∧
    (v.Proper → SavedState.value? s name = .ok (some v))

namespace Machine

variable {φ : Type} {m m' : Machine φ} {name : String} {v : Value}

theorem IsParsed.holds_amend (hm : m.IsParsed) (s : Snapshot)
    (hvalue : ∀ name, m'.value name = m.value name) : (s.amend m.save.1).Holds m' := by
  intro name v hv hfinite
  obtain ⟨j, hj⟩ := Value.exists_toJson hfinite
  have hget : (s.amend m.save.1).get? name = some j :=
    Table.get?_merge (hm.save_value (hvalue name ▸ hv) hj)
  refine ⟨j, hj, hget, fun hproper => ?_⟩
  simp only [SavedState.value?, Snapshot.value?, hget, Option.map_some,
    Value.ofJson_toJson hproper hj]

end Machine

variable {δ : Type}

namespace World

variable {w w' : World (Story δ)} {i : Nat} {h : Handle} {m m' : HostMachine (Story δ)}
  {saved : Snapshot}

theorem machine?_diagnostics (hw : w.AtRest) (hm : w.machine? h = some m) : m.diagnostics = [] := by
  obtain ⟨k, -, hmap⟩ := Option.bind_eq_some_iff.mp hm
  obtain ⟨inst, hinst, rfl⟩ := Option.map_eq_some_iff.mp hmap
  exact congrArg Status.diagnostics (hw.idle inst (List.mem_of_getElem? hinst))

/-- The saved state is `saved`, and the machine has kept the values and the state of `m`. -/
structure Keeping (saved : Snapshot) (h : Handle) (m : HostMachine (Story δ)) (w : World (Story δ)) :
    Prop where
  rest : w.AtRest
  saved : w.host.state = saved
  machine : ∃ m', w.machine? h = some m' ∧ m'.state = m.state ∧
    ∀ name, m'.value name = m.value name

theorem Keeping.update (hw : Keeping saved h m w) {s : Story δ} (hs : s.state = w.host.state) :
    Keeping saved h m { w with host := s } :=
  ⟨hw.rest.congr rfl rfl, hs.trans hw.saved, hw.machine⟩

theorem Keeping.unsubscribe (hw : Keeping saved h m w) {name : String} {fuel : Nat} {r : Reply}
    (hexec : exec fuel (.unsubscribe h name) w = some (r, w')) : Keeping saved h m w' := by
  obtain ⟨m₁, hm₁, hstate, hvalue⟩ := hw.machine
  have hsilent : (m₁.unsubscribe name).diagnostics = [] := by
    have hnone := machine?_diagnostics hw.rest hm₁
    rcases Machine.unsubscribe_cases m₁ name with heq | ⟨g, -, heq⟩ <;> rw [heq] <;> exact hnone
  have hchange := change_silent hw.rest rfl hm₁ rfl hsilent hexec
  refine ⟨atRest_exec hw.rest hexec, ?_, m₁.unsubscribe name, ?_, ?_, fun n => ?_⟩
  · rw [hchange, host_modifyMachine]
    exact hw.saved
  · rw [hchange, machine?_modifyMachine hw.rest.sound, if_pos rfl, hm₁, Option.map_some]
  · exact (Machine.stays_unsubscribe m₁ name).state.trans hstate
  · exact ((machine?_isParsed hw.rest hm₁).value_unsubscribe name n).trans (hvalue n)

/-- The conversation of the machine is over. Nobody speaks, nothing is bound, and the values whose
numbers are finite have been saved. -/
structure Concluded (i : Nat) (h : Handle) (m : HostMachine (Story δ)) (w : World (Story δ)) :
    Prop where
  record : ∃ c, w.host.conversations[i]? = some c ∧ c.handle = h ∧ c.phase = .finished ∧
    c.speaker = none ∧ c.bindings = []
  unbound : ∀ watch ∈ w.host.watches, watch.watcher ≠ h
  saved : w.host.state.Holds m

end World

namespace Telling

open World
open Story (permits_of_isTame permits_of_isSteady)

variable {D : Nat → Handle → Prop} {w w' : World (Story δ)} {i fuel : Nat} {c : Conversation δ}
  {m : HostMachine (Story δ)} {saved : Snapshot}

theorem keeping_unbindStore :
    (unbindStore fuel i c).Maintains (Keeping (δ := δ) saved c.handle m) := by
  unfold unbindStore
  refine maintains_bind (maintains_conversation? i) fun own => ?_
  refine maintains_bind (maintains_update fun w hw => hw.update rfl) fun _ => ?_
  refine maintains_bind maintains_story fun s => ?_
  split
  · refine maintains_bind (maintains_forIn (fun b _ => ?_) _) fun _ => maintains_pure _
    refine maintains_bind (maintains_update fun w hw => hw.update rfl) fun _ => ?_
    refine maintains_bind (maintains_perform fun w r w' hw hexec => ?_) fun _ => maintains_pure _
    exact hw.unsubscribe hexec
  · exact maintains_pure _

theorem keeping_save {a : Reply} (hw : w.AtRest) (hm : w.machine? c.handle = some m)
    (hexec : exec fuel (.save c.handle) w = some (a, w')) :
    a = .snapshot (some m.save.1) ∧ Keeping w'.host.state c.handle m w' := by
  obtain ⟨hreply, messages, hlogs⟩ := change_eq hw rfl hexec
  rw [hm] at hreply
  refine ⟨hreply, atRest_exec hw hexec, rfl, { m.save.2 with diagnostics := [] }, ?_, rfl,
    fun _ => rfl⟩
  rw [hlogs]
  change (w.modifyMachine c.handle _).machine? c.handle = _
  rw [machine?_modifyMachine hw.sound, if_pos rfl, hm]
  rfl

theorem unbound_of_registered (hw : Registered D [] w) (hc : w.host.conversations[i]? = some c)
    (hphase : c.phase ≠ .destroyed) (hbindings : c.bindings = []) :
    ∀ watch ∈ w.host.watches, watch.watcher ≠ c.handle := by
  intro watch hwatch heq
  obtain ⟨j, own, hown, hhandle, hlive, hbound⟩ := hw.books.owner hwatch
  have hroute := (hw.books.route c.handle j).mpr ⟨own, hown, hhandle.trans heq, hlive⟩
  rw [(hw.books.route c.handle i).mpr ⟨c, hc, rfl, hphase⟩, Option.some.injEq] at hroute
  subst hroute
  obtain rfl : c = own := Option.some.inj (hc.symm.trans hown)
  exact hbound hbindings

theorem finish_steps {r : Except StoryError Unit} (hw : w.AtRest)
    (hc : w.host.conversations[i]? = some c) (hphase : c.phase = .started)
    (hm : w.machine? c.handle = some m) (hr : (finish fuel i).Yields w r w') :
    r = .ok () ∧ ∃ a w₁ w₂, exec fuel (.save c.handle) w = some (a, w₁) ∧
      (unbindStore fuel i c).Yields { w₁ with
        host := Story.stopSpeaker { w₁.host with state := w₁.host.state.amend m.save.1 } i }
        (.ok ()) w₂ ∧
      w' = { w₂ with host := (w₂.host.modify i fun c => { c with phase := .finished }).emit i .ended } := by
  unfold finish at hr
  rw [yields_conversation?_bind, hc] at hr
  simp only [hphase, ne_eq, not_true_eq_false, if_false, saveState, bind_assoc] at hr
  rw [yields_alive_bind hc (by simp [hphase])] at hr
  obtain ⟨a, w₁, hexec, hr⟩ := yields_perform_bind.mp hr
  obtain ⟨rfl, -⟩ := keeping_save hw hm hexec
  rw [pure_bind, yields_update_bind] at hr
  rcases yields_bind.mp hr with ⟨⟨⟩, w₂, hunbind, hr⟩ | ⟨e, hunbind, -⟩
  · obtain ⟨rfl, rfl⟩ := yields_update.mp hr
    exact ⟨rfl, _, w₁, w₂, hexec, hunbind, rfl⟩
  · obtain ⟨u, heq⟩ := succeeds_unbindStore fuel i c _ _ _ hunbind
    cases heq

theorem kept_of_finish {r : Except StoryError Unit} (hw : w.AtRest)
    (hc : w.host.conversations[i]? = some c) (hphase : c.phase = .started)
    (hm : w.machine? c.handle = some m) (hr : (finish fuel i).Yields w r w') :
    ∃ a w₁, exec fuel (.save c.handle) w = some (a, w₁) ∧
      Keeping (w₁.host.state.amend m.save.1) c.handle m w' := by
  obtain ⟨-, a, w₁, w₂, hexec, hunbind, rfl⟩ := finish_steps hw hc hphase hm hr
  obtain ⟨-, hkeeping⟩ := keeping_save hw hm hexec
  have hkept : Keeping (w₁.host.state.amend m.save.1) c.handle m { w₁ with
      host := Story.stopSpeaker { w₁.host with state := w₁.host.state.amend m.save.1 } i } := by
    refine ⟨hkeeping.rest.congr rfl rfl, ?_, hkeeping.machine⟩
    unfold Story.stopSpeaker
    split <;> rfl
  exact ⟨a, w₁, hexec, (keeping_unbindStore _ _ _ hkept hunbind).update rfl⟩

theorem held_of_finish {r : Except StoryError Unit} (hw : w.AtRest)
    (hc : w.host.conversations[i]? = some c) (hphase : c.phase = .started)
    (hm : w.machine? c.handle = some m) (hr : (finish fuel i).Yields w r w') :
    ∃ m', w'.machine? c.handle = some m' ∧ m'.state = m.state ∧ w'.host.state.Holds m' := by
  obtain ⟨a, w₁, -, -, hstate, m', hm', hsame, hvalue⟩ := kept_of_finish hw hc hphase hm hr
  refine ⟨m', hm', hsame, ?_⟩
  have hholds := (machine?_isParsed hw hm).holds_amend w₁.host.state hvalue
  rwa [← hstate] at hholds

theorem concluded_of_finish {r : Except StoryError Unit} (hw : Registered D [] w)
    (hc : w.host.conversations[i]? = some c) (hphase : c.phase = .started)
    (hm : w.machine? c.handle = some m) (hr : (finish fuel i).Yields w r w') :
    r = .ok () ∧ ∃ m', w'.machine? c.handle = some m' ∧ m'.state = m.state ∧
      Concluded i c.handle m' w' := by
  have hlive : c.phase ≠ .destroyed := by simp [hphase]
  obtain ⟨m', hm', hsame, hholds⟩ := held_of_finish hw.rest hc hphase hm hr
  obtain ⟨rfl, a, w₁, w₂, hexec, hunbind, rfl⟩ := finish_steps hw.rest hc hphase hm hr
  have hw₁ : Registered D [] { w₁ with
      host := { w₁.host with state := w₁.host.state.amend m.save.1 } } :=
    (hw.exec (permits_of_isSteady rfl) hexec).update rfl
  obtain ⟨c₁, hc₁, hentry⟩ :=
    Story.exists_of_entries (congrArg (·.2.1) (kept_exec hw.orderly
      (permits_of_isSteady rfl) hexec).2).symm hc
  have hhandle₁ : c₁.handle = c.handle := congrArg (·.1) hentry
  have hlive₁ : c₁.phase ≠ .destroyed := (congrArg (·.2.1) hentry).trans_ne hlive
  obtain ⟨-, hw₂, c₂, hc₂, hhandle, hphase₂, hspeaker, hbindings⟩ :=
    hushed_of_unbindStore hw₁ hc₁ hhandle₁ hlive₁ hunbind
  have hunbound := unbound_of_registered hw₂ hc₂ hphase₂ hbindings
  rw [hhandle] at hunbound
  let c' : Conversation δ := { c₂ with phase := .finished, events := c₂.events ++ [.ended] }
  refine ⟨rfl, m', hm', hsame, ⟨c', ?_, hhandle, rfl, hspeaker, hbindings⟩, hunbound, hholds⟩
  simp [Story.modify, Story.emit, hc₂, Conversation.emit, c']

theorem finish_cases (hw : Registered D [] w) (hc : w.host.conversations[i]? = some c)
    (hm : w.machine? c.handle = some m) (hr : (finish fuel i).Yields w (.ok ()) w') :
    (c.phase = .started → ∀ m', w'.machine? c.handle = some m' → Concluded i c.handle m' w') ∧
      (c.phase ≠ .started → w' = w) := by
  refine ⟨fun hphase m' hm' => ?_, fun hphase => ?_⟩
  · obtain ⟨-, m₁, hm₁, -, hconcluded⟩ := concluded_of_finish hw hc hphase hm hr
    obtain rfl : m₁ = m' := Option.some.inj (hm₁.symm.trans hm')
    exact hconcluded
  · exact ((yields_finish_of_ne_started hc hphase).mp hr).2

theorem concluded_of_tick (hw : Registered D [] w) (hc : w.host.conversations[i]? = some c)
    (hlive : c.phase ≠ .destroyed) (hr : (tick fuel i).Yields w (.ok .finished) w')
    (hm : w'.machine? c.handle = some m) (hend : m.state = .finished) :
    (c.phase = .started → Concluded i c.handle m w') ∧
    (c.phase ≠ .started → w' = w ∨
      ∃ a, exec fuel (.run c.handle) { w with host := w.host.clearPending i } = some (a, w')) := by
  -- While it waits, the machine has not come to its end, whatever is pending.
  have hwaits {w₁ : World (Story δ)} {m₁ : HostMachine (Story δ)} {kind : WaitKind}
      (hm₁ : w₁.machine? c.handle = some m₁) (hstate : m₁.state = .waiting kind)
      (hr : (pending i).Yields w₁ (.ok .finished) w') : False := by
    obtain ⟨-, rfl⟩ := yields_pending.mp hr
    obtain rfl : m = m₁ := Option.some.inj (hm.symm.trans hm₁)
    cases hend.symm.trans hstate
  cases tick_cases hw.rest hc hlive hr with
  | refused _ _ hr | lost _ _ hr => cases hr
  | waiting hm₁ hstate hr => exact (hwaits hm₁ hstate hr).elim
  | ended hm₁ hstate hr =>
    obtain ⟨hconcluded, hsame⟩ := finish_cases hw hc hm₁ (yields_finishSlice.mp hr).1
    exact ⟨fun hphase => hconcluded hphase m hm, fun hphase => .inl (hsame hphase)⟩
  | ran _ _ hexec hran =>
    have hcleared : (w.host.clearPending i).ledger = w.host.ledger :=
      Story.ledger_modify rfl i fun _ => rfl
    have hw₁ := hw.update hcleared
    have hpermits : Story.bookkeeping.Permits (.run c.handle : Operation (Story δ)) :=
      permits_of_isTame rfl
    have hledger := (kept_exec hw₁.orderly hpermits hexec).2.trans hcleared
    obtain ⟨c₂, hc₂, hentry⟩ := Story.exists_of_entries (congrArg (·.2.1) hledger).symm hc
    have hhandle : c₂.handle = c.handle := congrArg (·.1) hentry
    have hphase : c₂.phase = c.phase := congrArg (·.2.1) hentry
    cases hran with
    | waits _ hm₂ hstate hr => exact (hwaits hm₂ hstate hr).elim
    | ends _ hm₂ _ hr =>
      obtain ⟨hconcluded, hsame⟩ := finish_cases (hw₁.exec hpermits hexec) hc₂ (hhandle ▸ hm₂)
        (yields_finishSlice.mp hr).1
      rw [hphase, hhandle] at hconcluded
      rw [hphase] at hsame
      exact ⟨fun h => hconcluded h m hm, fun h => .inr ⟨_, hsame h ▸ hexec⟩⟩
    | goesOn _ _ _ hr | fails _ _ hr | lost _ _ hr => cases hr

end Telling

namespace Story

variable {w w' : World (Story δ)} {i fuel : Nat} {c : Conversation δ} {m : HostMachine (Story δ)}

/-- When a tick finds the machine at its end, the values of its variables have been saved, nobody
speaks and nothing is bound, if the conversation has not been finished since its start. Otherwise
the tick is nothing but a run, and what the run changes is not saved. -/
theorem Supervised.concluded (hw : Supervised w) (hc : w.host.conversations[i]? = some c)
    (hlive : c.phase ≠ .destroyed) (htick : (Telling.tick fuel i).Yields w (.ok .finished) w')
    (hm : w'.machine? c.handle = some m) (hend : m.state = .finished) :
    (c.phase = .started → World.Concluded i c.handle m w') ∧
    (c.phase ≠ .started → w' = w ∨ ∃ a,
      World.exec fuel (.run c.handle) { w with host := w.host.clearPending i } = some (a, w')) :=
  Telling.concluded_of_tick hw.registered hc hlive htick hm hend

def diary : List Builder.Call :=
  [.scriptVariable "met", .bough "main", .set 0 (.bool true), .stop]

theorem concluded_diary : ∃ (w w' : World (Story Unit)) (c : Conversation Unit)
    (m : HostMachine (Story Unit)), Supervised w ∧ w.host.conversations[0]? = some c ∧
      c.phase = .started ∧ (Telling.tick 9 0).Yields w (.ok .finished) w' ∧
        w'.machine? c.handle = some m ∧ m.value "met" = .ok (.bool true) ∧
          World.Concluded 0 c.handle m w' := by
  let w₀ : World (Story Unit) := .create (fun _ _ s => s) (.create ())
  have h : (do
      let bytes ← (Builder.run .offset diary).build.toOption
      let data ← (CompiledData.ofBytes bytes).toOption
      let x ← ((Act.create .empty data {}).telling 9).run.run w₀
      let y ← ((Act.start 0).telling 9).run.run x.2
      let c ← y.2.host.conversations[0]?
      let z ← (Telling.tick 9 0).run.run y.2
      let m ← z.2.machine? c.handle
      let met ← (m.value "met").toOption
      return (decide (c.phase = .started), decide (z.1 = .ok .finished), decide (m.state = .finished),
        met == .bool true)) = some (true, true, true, true) := by
    decide +kernel
  obtain ⟨bytes, -, h⟩ := Option.bind_eq_some_iff.mp h
  obtain ⟨data, -, h⟩ := Option.bind_eq_some_iff.mp h
  obtain ⟨⟨r₁, w₁⟩, hcreate, h⟩ := Option.bind_eq_some_iff.mp h
  obtain ⟨⟨r₂, w⟩, hstart, h⟩ := Option.bind_eq_some_iff.mp h
  obtain ⟨c, hc, h⟩ := Option.bind_eq_some_iff.mp h
  obtain ⟨⟨r, w'⟩, htick, h⟩ := Option.bind_eq_some_iff.mp h
  obtain ⟨m, hm, h⟩ := Option.bind_eq_some_iff.mp h
  obtain ⟨met, hmet, h⟩ := Option.bind_eq_some_iff.mp h
  simp only [pure, Option.some.injEq, Prod.mk.injEq, decide_eq_true_eq] at h
  obtain ⟨hphase, rfl, hend, htrue⟩ := h
  rw [Telling.eq_bool_of_beq htrue] at hmet
  have hw₀ : Supervised w₀ := .create (fun _ _ s => .refl s) rfl rfl rfl
  have hroom : (Arena.empty : Arena Nat).HasRoom := show 0 < UInt32.size by decide
  have hobeys : (Act.create .empty data {} : Act Unit).Obeys bookkeeping := by
    intro name arity body hmem
    cases hmem
  have hw₁ := hw₀.step (.act hobeys hroom hcreate)
  have hw := hw₁.step (.act (by trivial) (by trivial) hstart)
  have hconcluded := (Supervised.concluded hw hc (by simp [hphase]) htick hm hend).1 hphase
  exact ⟨w, w', c, m, hw, hc, hphase, htick, hm, Except.toOption_eq_some_iff.mp hmet, hconcluded⟩

end Story

end Dialogue
