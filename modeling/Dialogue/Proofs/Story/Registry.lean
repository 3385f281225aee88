import Dialogue.Proofs.Story.Awaiting
import Dialogue.Proofs.Story.Binding
import Dialogue.Proofs.Story.Completion
import Dialogue.Proofs.Story.Ledger
import Mathlib.Logic.Relation

/-!
The conversations of a library, from their creation to their destruction. Routes lead to the live
machines, these belong to the conversations that have not been destroyed, and the watches in the
store are their bindings. A conversation that has been destroyed leaves nothing behind and refuses
everything from then on.
-/

namespace Dialogue

variable {δ : Type}

def Operation.keepsMachines {ε : Type} : Operation ε → Bool
  | create .. | destroy _ => false
  | _ => true

namespace Story

structure Respects (s s' : Story δ) : Prop where
  ledger : s'.ledger = s.ledger
  speakers : s'.conversations.map (·.speaker) = s.conversations.map (·.speaker)

theorem Respects.refl (s : Story δ) : Respects s s := ⟨rfl, rfl⟩

theorem Respects.trans {s s' s'' : Story δ} (hs : Respects s s') (hs' : Respects s' s'') :
    Respects s s'' :=
  ⟨hs'.ledger.trans hs.ledger, hs'.speakers.trans hs.speakers⟩

/-- Host code that neither creates nor destroys machines, and leaves the books to the
conversations. -/
def bookkeeping : Discipline (Story δ) where
  performs op := op.keepsMachines = true
  changes := Respects
  trusts callbacks := callbacks = dispatch

theorem bounds_bookkeeping :
    (bookkeeping (δ := δ)).Bounds fun s s' => s'.ledger = s.ledger where
  refl _ := rfl
  trans hs hs' := hs'.trans hs
  idle := .refl
  changes hs := hs.ledger
  trusts := by
    rintro c rfl h e s
    refine upholds_dispatch (fun _ _ _ => ⟨rfl, trivial⟩) (fun _ _ => ⟨rfl, trivial⟩) rfl ?_ ?_
    · exact fun name v store told hshare => ledger_share hshare
    · exact fun j s' _ hs' => (ledger_hear s' j e).trans hs'

abbrev custody : Conduct (Story δ) :=
  bookkeeping.conduct bounds_bookkeeping (L := fun op => op.keepsMachines = true) id

theorem permits_of_isTame {op : Operation (Story δ)} (hop : op.isTame = true) :
    bookkeeping.Permits op := by
  cases op <;> first | exact ⟨rfl, trivial⟩ | cases hop

theorem permits_of_isSteady {op : Operation (Story δ)} (hop : op.isSteady = true) :
    bookkeeping.Permits op :=
  permits_of_isTame (Operation.isTame_of_isSteady hop)

end Story

namespace World

open Story (Books Respects bookkeeping custody permits_of_isTame permits_of_isSteady)

variable {D : Nat → Handle → Prop} {ws : List (Watch Handle)} {w w' : World (Story δ)} {h : Handle}
  {i : Nat} {c : Conversation δ} {bs : List (String × Nat)} {fuel : Nat} {op : Operation (Story δ)}
  {r : Reply} {s : Story δ}

/-- The library is at rest, the machines are those that routes lead to, and the books balance. -/
structure Registered (D : Nat → Handle → Prop) (ws : List (Watch Handle)) (w : World (Story δ)) :
    Prop where
  orderly : custody.Orderly none w
  rest : w.AtRest
  alive : ∀ h, (∃ i, w.host.route? h = some i) ↔ ∃ k, w.arena.get? h = some k
  books : w.host.Books D ws

theorem orderly_ledger_exec (hw : custody.Orderly none w) (hop : op.Grants bookkeeping)
    (hexec : exec fuel op w = some (r, w')) :
    custody.Orderly none w' ∧ w'.host.ledger = w.host.ledger := by
  obtain ⟨hw', hcontinues⟩ := Conduct.preserves_exec (C := bookkeeping.conduct
    Story.bounds_bookkeeping (L := fun _ => True) fun _ => trivial) ⟨trivial, hop⟩ hexec
    ⟨hw.handler, hw.callbacks, hw.bodies, hw.clear, hw.sound, hw.housed⟩
  exact ⟨⟨hw'.handler, hw'.callbacks, hw'.bodies, hw'.clear, hw'.sound, hw'.housed⟩, hcontinues.host⟩

theorem orderly_exec (hw : custody.Orderly none w) (hop : op.Grants bookkeeping)
    (hexec : exec fuel op w = some (r, w')) : custody.Orderly none w' :=
  (orderly_ledger_exec hw hop hexec).1

theorem kept_exec (hw : custody.Orderly none w) (hop : bookkeeping.Permits op)
    (hexec : exec fuel op w = some (r, w')) :
    w'.arena = w.arena ∧ w'.host.ledger = w.host.ledger := by
  have hcontinues := (Conduct.preserves_exec (C := custody) hop hexec hw).2
  refine ⟨hcontinues.arena ⟨fun _ _ hcreate => ?_, fun _ hdestroy => ?_⟩, hcontinues.host⟩
  · cases hcreate.1
  · cases hdestroy.1

theorem Registered.restage (hw : Registered D ws w) {D' : Nat → Handle → Prop}
    {ws' : List (Watch Handle)} (hroute : ∀ h, s.route? h = w.host.route? h)
    (hbooks : s.Books D' ws') : Registered D' ws' { w with host := s } := by
  refine ⟨hw.orderly.host s, hw.rest.congr rfl rfl, fun h => ?_, hbooks⟩
  simp only [hroute]
  exact hw.alive h

theorem Registered.update (hw : Registered D ws w) (hledger : s.ledger = w.host.ledger) :
    Registered D ws { w with host := s } := by
  refine hw.restage (fun h => ?_) (hw.books.congr hledger)
  rw [Story.route?, show s.routes = w.host.routes from congrArg (·.1) hledger, Story.route?]

theorem Registered.exec (hw : Registered D ws w) (hop : bookkeeping.Permits op)
    (hexec : exec fuel op w = some (r, w')) : Registered D ws w' := by
  obtain ⟨harena, hledger⟩ := kept_exec hw.orderly hop hexec
  obtain ⟨-, -, halive, hbooks⟩ := hw.update hledger
  refine ⟨orderly_exec hw.orderly hop.2 hexec, atRest_exec hw.rest hexec, fun h => ?_, hbooks⟩
  rw [harena]
  exact halive h

theorem Registered.respects (hw : Registered D ws w) {ch : Change (Story δ)}
    (hc : op.change? = some ch) (hexec : World.exec fuel op w = some (r, w')) :
    Respects w.host w'.host := by
  obtain ⟨-, messages, heq⟩ := change_eq hw.rest hc hexec
  have hhandler (severity : Severity) (message : String) (s : Story δ) :
      Respects s (w.channel.handler severity message s) :=
    hw.orderly.handler severity message s
  rw [heq]
  simp only [channel_modifyMachine, host_modifyMachine]
  clear heq
  generalize w.host = s
  induction messages generalizing s with
  | nil => exact .refl s
  | cons m messages ih => exact (hhandler m.1 m.2 s).trans (ih _)

/-- The conversation `i` of the machine has not been destroyed and has the bindings `bs`. -/
structure Holding (D : Nat → Handle → Prop) (ws : List (Watch Handle)) (h : Handle) (i : Nat)
    (bs : List (String × Nat)) (w : World (Story δ)) : Prop extends Registered D ws w where
  own : ∃ c, w.host.conversations[i]? = some c ∧ c.handle = h ∧ c.phase ≠ .destroyed ∧
    c.bindings = bs

def Live (D : Nat → Handle → Prop) (h : Handle) (i : Nat) (w : World (Story δ)) : Prop :=
  ∃ bs, Holding D [] h i bs w

theorem Holding.of_ledger (hw : Holding D ws h i bs w) (hw' : Registered D ws w')
    (hledger : w'.host.ledger = w.host.ledger) : Holding D ws h i bs w' := by
  obtain ⟨c, hc, rfl, hphase, rfl⟩ := hw.own
  obtain ⟨c', hc', heq⟩ := Story.exists_of_entries (congrArg (·.2.1) hledger).symm hc
  refine ⟨hw', c', hc', congrArg (·.1) heq, ?_, congrArg (·.2.2) heq⟩
  rwa [show c'.phase = c.phase from congrArg (·.2.1) heq]

theorem Holding.update (hw : Holding D ws h i bs w) (hledger : s.ledger = w.host.ledger) :
    Holding D ws h i bs { w with host := s } :=
  hw.of_ledger (hw.toRegistered.update hledger) hledger

theorem Holding.exec (hw : Holding D ws h i bs w) (hop : bookkeeping.Permits op)
    (hexec : World.exec fuel op w = some (r, w')) : Holding D ws h i bs w' :=
  hw.of_ledger (hw.toRegistered.exec hop hexec) (kept_exec hw.orderly hop hexec).2

theorem Registered.live (hw : Registered D [] w) (hc : w.host.conversations[i]? = some c)
    (hphase : c.phase ≠ .destroyed) : Live D c.handle i w :=
  ⟨c.bindings, hw, c, hc, rfl, hphase, rfl⟩

end World

namespace Telling

open World
open Story (Respects bookkeeping custody permits_of_isTame permits_of_isSteady)

variable {D : Nat → Handle → Prop} {ws : List (Watch Handle)} {w w' : World (Story δ)} {h : Handle}
  {i : Nat} {c : Conversation δ} {bs : List (String × Nat)} {fuel : Nat}

theorem live_watchVariable {name : String} (hw : Holding D [] c.handle i bs w)
    (hname : name ∉ bs.map (·.1)) {r : Except StoryError Unit}
    (hr : (watchVariable fuel i c name).Yields w r w') : Live D c.handle i w' := by
  obtain ⟨a, w₁, hexec, hr⟩ := yields_perform_bind.mp hr
  have hw₁ := hw.exec (permits_of_isSteady rfl) hexec
  rw [yields_story_bind] at hr
  split at hr
  · rename_i store hstore
    obtain ⟨-, rfl⟩ := yields_update.mp hr
    obtain ⟨own, hown, hhandle, hphase, rfl⟩ := hw₁.own
    have hbound : own.isBound name = false := by
      rw [Conversation.isBound, List.any_eq_false]
      intro b hb heq
      exact hname (List.mem_map.mpr ⟨b, hb, eq_of_beq heq⟩)
    have hbooks := hw₁.books.bind hstore hown hphase hbound
    rw [hhandle] at hbooks
    refine ⟨_, hw₁.toRegistered.restage (fun _ => rfl) hbooks,
      { own with bindings := own.bindings ++ [(name, store.nextId)] }, ?_, hhandle, hphase, rfl⟩
    simp [Story.modify, hown]
  · obtain ⟨-, rfl⟩ := yields_pure.mp hr
    exact ⟨bs, hw₁⟩

theorem live_bindVariable (name : String) :
    (bindVariable fuel i c name).Maintains (Live D c.handle i) := by
  rintro w r w' ⟨bs, hw⟩ hr
  unfold bindVariable at hr
  rw [yields_conversation?_bind] at hr
  simp only at hr
  obtain ⟨own, hown, -, -, hbindings⟩ := hw.own
  split at hr
  · obtain ⟨-, rfl⟩ := yields_pure.mp hr
    exact ⟨bs, hw⟩
  · rename_i hlacks
    have hname : name ∉ bs.map (·.1) := by
      intro hmem
      obtain ⟨b, hb, rfl⟩ := List.mem_map.mp hmem
      have hbound : own.isBound b.1 = true :=
        List.any_eq_true.mpr ⟨b, hbindings ▸ hb, beq_self_eq_true _⟩
      simp [hown, hbound] at hlacks
    rw [yields_story_bind] at hr
    split at hr
    · obtain ⟨a, w₁, hexec, hr⟩ := yields_perform_bind.mp hr
      exact live_watchVariable (hw.exec (permits_of_isSteady rfl) hexec) hname hr
    · exact live_watchVariable hw hname hr

theorem unbind_loop {u : PUnit} {r : Except StoryError PUnit}
    (hw : Holding D (bs.map fun b => ⟨b.2, b.1, h⟩) h i [] w)
    (hr : (forIn bs u fun b _ => do
      update fun s : Story δ => { s with store := s.store.map (·.unwatch b.2) }
      let _ ← perform fuel (.unsubscribe h b.1)
      pure (.yield .unit) : Telling δ PUnit).Yields w r w') :
    (∃ u, r = .ok u) ∧ Holding D [] h i [] w' ∧
      w'.host.conversations.map (·.speaker) = w.host.conversations.map (·.speaker) := by
  induction bs generalizing u w with
  | nil =>
    obtain ⟨rfl, rfl⟩ := yields_pure.mp hr
    exact ⟨⟨u, rfl⟩, hw, rfl⟩
  | cons b bs ih =>
    rw [List.forIn_cons] at hr
    obtain ⟨own, hown, hhandle, hphase, hbindings⟩ := hw.own
    have hw₁ : Holding D (bs.map fun b => ⟨b.2, b.1, h⟩) h i []
        { w with host := { w.host with store := w.host.store.map (·.unwatch b.2) } } :=
      ⟨hw.toRegistered.restage (fun _ => rfl) hw.books.unwatch, own, hown, hhandle, hphase, hbindings⟩
    rcases yields_bind.mp hr with ⟨step, w₂, hstep, hr⟩ | ⟨e, hstep, -⟩
    · obtain ⟨a, w₃, hexec, hstep⟩ := yields_perform_bind.mp (yields_update_bind.mp hstep)
      obtain ⟨heq, rfl⟩ := yields_pure.mp hstep
      cases heq
      obtain ⟨hu, hw', hspeakers⟩ := ih (hw₁.exec (permits_of_isSteady rfl) hexec) hr
      exact ⟨hu, hw', hspeakers.trans (hw₁.toRegistered.respects rfl hexec).speakers⟩
    · obtain ⟨a, w₃, hexec, hstep⟩ := yields_perform_bind.mp (yields_update_bind.mp hstep)
      cases (yields_pure.mp hstep).1

theorem holding_of_unbindStore {r : Except StoryError Unit} (hw : Live D c.handle i w)
    (hr : (unbindStore fuel i c).Yields w r w') : r = .ok () ∧ Holding D [] c.handle i [] w' ∧
      w'.host.conversations.map (·.speaker) = w.host.conversations.map (·.speaker) := by
  obtain ⟨bs, hw⟩ := hw
  obtain ⟨own, hown, hhandle, hphase, rfl⟩ := hw.own
  unfold unbindStore at hr
  rw [yields_conversation?_bind] at hr
  simp only [hown, Option.map_some, Option.getD_some, yields_update_bind, yields_story_bind] at hr
  have hreleased : Holding D (own.bindings.map fun b => ⟨b.2, b.1, c.handle⟩) c.handle i []
      { w with host := w.host.modify i fun c => { c with bindings := [] } } := by
    have hbooks := hw.books.release hown hphase
    rw [Conversation.watches, hhandle] at hbooks
    refine ⟨hw.toRegistered.restage (fun _ => rfl) hbooks, { own with bindings := [] }, ?_, hhandle,
      hphase, rfl⟩
    simp [Story.modify, hown]
  have hspeakers : (w.host.modify i fun c => { c with bindings := [] }).conversations.map
      (·.speaker) = w.host.conversations.map (·.speaker) :=
    Story.map_modify _ _ fun _ => rfl
  split at hr
  · rcases yields_bind.mp hr with ⟨u, w₁, hloop, hr⟩ | ⟨e, hloop, -⟩
    · obtain ⟨rfl, rfl⟩ := yields_pure.mp hr
      obtain ⟨-, hw', hsame⟩ := unbind_loop hreleased hloop
      exact ⟨rfl, hw', hsame.trans hspeakers⟩
    · obtain ⟨⟨u, hok⟩, -⟩ := unbind_loop hreleased hloop
      cases hok
  · rename_i hstore
    obtain ⟨rfl, rfl⟩ := yields_pure.mp hr
    -- Without a store there are no watches, and so no bindings.
    have hnone : (w.host.modify i fun c => { c with bindings := [] }).watches = [] := by
      rw [Story.watches, Option.not_isSome_iff_eq_none.mp hstore]
      rfl
    have hperm := hreleased.books.watches
    rw [hnone] at hperm
    have hnil := (List.append_eq_nil_iff.mp hperm.nil_eq.symm).1
    rw [hnil] at hreleased
    exact ⟨rfl, hreleased, hspeakers⟩

theorem hushed_of_unbindStore {own : Conversation δ} {r : Except StoryError Unit}
    (hw : Registered D [] w) (hown : w.host.conversations[i]? = some own)
    (hhandle : own.handle = c.handle) (hphase : own.phase ≠ .destroyed)
    (hr : (unbindStore fuel i c).Yields { w with host := w.host.stopSpeaker i } r w') :
    r = .ok () ∧ Registered D [] w' ∧ ∃ c', w'.host.conversations[i]? = some c' ∧
      c'.handle = c.handle ∧ c'.phase ≠ .destroyed ∧ c'.speaker = none ∧ c'.bindings = [] := by
  obtain ⟨c₁, hc₁, hspeaker, hentry⟩ := Story.silent_stopSpeaker hown
  have hlive : Live D c.handle i { w with host := w.host.stopSpeaker i } := by
    have h := (hw.update (Story.ledger_stopSpeaker w.host i)).live hc₁
      ((congrArg (·.2.1) hentry).trans_ne hphase)
    have hsame : c₁.handle = c.handle := (congrArg (·.1) hentry).trans hhandle
    rwa [hsame] at h
  obtain ⟨hok, hw', hspeakers⟩ := holding_of_unbindStore hlive hr
  obtain ⟨c', hc', hhandle', hphase', hbindings⟩ := hw'.own
  have hsilent : c'.speaker = none := by
    have h := congrArg (·[i]?) hspeakers
    simp only [List.getElem?_map, hc', hc₁, Option.map_some, Option.some.injEq] at h
    exact h.trans hspeaker
  exact ⟨hok, hw'.toRegistered, c', hc', hhandle', hphase', hsilent, hbindings⟩

theorem serves_live (h : Handle) (i : Nat) : Serves h i (Live (δ := δ) D h i) where
  exec hop hw hexec := hw.imp fun _ hw => hw.exec (permits_of_isSteady hop) hexec
  play hop hw hexec := hw.imp fun _ hw => hw.exec (permits_of_isTame hop.isTame) hexec
  modify hf := by
    rintro ⟨bs, hw⟩
    obtain ⟨c, hc, rfl, hphase, rfl⟩ := hw.own
    refine ⟨_, hw.toRegistered.restage (fun _ => rfl) (hw.books.proceed hc hphase (hf c)), _, ?_,
      (hf c).handle, (hf c).phase hphase, (hf c).bindings⟩
    simp [Story.modify, hc]
  silence hw := hw.imp fun _ hw => hw.update (Story.ledger_stopSpeaker _ i)
  bindStore fuel c hc := by
    subst hc
    have hsteady : Steady (Live (δ := δ) D c.handle i) :=
      ⟨fun hop hw hexec => hw.imp fun _ hw => hw.exec (permits_of_isSteady hop) hexec⟩
    exact hsteady.bindStore fuel live_bindVariable
  unbindStore fuel c hc := by
    subst hc
    exact fun w r w' hw hr => ⟨[], (holding_of_unbindStore hw hr).2.1⟩

theorem tended_registered (i : Nat) :
    Tended i (Registered (δ := δ) D []) fun h => Live D h i where
  enter hw hc hphase := hw.live hc hphase
  leave _ _ hw := hw.choose_spec.toRegistered
  serves h := serves_live h i
  host _ hw := hw.update rfl

structure Left (i : Nat) (h : Handle) (w : World (Story δ)) : Prop where
  route : w.host.route? h = none
  machine : w.arena.get? h = none
  watches : ∀ watch ∈ w.host.watches, watch.watcher ≠ h
  record : ∃ c, w.host.conversations[i]? = some c ∧ c.handle = h ∧ c.phase = .destroyed ∧
    c.speaker = none ∧ c.bindings = []

theorem left_of_registered (hw : Registered D [] w) (hget : w.arena.get? h = none)
    (hc : w.host.conversations[i]? = some c) (hhandle : c.handle = h) (hphase : c.phase = .destroyed)
    (hspeaker : c.speaker = none) : Left i h w := by
  have hroute : w.host.route? h = none := by
    cases hroute : w.host.route? h with
    | none => rfl
    | some j =>
      obtain ⟨k, hk⟩ := (hw.alive h).mp ⟨j, hroute⟩
      rw [hget] at hk
      cases hk
  refine ⟨hroute, hget, ?_, c, hc, hhandle, hphase, hspeaker,
    hw.books.unbound c (List.mem_of_getElem? hc) hphase⟩
  rintro watch hwatch rfl
  obtain ⟨j, own, hj, hown, hlive, -⟩ := hw.books.owner hwatch
  rw [(hw.books.route _ j).mpr ⟨own, hj, hown, hlive⟩] at hroute
  cases hroute

theorem left_of_destroy {r : Except StoryError Bool} (hw : Registered D [] w)
    (hc : w.host.conversations[i]? = some c) (hphase : c.phase ≠ .destroyed)
    (hr : (destroy fuel i).Yields w r w') : r = .ok true ∧
      Registered (fun j h => D j h ∨ j = i ∧ h = c.handle) [] w' ∧ Left i c.handle w' := by
  unfold destroy at hr
  rw [yields_conversation?_bind, hc] at hr
  simp only [if_neg hphase, yields_update_bind] at hr
  rcases yields_bind.mp hr with ⟨u, w₂, hunbind, hr⟩ | ⟨e, hunbind, -⟩
  · obtain ⟨-, hw₂, own, hown, hhandle, hphase₂, hsilent, hbindings⟩ :=
      hushed_of_unbindStore hw hc rfl hphase hunbind
    rw [yields_update_bind] at hr
    obtain ⟨a, w₃, hexec, hr⟩ := yields_perform_bind.mp hr
    rw [yields_update_bind] at hr
    obtain ⟨rfl, rfl⟩ := yields_pure.mp hr
    have hroute := (hw₂.books.route c.handle i).mpr ⟨own, hown, hhandle, hphase₂⟩
    obtain ⟨k, hk⟩ := (hw₂.alive c.handle).mp ⟨i, hroute⟩
    have horderly := orderly_exec (hw₂.orderly.host _) (by trivial) hexec
    have hrest : w₃.AtRest := by
      refine atRest_exec ?_ hexec
      exact hw₂.rest.congr rfl rfl
    obtain ⟨arena, harena, rfl⟩ : ∃ arena, w₂.arena.remove? c.handle = some arena ∧
        w₃ = { w₂ with
          arena := arena
          host := { w₂.host with routes := w₂.host.routes.filter (·.1 != c.handle) } } := by
      rcases fuel with _ | fuel
      · cases hexec
      · have harena : ∃ arena, w₂.arena.remove? c.handle = some arena := by simp [Arena.remove?, hk]
        obtain ⟨arena, harena⟩ := harena
        simp only [exec, World.destroy, harena, Option.some.injEq, Prod.mk.injEq] at hexec
        exact ⟨arena, harena, hexec.2.symm⟩
    have hw' : Registered (fun j h => D j h ∨ j = i ∧ h = c.handle) []
        { w₂ with
          arena := arena
          host := { w₂.host with routes := w₂.host.routes.filter (·.1 != c.handle) }.modify i
            fun c => { c with phase := .destroyed } } := by
      refine ⟨horderly.host _, hrest.congr rfl rfl, fun h => ?_, ?_⟩
      · change (∃ j, { w₂.host with routes := w₂.host.routes.filter (·.1 != c.handle) }.route? h =
          some j) ↔ ∃ k, arena.get? h = some k
        rw [Story.route?_filter]
        split
        · rename_i heq
          simp [heq, Arena.get?_remove_self harena]
        · rename_i hne
          rw [Arena.get?_remove_of_ne harena hne]
          exact hw₂.alive h
      · have hbooks := hw₂.books.expel hown hphase₂ hbindings
        rwa [hhandle] at hbooks
    refine ⟨rfl, hw', left_of_registered (c := { own with phase := .destroyed }) hw'
      (Arena.get?_remove_self harena) ?_ hhandle rfl hsilent⟩
    simp [Story.modify, hown]
  · cases (hushed_of_unbindStore hw hc rfl hphase hunbind).1

end Telling

namespace Act

def needs? : Act δ → Option Nat
  | start i | startBough i _ | tick i | continueLine i | selectChoice i _ | setExtern i _ _
  | setFunction i _ _ _ | subscribe i _ | unsubscribe i _ | value i _ | saveState i
  | loadState i _ => some i
  | _ => none

end Act

namespace Telling

open World
open Story (Respects bookkeeping custody)

variable {D : Nat → Handle → Prop} {w w' : World (Story δ)} {h : Handle} {i : Nat}
  {c : Conversation δ} {fuel : Nat}

theorem registered_enrolled {k : Container} {data : CompiledData} (config : Config)
    (hw : Registered D [] w) (hroom : w.arena.HasRoom)
    (hparse : Container.parse data.bytes = .ok k) :
    Registered D [] (w.enrolled k data config) := by
  have hexec := exec_create_parsed config hparse (w := w) 0
  have horderly := orderly_exec hw.orderly (by exact .inl rfl) hexec
  have hrest := atRest_exec hw.rest hexec
  let c : Conversation δ :=
    .create (w.arena.insert w.instances.length).1 config data.externs
  have hhost : (w.enrolled k data config).host = w.host.enroll c := rfl
  have hfree := Arena.get?_insert_fst (x := w.instances.length) hw.rest.sound hroom
  refine ⟨horderly.host _, hrest.congr rfl rfl, fun h => ?_, ?_⟩
  · rw [hhost, Story.route?_enroll]
    change _ ↔ ∃ k, (w.arena.insert w.instances.length).2.get? h = some k
    split
    · rename_i heq
      rw [heq]
      exact ⟨fun _ => ⟨_, Arena.get?_insert_self hw.rest.sound hroom⟩, fun _ => ⟨_, rfl⟩⟩
    · rename_i hne
      rw [hw.alive h]
      refine exists_congr fun k => ⟨Arena.get?_insert_of_get? hw.rest.sound, fun hk => ?_⟩
      exact (Arena.get?_insert hk).resolve_left fun heq => hne heq.1
  · rw [hhost]
    refine hw.books.enroll ?_ nofun rfl
    cases hroute : w.host.route? c.handle with
    | none => rfl
    | some j =>
      obtain ⟨k, hk⟩ := (hw.alive c.handle).mp ⟨j, hroute⟩
      rw [show w.arena.get? c.handle = none from hfree] at hk
      cases hk

theorem registered_enroll {externs : Externs (Story δ)} {data : CompiledData} {config : Config}
    {r : Except StoryError Nat} (hw : Registered D [] w) (hroom : w.arena.HasRoom)
    (hexterns : externs.Obeys bookkeeping) (hr : (enroll fuel externs data config).Yields w r w') :
    Registered D [] w' := by
  rcases enroll_cases hr with ⟨a, message, e, -, rfl, -⟩ | ⟨k, n, w₁, hparse, hbind, -, rfl⟩
  · unfold World.report
    split
    · exact hw
    · exact hw.update (hw.orderly.handler _ _ w.host).ledger
  · have hbound : Registered D [] w₁ := by
      refine Externs.preserves_bind ?_ ?_ (registered_enrolled config hw hroom hparse) hbind
      · intro name e w r w' he hw hexec
        refine hw.exec ⟨?_, hexterns.bindOperation he _⟩ hexec
        cases e <;> rfl
      · exact fun w severity message hw =>
          hw.update (hw.orderly.handler severity message w.host).ledger
    exact hbound.update (Story.ledger_modify rfl _ fun _ => rfl)

theorem registered_create {externs : Externs (Story δ)} {data : CompiledData} {config : Config}
    {r : Except StoryError Nat} (hw : Registered D [] w) (hroom : w.arena.HasRoom)
    (hexterns : externs.Obeys bookkeeping) (hr : (create fuel externs data config).Yields w r w') :
    Registered D [] w' := by
  obtain ⟨w₁, hthreshold, harena, henroll⟩ := enrolls_of_create hr
  rw [← harena] at hroom
  rcases hthreshold with rfl | ⟨s, a, hexec⟩
  · exact registered_enroll hw hroom hexterns henroll
  · exact registered_enroll (hw.exec (Story.permits_of_isTame rfl) hexec) hroom hexterns henroll

theorem registered_act {a : Act δ} {r : Except StoryError Unit} (hw : Registered D [] w)
    (ha : a.Obeys bookkeeping) (hfits : a.Fits w) (hr : (a.telling fuel).Yields w r w') :
    Registered D [] w' := by
  have hsteady : Steady (Registered (δ := δ) D []) :=
    ⟨fun hop hw => hw.exec (Story.permits_of_isSteady hop)⟩
  have hmodify (i : Nat) (f : Conversation δ → Conversation δ) (hf : ∀ c, (f c).entry = c.entry) :
      (update (·.modify i f)).Maintains (Registered D []) :=
    maintains_update fun w hw => hw.update (Story.ledger_modify rfl i hf)
  cases a with
  | create externs data config =>
    rcases yields_bind.mp hr with ⟨x, w₁, hcreate, hr⟩ | ⟨e, hcreate, -⟩
    · obtain ⟨-, rfl⟩ := yields_pure.mp hr
      exact registered_create hw hfits ha hcreate
    · exact registered_create hw hfits ha hcreate
  | destroy i =>
    refine maintains_reply (fun w r w' hw hr => ?_) w r w' hw hr
    cases hc : w.host.conversations[i]? with
    | none =>
      unfold destroy at hr
      rw [yields_conversation?_bind, hc] at hr
      exact (yields_pure.mp hr).2 ▸ hw
    | some c =>
      by_cases hphase : c.phase = .destroyed
      · unfold destroy at hr
        rw [yields_conversation?_bind, hc] at hr
        simp only [if_pos hphase] at hr
        exact (yields_pure.mp hr).2 ▸ hw
      · obtain ⟨-, hw', -⟩ := left_of_destroy hw hc hphase hr
        exact ⟨hw'.orderly, hw'.rest, hw'.alive,
          { hw'.books with destroyed := fun j h hD => hw'.books.destroyed j h (.inl hD) }⟩
  | setFunction i name arity body =>
    have hpermits (h : Handle) :
        bookkeeping.Permits (.setFunction h name arity body : Operation (Story δ)) := ⟨rfl, ha⟩
    refine maintains_reply (maintains_bind (maintains_alive i) fun c => ?_) w r w' hw hr
    exact maintains_performFlag (maintains_perform fun w r w' hw => hw.exec (hpermits c.handle))
  | takeEvents i =>
    refine maintains_reply (maintains_bind (maintains_conversation? i) fun c => ?_) w r w' hw hr
    exact maintains_bind (hmodify i _ fun _ => rfl) fun _ => maintains_pure _
  | takeEvent i =>
    refine maintains_reply (maintains_bind (maintains_conversation? i) fun c => ?_) w r w' hw hr
    split
    · exact maintains_bind (hmodify i _ fun _ => rfl) fun _ => maintains_pure _
    · exact maintains_pure _
  | _ =>
    exact Act.maintains hsteady
      (fun name v => hsteady.setShared fuel fun hw hshare => hw.update (Story.ledger_share hshare))
      (fun i _ => (tended_registered i).played fuel) rfl w r w' hw hr

end Telling

namespace Story

open World (Registered)
open Telling (Left)

/-- What can happen in a library: acts on its conversations, operations, and changes by the host.
Neither the host nor its code creates or destroys machines by itself, and the books are left to the
conversations. -/
inductive Transition : World (Story δ) → World (Story δ) → Prop
  | act {w w' : World (Story δ)} {a : Act δ} {fuel : Nat} {r : Except StoryError Unit}
    (ha : a.Obeys bookkeeping) (hfits : a.Fits w) (hr : (a.telling fuel).Yields w r w') : Transition w w'
  | operate {w w' : World (Story δ)} {fuel : Nat} {op : Operation (Story δ)} {r : Reply}
    (hop : bookkeeping.Permits op) (hexec : World.exec fuel op w = some (r, w')) : Transition w w'
  | update {w : World (Story δ)} {s : Story δ} (hs : Respects w.host s) :
    Transition w { w with host := s }

/-- What steps lead to from an empty library, whose store nobody watches. -/
inductive Supervised : World (Story δ) → Prop
  | create {handler : Severity → String → Story δ → Story δ} {s : Story δ}
    (hhandler : ∀ severity message s, Respects s (handler severity message s))
    (hconversations : s.conversations = []) (hroutes : s.routes = []) (hwatches : s.watches = []) :
    Supervised (.create handler s)
  | step {w w' : World (Story δ)} (hw : Supervised w) (h : Transition w w') : Supervised w'

variable {D : Nat → Handle → Prop} {w w' : World (Story δ)}

theorem Transition.registered (h : Transition w w') (hw : Registered D [] w) : Registered D [] w' := by
  cases h with
  | act ha hfits hr => exact Telling.registered_act hw ha hfits hr
  | operate hop hexec => exact hw.exec hop hexec
  | update hs => exact hw.update hs.ledger

theorem Supervised.registered (hw : Supervised w) : Registered (fun _ _ => False) [] w := by
  induction hw with
  | @create handler s hhandler hconversations hroutes hwatches =>
    have hrest := World.atRest_create handler s
    have hroute (h : Handle) : s.route? h = none := by simp [route?, hroutes]
    refine ⟨⟨hhandler, by simp [World.create], by simp [World.create], by simp [World.create],
      hrest.sound, hrest.housed⟩, hrest, fun h => ?_, ?_⟩
    · simp [World.create, hroute, Arena.get?_empty]
    · refine ⟨fun h i => ?_, ?_, ?_, fun store hstore watch hwatch => ?_, ?_, ?_, fun _ _ hD => hD.elim⟩
      · simp [World.create, hroute, hconversations]
      · simp [World.create, hconversations, hwatches]
      · simp [World.create, hwatches]
      · have hnone : store.watches = [] := by
          rw [← hwatches, Story.watches, show s.store = some store from hstore]
          rfl
        rw [hnone] at hwatch
        cases hwatch
      · simp [World.create, hconversations]
      · simp [World.create, hconversations]
  | step _ h ih => exact h.registered ih

def live (s : Story δ) : List (Conversation δ) := s.conversations.filter (·.phase ≠ .destroyed)

theorem Books.flatMap_live {s : Story δ} {ws : List (Watch Handle)} (hs : s.Books D ws) :
    s.live.flatMap Conversation.watches = s.conversations.flatMap Conversation.watches := by
  have hunbound := hs.unbound
  rw [live]
  generalize s.conversations = cs at hunbound
  induction cs with
  | nil => rfl
  | cons c cs ih =>
    obtain ⟨hc, hcs⟩ := List.forall_mem_cons.mp hunbound
    rw [List.filter_cons, List.flatMap_cons, ← ih hcs]
    by_cases hphase : c.phase = .destroyed
    · simp [hphase, Conversation.watches, hc hphase]
    · simp [hphase]

end Story

namespace Telling

open World (Registered)
open Story (Transition Supervised)

variable {D : Nat → Handle → Prop} {w : World (Story δ)} {h : Handle} {i : Nat}
  {c : Conversation δ}

structure Inert (i : Nat) (h : Handle) (w : World (Story δ)) : Prop where
  refuses : ∀ a : Act δ, a.needs? = some i → ∀ fuel r w',
    (a.telling fuel).Yields w r w' ↔ r = .error (.destroyed h) ∧ w' = w
  destroy : ∀ fuel r w', (destroy fuel i).Yields w r w' ↔ r = .ok false ∧ w' = w
  finish : ∀ fuel r w', (finish fuel i).Yields w r w' ↔ r = .ok () ∧ w' = w

theorem inert_of_destroyed (hc : w.host.conversations[i]? = some c) (hphase : c.phase = .destroyed) :
    Inert i c.handle w := by
  have hrefuses {α β : Type} {f : Conversation δ → Telling δ α} {g : α → Telling δ β}
      (r : Except StoryError β) (w' : World (Story δ)) :
      (alive i >>= f >>= g).Yields w r w' ↔ r = .error (.destroyed c.handle) ∧ w' = w := by
    rw [bind_assoc]
    exact yields_alive_bind_of_destroyed hc hphase
  refine ⟨fun a ha fuel r w' => ?_, fun fuel r w' => ?_, fun fuel r w' => ?_⟩
  · cases a <;> simp only [Act.needs?, Option.some.injEq, reduceCtorEq] at ha <;> subst ha
    case start =>
      change (conversation? _ >>= _).Yields w r w' ↔ _
      rw [yields_conversation?_bind]
      exact yields_alive_bind_of_destroyed hc hphase
    case startBough | continueLine | selectChoice => exact yields_alive_bind_of_destroyed hc hphase
    all_goals exact hrefuses r w'
  · unfold Telling.destroy
    rw [yields_conversation?_bind, hc]
    simp only [if_pos hphase]
    exact yields_pure
  · exact yields_finish_of_ne_started hc (by simp [hphase])

theorem inert_of_steps {w w' : World (Story δ)} (hw : Registered D [] w) (hD : D i h)
    (hsteps : Relation.ReflTransGen Transition w w') : Inert i h w' := by
  have hw' : Registered D [] w' := by
    induction hsteps with
    | refl => exact hw
    | tail _ h ih => exact h.registered ih
  obtain ⟨c, hc, rfl, hphase⟩ := hw'.books.destroyed i h hD
  exact inert_of_destroyed hc hphase

end Telling

namespace Story

open Telling (Left Inert)

variable {w : World (Story δ)}

/-- Whatever is done with the conversations of a library: routes, live handles and conversations that
have not been destroyed belong together, and the watches in the store are the bindings of these
conversations. When one of them is destroyed, it leaves nothing behind, and whatever is done later,
it refuses everything. There are never more than `2 ^ 32` slots for machines; speakers act on the
state of the host only, and those who watch shared variables are machines. -/
theorem Supervised.registry (hw : Supervised w) :
    (∀ h i, w.host.route? h = some i ↔
      ∃ c, w.host.conversations[i]? = some c ∧ c.handle = h ∧ c.phase ≠ .destroyed) ∧
    (∀ h, (∃ i, w.host.route? h = some i) ↔ ∃ k, w.arena.get? h = some k) ∧
    w.host.watches.Perm (w.host.live.flatMap Conversation.watches) ∧
    (w.host.watches.map (·.id)).Nodup ∧
    (∀ c ∈ w.host.conversations, c.boundNames.Nodup) ∧
    ∀ i c, w.host.conversations[i]? = some c → c.phase ≠ .destroyed → ∀ fuel,
      ∃ w', (Telling.destroy (fuel + 2) i).Yields w (.ok true) w' ∧ Left i c.handle w' ∧
        ∀ w'', Relation.ReflTransGen Transition w' w'' → Inert i c.handle w'' := by
  have hw := hw.registered
  refine ⟨hw.books.route, hw.alive, ?_, hw.books.ids, hw.books.names, fun i c hc hphase fuel => ?_⟩
  · rw [hw.books.flatMap_live]
    exact hw.books.watches
  · obtain ⟨r, w', hr, -⟩ := Telling.completes_destroy fuel i w hw.rest
    obtain ⟨rfl, hw', hleft⟩ := Telling.left_of_destroy hw hc hphase hr
    exact ⟨w', hr, hleft, fun w'' hsteps => Telling.inert_of_steps hw' (.inr ⟨rfl, rfl⟩) hsteps⟩

/-- A start has failed and left the lamp bound. The conversation is destroyed, and a tick finds that
it has been. -/
theorem registry_lamp : ∃ (w w' : World (Story Unit)) (c : Conversation Unit), Supervised w ∧
    w.host.conversations[0]? = some c ∧ c.phase = .created ∧ w.host.watches.length = 1 ∧
      (Telling.destroy 2 0).Yields w (.ok true) w' ∧ Left 0 c.handle w' ∧
        ((Act.tick 0).telling 9).Yields w' (.error (.destroyed c.handle)) w' := by
  let w₀ : World (Story Unit) := .create (fun _ _ s => s)
    { Story.create () with store := some (VariableStore.insert {} "lit" (.bool false)) }
  have h : (do
      let bytes ← (Builder.run .offset Telling.lamp).build.toOption
      let data ← (CompiledData.ofBytes bytes).toOption
      let x ← ((Act.create .empty data {}).telling 3).run.run w₀
      let y ← ((Act.startBough 0 "elsewhere").telling 3).run.run x.2
      let c ← y.2.host.conversations[0]?
      return (decide (c.phase = .created), decide (y.2.host.watches.length = 1))) =
      some (true, true) := by
    decide +kernel
  obtain ⟨bytes, -, h⟩ := Option.bind_eq_some_iff.mp h
  obtain ⟨data, -, h⟩ := Option.bind_eq_some_iff.mp h
  obtain ⟨⟨r₁, w₁⟩, hcreate, h⟩ := Option.bind_eq_some_iff.mp h
  obtain ⟨⟨r, w⟩, hstart, h⟩ := Option.bind_eq_some_iff.mp h
  obtain ⟨c, hc, h⟩ := Option.bind_eq_some_iff.mp h
  simp only [pure, Option.some.injEq, Prod.mk.injEq, decide_eq_true_eq] at h
  obtain ⟨hphase, hwatched⟩ := h
  have hw₀ : Supervised w₀ := .create (fun _ _ s => .refl s) rfl rfl rfl
  have hroom : (Arena.empty : Arena Nat).HasRoom := show 0 < UInt32.size by decide
  have hobeys : (Act.create .empty data {} : Act Unit).Obeys bookkeeping := by
    intro name arity body hmem
    cases hmem
  have hw₁ := hw₀.step (.act hobeys hroom hcreate)
  have hw := hw₁.step (.act (by trivial) (by trivial) hstart)
  obtain ⟨-, -, -, -, -, hdestroys⟩ := Supervised.registry hw
  obtain ⟨w', hdestroy, hleft, hlater⟩ := hdestroys 0 c hc (by simp [hphase]) 0
  exact ⟨w, w', c, hw, hc, hphase, hwatched, hdestroy, hleft,
    ((hlater w' .refl).refuses (.tick 0) rfl 9 _ _).mpr ⟨rfl, rfl⟩⟩

end Story

end Dialogue
