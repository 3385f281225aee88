import Dialogue.Proofs.Story.Conclusion
import Dialogue.Proofs.Value.Exchange

namespace Dialogue

variable {δ : Type}

namespace Machine

variable {φ : Type} {m : Machine φ} {name : String}

theorem IsParsed.value_of_amend {s : Snapshot} (hm : m.IsParsed)
    (h : (s.amend m.save.1).get? name ≠ s.get? name) : ∃ v, m.value name = .ok v ∧ v.Finite := by
  cases hsaved : m.save.1.get? name with
  | none => exact absurd (Table.get?_merge_of_none hsaved) h
  | some j =>
    obtain ⟨v, hv, hj⟩ := hm.value_of_save hsaved
    exact ⟨v, hv, Value.finite_of_toJson hj⟩

theorem IsParsed.value_resumed_of_saved {saved : Snapshot} {v : Value} {g : Global φ}
    (hm : m.IsParsed) (hempty : m.domains.isEmpty = true) (hg : m.global? name = some g)
    (hdata : g.slot.isFunction = false) (hsaved : saved.value? name = some (.ok v)) :
    (m.resumed saved).value name = .ok v := by
  rw [hm.value_resumed, hsaved]
  cases hslot : g.slot with
  | function arity body =>
    rw [hslot] at hdata
    cases hdata
  | value current =>
    rw [value_of_global? hg hslot, restore, EnumDomains.checkAssignment_of_isEmpty hempty, if_pos rfl]

end Machine

namespace Story

theorem state_stopSpeaker (s : Story δ) (i : Nat) : (s.stopSpeaker i).state = s.state := by
  unfold stopSpeaker
  split <;> rfl

theorem state_hear (s : Story δ) (i : Nat) (e : Event) : (s.hear i e).state = s.state := by
  cases e with
  | line l => exact s.state_stopSpeaker i
  | choices cs => rfl
  | changed name v => rfl

/-- Host code that leaves the saved state to the conversations. -/
def thrift : Discipline (Story δ) where
  performs _ := True
  changes s s' := s'.state = s.state
  trusts callbacks := callbacks = dispatch

theorem bounds_thrift : (thrift (δ := δ)).Bounds fun s s' => s'.state = s.state where
  refl _ := rfl
  trans hs hs' := hs'.trans hs
  idle _ := rfl
  changes := id
  trusts := by
    rintro c rfl h e s
    refine upholds_dispatch (fun _ _ _ => ⟨trivial, trivial⟩) (fun _ _ => ⟨trivial, trivial⟩) rfl ?_ ?_
    · exact fun name v store told _ => rfl
    · exact fun j s' _ hs' => (state_hear s' j e).trans hs'

abbrev thrifty : Conduct (Story δ) :=
  thrift.conduct bounds_thrift (L := fun _ => True) fun _ => trivial

end Story

namespace World

open Story (bookkeeping custody thrifty)

variable {w w' : World (Story δ)} {i j fuel : Nat} {h : Handle} {op : Operation (Story δ)}
  {r : Reply} {s : Story δ}

/-- The conversation `i`, whose machine is `h`, has not been finished, and host code leaves the books
to the conversations. -/
structure Unfinished (i : Nat) (h : Handle) (w : World (Story δ)) : Prop where
  orderly : custody.Orderly none w
  own : ∃ c, w.host.conversations[i]? = some c ∧ c.handle = h ∧ c.phase ≠ .finished

theorem Unfinished.restage (hw : Unfinished i h w)
    (hhandle : s.conversations[i]?.map (·.handle) = w.host.conversations[i]?.map (·.handle))
    (hphase : s.conversations[i]?.map (·.phase) = w.host.conversations[i]?.map (·.phase)) :
    Unfinished i h { w with host := s } := by
  obtain ⟨c, hc, rfl, hunfinished⟩ := hw.own
  rw [hc, Option.map_some, Option.map_eq_some_iff] at hhandle hphase
  obtain ⟨c', hc', hhandle⟩ := hhandle
  obtain ⟨c'', hc'', hphase⟩ := hphase
  obtain rfl : c' = c'' := Option.some.inj (hc'.symm.trans hc'')
  exact ⟨hw.orderly.host s, c', hc', hhandle, hphase ▸ hunfinished⟩

theorem Unfinished.update (hw : Unfinished i h w) (hledger : s.ledger = w.host.ledger) :
    Unfinished i h { w with host := s } := by
  have hentry := congrArg (fun l => l.2.1[i]?) hledger
  simp only [Story.ledger, List.getElem?_map] at hentry
  refine hw.restage ?_ ?_
  · simpa [Function.comp_def, Conversation.entry] using congrArg (Option.map (·.1)) hentry
  · simpa [Function.comp_def, Conversation.entry] using congrArg (Option.map (·.2.1)) hentry

theorem Unfinished.modify (hw : Unfinished i h w) {f : Conversation δ → Conversation δ}
    (hf : ∀ c : Conversation δ, (f c).handle = c.handle ∧ (c.phase ≠ .finished → (f c).phase ≠ .finished)) :
    Unfinished i h { w with host := w.host.modify j f } := by
  obtain ⟨c, hc, rfl, hphase⟩ := hw.own
  refine ⟨hw.orderly.host _, ?_⟩
  by_cases hj : j = i
  · exact ⟨f c, by simp [Story.modify, hj, hc], (hf c).1, (hf c).2 hphase⟩
  · exact ⟨c, by simp [Story.modify, hj, hc], rfl, hphase⟩

theorem Unfinished.exec (hw : Unfinished i h w) (hop : op.Grants bookkeeping)
    (hexec : World.exec fuel op w = some (r, w')) : Unfinished i h w' := by
  obtain ⟨horderly, hledger⟩ := orderly_ledger_exec hw.orderly hop hexec
  exact ⟨horderly, (hw.update hledger).own⟩

theorem sustained_unfinished (i : Nat) (h : Handle) : Sustained (Unfinished (δ := δ) i h) where
  exec hop hw := hw.exec (Operation.grants_of_isTame (Operation.isTame_of_isSteady hop))
  update heven hw := by
    have hown := congrArg (·[i]?) heven.bare
    simp only [List.getElem?_map] at hown
    refine hw.restage ?_ ?_
    · simpa [Function.comp_def, Conversation.bare] using congrArg (Option.map (·.handle)) hown
    · simpa [Function.comp_def, Conversation.bare] using congrArg (Option.map (·.phase)) hown

theorem upheld_unfinished (hne : i ≠ j) : Upheld j (Unfinished (δ := δ) i h) where
  exec hop hw := hw.exec (Operation.grants_of_isTame hop)
  update hkeeps hw := by
    obtain ⟨c, hc, rfl, hunfinished⟩ := hw.own
    obtain ⟨c', hc', hhandle, hphase⟩ := hkeeps.conversation hne hc
    exact ⟨hw.orderly.host _, c', hc', hhandle, hphase ▸ hunfinished⟩

/-- Finishing the conversation `i`, whose machine is `h`, leads from `w` to `w'`. -/
structure Finishes (i : Nat) (h : Handle) (w w' : World (Story δ)) : Prop where
  started : ∃ c, w.host.conversations[i]? = some c ∧ c.handle = h ∧ c.phase = .started
  machine : ∃ m, w.machine? h = some m
  finish : ∃ fuel, (Telling.finish fuel i).Yields w (.ok ()) w'

/-- What lasts while the conversation `i` is played, whose machine is `h`, until it is finished. -/
structure Lasts (i : Nat) (h : Handle) (P : World (Story δ) → Prop) : Prop where
  unfinished : ∀ {w}, P w → Unfinished i h w
  exec : ∀ {fuel op w r w'}, op.isTame = true → P w → World.exec fuel op w = some (r, w') → P w'
  rebinds : ∀ {w s}, w.host.Rebinds s → P w → P { w with host := s }
  modify : ∀ {w} {f : Conversation δ → Conversation δ}, (∀ c, (f c).handle = c.handle ∧
    (c.phase ≠ .finished → (f c).phase ≠ .finished)) → P w →
      P { w with host := w.host.modify i f }
  host : ∀ {w x}, P w → P { w with host := { w.host with host := x } }

theorem lasts_unfinished (i : Nat) (h : Handle) : Lasts i h (Unfinished (δ := δ) i h) where
  unfinished := id
  exec hop hw := hw.exec (Operation.grants_of_isTame hop)
  rebinds hs hw := (sustained_unfinished i h).update (f := fun _ => _) hs.even hw
  modify hf hw := hw.modify hf
  host hw := hw.update rfl

theorem lasts_saved (i : Nat) (h : Handle) (state : Snapshot) {T : Prop} : Lasts i h
    fun w : World (Story δ) => Unfinished i h w ∧
      (T → thrifty.Orderly none w ∧ w.host.state = state) where
  unfinished := And.left
  exec hop hw hexec := by
    refine ⟨(lasts_unfinished i h).exec hop hw.1 hexec, fun hT => ?_⟩
    obtain ⟨horderly, hstate⟩ := hw.2 hT
    obtain ⟨horderly', hcontinues⟩ := Conduct.preserves_exec (C := thrifty)
      ⟨trivial, Operation.grants_of_isTame hop⟩ hexec horderly
    exact ⟨horderly', (show _ = _ from hcontinues.host).trans hstate⟩
  rebinds hs hw := ⟨(lasts_unfinished i h).rebinds hs hw.1, fun hT =>
    ⟨(hw.2 hT).1.host _, hs.state.trans (hw.2 hT).2⟩⟩
  modify hf hw := ⟨hw.1.modify hf, fun hT => ⟨(hw.2 hT).1.host _, (hw.2 hT).2⟩⟩
  host hw := ⟨hw.1.update rfl, fun hT => ⟨(hw.2 hT).1.host _, (hw.2 hT).2⟩⟩

end World

namespace Telling

open World
open Story (bookkeeping)

variable {log : Severity → String → δ → δ} {w w' : World (Story δ)} {i fuel : Nat} {h : Handle}
  {P : World (Story δ) → Prop}

theorem lasts_performFlag (hP : Lasts i h P) {op : Operation (Story δ)} (hop : op.isTame = true) :
    (performFlag fuel op).Maintains P :=
  maintains_performFlag (maintains_perform fun _ _ _ hw => hP.exec hop hw)

theorem lasts_clearPending (hP : Lasts i h P) : (update fun s => s.clearPending i).Maintains P :=
  maintains_update fun _ hw => hP.modify (fun _ => ⟨rfl, id⟩) hw

theorem lasts_startBough (hP : Lasts i h P) (bough : String) :
    (startBough fuel i bough).Maintains P := by
  have hsteady : Steady P := ⟨fun hop => hP.exec (Operation.isTame_of_isSteady hop)⟩
  unfold startBough
  refine maintains_bind (maintains_alive i) fun c => ?_
  refine maintains_bind (hsteady.inject fuel _) fun _ => ?_
  refine maintains_bind (hsteady.bindStore fuel (hsteady.bindVariable fuel hP.rebinds c)) fun _ => ?_
  refine maintains_bind (lasts_performFlag hP rfl) fun started => ?_
  refine maintains_guard fun _ => maintains_update fun w hw => ?_
  simp only [Story.clearPending, Story.emit, Story.modify_modify]
  exact hP.modify (fun c => ⟨rfl, fun _ hphase => by cases hphase⟩) hw

theorem lasts_start (hP : Lasts i h P) : (start fuel i).Maintains P := by
  unfold start
  exact maintains_bind (maintains_conversation? i) fun _ => lasts_startBough hP _

theorem lasts_continueLine (hP : Lasts i h P) : (continueLine fuel i).Maintains P := by
  unfold continueLine
  refine maintains_bind (maintains_alive i) fun c => ?_
  refine maintains_bind (lasts_performFlag hP rfl) fun _ => ?_
  exact maintains_guard fun _ => lasts_clearPending hP

theorem lasts_selectChoice (hP : Lasts i h P) (index : Nat) :
    (selectChoice fuel i index).Maintains P := by
  unfold selectChoice
  refine maintains_bind (maintains_alive i) fun c => ?_
  refine maintains_bind (lasts_performFlag hP rfl) fun _ => ?_
  exact maintains_guard fun _ => lasts_clearPending hP

theorem lasts_respond (hP : Lasts i h P) (r : Responder δ) (slice : Slice) :
    (respond fuel i r slice).Maintains P :=
  maintains_respond (fun _ _ hw => hP.host hw) (fun _ _ hw => hP.host hw)
    (lasts_continueLine hP) (lasts_selectChoice hP) slice

def Finished (log : Severity → String → δ → δ) (P : World (Story δ) → Prop) (i : Nat) (h : Handle)
    (w' : World (Story δ)) : Prop :=
  ∃ w, Story.Reachable log w ∧ P w ∧ Finishes i h w w'

theorem finish_outcome {r : Except StoryError Unit} (hP : Lasts i h P)
    (hw : Story.Reachable log w) (hopen : P w) (hr : (finish fuel i).Yields w r w') :
    P w' ∨ r = .ok () ∧ Finished log P i h w' := by
  obtain ⟨c, hc, rfl, -⟩ := (hP.unfinished hopen).own
  by_cases hphase : c.phase = .started
  · cases hm : w.machine? c.handle with
    | some m =>
      obtain ⟨rfl, -⟩ := finish_steps hw.atRest hc hphase hm hr
      exact .inr ⟨rfl, w, hw, hopen, ⟨c, hc, rfl, hphase⟩, ⟨m, hm⟩, fuel, hr⟩
    | none =>
      left
      unfold finish at hr
      rw [yields_conversation?_bind, hc] at hr
      simp only [hphase, ne_eq, not_true_eq_false, if_false, saveState, bind_assoc] at hr
      rw [yields_alive_bind hc (by simp [hphase])] at hr
      obtain ⟨a, w₁, hexec, hr⟩ := yields_perform_bind.mp hr
      obtain ⟨rfl, -⟩ := change_eq hw.atRest rfl hexec
      rw [hm] at hr
      obtain ⟨-, rfl⟩ := yields_throw_bind.mp hr
      exact hP.exec rfl hopen hexec
  · exact .inl (((yields_finish_of_ne_started hc hphase).mp hr).2 ▸ hopen)

theorem finishSlice_outcome {r : Except StoryError Slice} (hP : Lasts i h P)
    (hw : Story.Reachable log w) (hopen : P w) (hr : (finishSlice fuel i).Yields w r w') :
    P w' ∨ r = .ok .finished ∧ Finished log P i h w' := by
  rcases yields_bind.mp hr with ⟨u, w₁, hfinish, hr⟩ | ⟨e, hfinish, -⟩
  · obtain ⟨rfl, rfl⟩ := yields_pure.mp hr
    exact (finish_outcome hP hw hopen hfinish).imp_right fun h => ⟨rfl, h.2⟩
  · exact (finish_outcome hP hw hopen hfinish).imp_right fun h => by cases h.1

theorem tick_outcome_of_lasts {r : Except StoryError Slice} (hP : Lasts i h P)
    (hw : Story.Reachable log w) (hopen : P w) (hr : (tick fuel i).Yields w r w') :
    P w' ∨ r = .ok .finished ∧ Finished log P i h w' := by
  rcases tick_outcome hw.atRest hr with ⟨c, -, -, hticked⟩ | ⟨-, -, rfl⟩
  · cases hticked with
    | refused _ _ _ hsame => exact .inl (hsame ▸ hopen)
    | ended _ _ hr => exact finishSlice_outcome hP hw hopen hr
    | waiting _ _ hr => exact .inl ((yields_pending.mp hr).2 ▸ hopen)
    | lost _ hexec => exact .inl (hP.exec rfl hopen hexec)
    | @ran _ _ w₁ _ _ hexec hran =>
      have hcleared : P { w with host := w.host.clearPending i } :=
        hP.modify (fun _ => ⟨rfl, id⟩) hopen
      have hopen₁ := hP.exec rfl hcleared hexec
      have hw₁ : Story.Reachable log w₁ := (hw.update (·.clearPending i)).operate hexec
      cases hran with
      | waits _ _ _ hr => exact .inl ((yields_pending.mp hr).2 ▸ hopen₁)
      | ends _ _ _ hr => exact finishSlice_outcome hP hw₁ hopen₁ hr
      | goesOn _ _ _ _ hsame => exact .inl (hsame ▸ hopen₁)
      | fails _ _ _ hsame => exact .inl (hsame ▸ hopen₁)
      | lost _ hexec => exact .inl (hP.exec rfl hopen₁ hexec)
  · exact .inl hopen

theorem played_reachable (log : Severity → String → δ → δ) (fuel i : Nat) :
    Played fuel i (Story.Reachable log) :=
  (Story.unhindered_reachable.upheld i).played fuel

theorem playSlices_outcome {r : Responder δ} {most : Option Nat} {rounds slices : Nat}
    {x : Except StoryError Unit} (hP : Lasts i h P) (hw : Story.Reachable log w) (hopen : P w)
    (hr : (playSlices fuel i r most rounds slices).Yields w x w') :
    P w' ∨ Finished log P i h w' := by
  induction rounds generalizing slices w with
  | zero =>
    obtain ⟨a, hnone, -⟩ := yields_bounded.mp hr
    cases hnone
  | succ rounds ih =>
    by_cases hspent : ∃ n, most = some n ∧ n ≤ slices
    · obtain ⟨n, rfl, hn⟩ := hspent
      rw [playSlices_spent hn] at hr
      exact .inl ((yields_throw.mp hr).2 ▸ hopen)
    · rw [playSlices_succ fun n hn => Nat.lt_of_not_le fun hle => hspent ⟨n, hn, hle⟩] at hr
      have hplayed := played_reachable log fuel i
      rcases yields_bind.mp hr with ⟨slice, w₁, htick, hr⟩ | ⟨e, htick, -⟩
      · have hw₁ := hplayed.tick _ _ _ hw htick
        rcases tick_outcome_of_lasts hP hw hopen htick with hopen₁ | ⟨hslice, hfinished⟩
        · rcases yields_bind.mp hr with ⟨last, w₂, hrespond, hr⟩ | ⟨e, hrespond, -⟩
          · have hopen₂ := lasts_respond hP r slice _ _ _ hopen₁ hrespond
            have hw₂ := hplayed.respond r slice _ _ _ hw₁ hrespond
            cases last with
            | true => exact .inl ((yields_pure.mp hr).2 ▸ hopen₂)
            | false => exact ih hw₂ hopen₂ hr
          · exact .inl (lasts_respond hP r slice _ _ _ hopen₁ hrespond)
        · obtain rfl := Except.ok.inj hslice
          have hover : (respond fuel i r .finished : Telling δ Bool) = pure true := rfl
          rw [hover, pure_bind] at hr
          exact .inr ((yields_pure.mp hr).2 ▸ hfinished)
      · rcases tick_outcome_of_lasts hP hw hopen htick with hopen₁ | ⟨hslice, -⟩
        · exact .inl hopen₁
        · cases hslice

theorem play_outcome {r : Responder δ} {x : Except StoryError Unit} (hP : Lasts i h P)
    (hw : Story.Reachable log w) (hopen : P w) (hr : (play fuel i r).Yields w x w') :
    P w' ∨ Finished log P i h w' := by
  unfold play at hr
  rw [yields_conversation?_bind] at hr
  split at hr
  · split at hr
    · have hplayed := played_reachable log fuel i
      rcases yields_bind.mp hr with ⟨u, w₁, hstart, hr⟩ | ⟨e, hstart, -⟩
      · exact playSlices_outcome hP (hplayed.start _ _ _ hw hstart)
          (lasts_start hP _ _ _ hopen hstart) hr
      · exact .inl (lasts_start hP _ _ _ hopen hstart)
    · exact playSlices_outcome hP hw hopen hr
  · exact .inl ((yields_pure.mp hr).2 ▸ hopen)

theorem unfinished_enroll {externs : Externs (Story δ)} {data : CompiledData} {config : Config}
    (hexterns : externs.Obeys bookkeeping) :
    (enroll fuel externs data config).Maintains (Unfinished (δ := δ) i h) := by
  intro w r w' hw hr
  rcases enroll_cases hr with ⟨a, message, e, hexec, -, -⟩ | ⟨k, n, w₁, hparse, hbind, -, rfl⟩
  · exact hw.exec (by exact .inl rfl) hexec
  · obtain ⟨c, hc, hhandle, hphase⟩ := hw.own
    have hcreated := orderly_exec hw.orderly (by exact .inl rfl)
      (exec_create_parsed config hparse (w := w) 0)
    have henrolled : Unfinished i h (w.enrolled k data config) := by
      refine ⟨hcreated.host _, c, ?_, hhandle, hphase⟩
      exact (List.getElem?_append_left (List.getElem?_eq_some_iff.mp hc).1).trans hc
    have hbound : Unfinished i h w₁ := by
      refine Externs.preserves_bind ?_ ?_ henrolled hbind
      · exact fun he hw hexec => hw.exec (hexterns.bindOperation he _) hexec
      · exact fun w severity message hw =>
          hw.update (hw.orderly.handler severity message w.host).ledger
    exact hbound.modify fun _ => ⟨rfl, id⟩

theorem unfinished_create {externs : Externs (Story δ)} {data : CompiledData} {config : Config}
    (hexterns : externs.Obeys bookkeeping) :
    (create fuel externs data config).Maintains (Unfinished (δ := δ) i h) := by
  intro w r w' hw hr
  obtain ⟨w₁, hthreshold, -, henroll⟩ := enrolls_of_create hr
  rcases hthreshold with rfl | ⟨s, a, hexec⟩
  · exact unfinished_enroll hexterns _ _ _ hw henroll
  · exact unfinished_enroll hexterns _ _ _ (hw.exec (by trivial) hexec) henroll

theorem unfinished_destroy (j : Nat) : (destroy fuel j).Maintains (Unfinished (δ := δ) i h) := by
  have hs := sustained_unfinished (δ := δ) i h
  unfold destroy
  refine maintains_bind (maintains_conversation? j) fun own => ?_
  split
  · exact maintains_pure _
  · split
    · exact maintains_pure _
    · refine maintains_bind (hs.maintains fun s => s.even_stopSpeaker j) fun _ => ?_
      refine maintains_bind (hs.unbindStore fuel _) fun _ => ?_
      refine maintains_bind (maintains_update fun w hw => hw.restage rfl rfl) fun _ => ?_
      refine maintains_bind (maintains_perform fun w r w' hw => hw.exec trivial) fun _ => ?_
      refine maintains_bind (maintains_update fun w hw => ?_) fun _ => maintains_pure _
      exact hw.modify fun _ => ⟨rfl, fun _ hphase => by cases hphase⟩

theorem act_outcome {a : Act δ} {r : Except StoryError Unit} (hP : Lasts i h P)
    (hw : Story.Reachable log w) (hopen : P w) (ha : a.Obeys bookkeeping)
    (hr : (a.telling fuel).Yields w r w') : Unfinished i h w' ∨ Finished log P i h w' := by
  have hs := sustained_unfinished (δ := δ) i h
  have hevents (j : Nat) (f : Conversation δ → Conversation δ)
      (hf : ∀ c, (f c).handle = c.handle ∧ (f c).phase = c.phase) :
      (update (·.modify j f)).Maintains (Unfinished (δ := δ) i h) :=
    maintains_update fun w hw => hw.modify fun c => ⟨(hf c).1, fun hc => (hf c).2 ▸ hc⟩
  have hlasts (houtcome : P w' ∨ Finished log P i h w') :
      Unfinished i h w' ∨ Finished log P i h w' :=
    houtcome.imp_left hP.unfinished
  by_cases hplays : a.plays? = some i
  · cases a <;> simp only [Act.plays?, Option.some.injEq, reduceCtorEq] at hplays <;> subst hplays
    case start => exact hlasts (.inl (lasts_start hP _ _ _ hopen hr))
    case startBough bough => exact hlasts (.inl (lasts_startBough hP bough _ _ _ hopen hr))
    case tick =>
      obtain ⟨r', hr⟩ := yields_of_reply hr
      exact hlasts ((tick_outcome_of_lasts hP hw hopen hr).imp_right And.right)
    case continueLine => exact hlasts (.inl (lasts_continueLine hP _ _ _ hopen hr))
    case selectChoice index => exact hlasts (.inl (lasts_selectChoice hP index _ _ _ hopen hr))
    case play r => exact hlasts (play_outcome hP hw hopen hr)
    case finish => exact hlasts ((finish_outcome hP hw hopen hr).imp_right And.right)
  · left
    revert hr
    refine fun hr => (?_ : (a.telling fuel).Maintains (Unfinished i h)) w r w'
      (hP.unfinished hopen) hr
    cases a with
    | create externs data config => exact maintains_reply (unfinished_create ha)
    | destroy j => exact maintains_reply (unfinished_destroy j)
    | setFunction j name arity body =>
      refine maintains_reply (maintains_bind (maintains_alive j) fun c => ?_)
      exact maintains_performFlag (maintains_perform fun _ _ _ hw => hw.exec ha)
    | takeEvents j =>
      refine maintains_reply (maintains_bind (maintains_conversation? j) fun c => ?_)
      exact maintains_bind (hevents j _ fun _ => ⟨rfl, rfl⟩) fun _ => maintains_pure _
    | takeEvent j =>
      refine maintains_reply (maintains_bind (maintains_conversation? j) fun c => ?_)
      split
      · exact maintains_bind (hevents j _ fun _ => ⟨rfl, rfl⟩) fun _ => maintains_pure _
      · exact maintains_pure _
    | _ =>
      refine Act.maintains hs.toSteady (hs.setShared fuel) (fun j hj => ?_) rfl
      exact (upheld_unfinished fun heq => hplays (hj.trans (congrArg some heq.symm))).played fuel

end Telling

namespace World

variable {log : Severity → String → δ → δ} {w w' : World (Story δ)} {i j fuel : Nat} {h : Handle}
  {c : Conversation δ} {m : HostMachine (Story δ)}

theorem Finishes.amends (hw : Story.Reachable log w) (hf : Finishes i h w w')
    (hm : w.machine? h = some m) : w'.host.state = w.host.state.amend m.save.1 ∧
      ∃ m', w'.machine? h = some m' ∧ ∀ name, m'.value name = m.value name := by
  obtain ⟨⟨c, hc, rfl, hphase⟩, -, fuel, hfinish⟩ := hf
  obtain ⟨a, w₁, hexec, -, hstate, m', hm', -, hvalue⟩ :=
    Telling.kept_of_finish hw.atRest hc hphase hm hfinish
  -- Messages about values that cannot be saved do not reach the saved state.
  have hkept : w₁.host.state = w.host.state := by
    have hsettled : w.Settled fun _ => () := hw.settled fun _ _ _ => rfl
    obtain ⟨-, hsame, -⟩ := hsettled.exec rfl hexec
    obtain ⟨x, hx⟩ := hsame.host
    rw [hx, affect_host]
  exact ⟨hkept ▸ hstate, m', hm', hvalue⟩

theorem Finishes.saves (hw : Story.Reachable log w) (hf : Finishes i h w w') :
    ∃ m, w'.machine? h = some m ∧ w'.host.state.Holds m ∧
      ∀ name, w'.host.state.get? name ≠ w.host.state.get? name →
        ∃ v, m.value name = .ok v ∧ v.Finite := by
  obtain ⟨m, hm⟩ := hf.machine
  obtain ⟨hstate, m', hm', hvalue⟩ := hf.amends hw hm
  have hparsed := machine?_isParsed hw.atRest hm
  refine ⟨m', hm', hstate ▸ hparsed.holds_amend _ hvalue, fun name hname => ?_⟩
  rw [hstate] at hname
  obtain ⟨v, hv, hfinite⟩ := hparsed.value_of_amend hname
  exact ⟨v, (hvalue name).trans hv, hfinite⟩

theorem prepared_of_store_eq_none (hstore : w.host.store = none) (i : Nat) (c : Conversation δ) :
    w.prepared i c = w.inject c.handle := by
  have hnone : (w.inject c.handle).host.store = none := by rw [host_inject, hstore]
  rw [prepared, Story.unbound, hstore, declareEnums, hnone]
  rfl

theorem machine?_of_start {bough : String} (hw : Story.Reachable log w)
    (hstore : w.host.store = none) (hc : w.host.conversations[i]? = some c)
    (hm : w.machine? c.handle = some m)
    (hr : (Telling.startBough fuel i bough).Yields w (.ok ()) w') :
    ∃ m', w'.machine? c.handle = some m' ∧
      ∀ name, m'.value name = (m.resumed w.host.state).value name := by
  have hsettled : w.Settled fun _ => () := hw.settled fun _ _ _ => rfl
  have hs := (primes_prepared hw.atRest.sound i c).sound hw.atRest.sound
  rcases Telling.startBough_cases hsettled hr with ⟨-, ⟨h, herror⟩, -⟩ | ⟨c₁, hc₁, -, hstarted⟩
  · cases herror
  cases hc.symm.trans hc₁
  rcases hstarted with ⟨herror, -⟩ | ⟨m₁, m', hm₁, hstart, -, hsame⟩
  · cases herror
  have hmachine := machine?_begun hs hm₁ i m' bough
  rw [prepared_of_store_eq_none hstore, machine?_inject hw.atRest.sound hm] at hm₁
  cases hm₁
  obtain ⟨b, -, rfl⟩ := Machine.start_eq_ok hstart
  exact ⟨_, (hsame.machine? c.handle).trans hmachine, fun _ => rfl⟩

end World

namespace Story

open World (Finishes Unfinished)

variable {log : Severity → String → δ → δ} {v w w' : World (Story δ)} {i : Nat} {h : Handle}

theorem Reachable.transition (hw : Reachable log w) (h : Transition w w') : Reachable log w' := by
  cases h with
  | act _ _ hr => exact reachable_act _ _ _ _ _ hw hr
  | operate _ hexec => exact hw.operate hexec
  | update _ => exact hw.update fun _ => _

theorem Reachable.transitions (hw : Reachable log w)
    (hsteps : Relation.ReflTransGen Transition w w') : Reachable log w' := by
  induction hsteps with
  | refl => exact hw
  | tail _ h ih => exact ih.transition h

theorem Transition.outcome {P : World (Story δ) → Prop} (hP : World.Lasts i h P)
    (hstep : Transition w w') (hw : Reachable log w) (hopen : P w) :
    Unfinished i h w' ∨ Telling.Finished log P i h w' := by
  cases hstep with
  | act ha _ hr => exact Telling.act_outcome hP hw hopen ha hr
  | operate hop hexec => exact .inl ((hP.unfinished hopen).exec hop.2 hexec)
  | update hs => exact .inl ((hP.unfinished hopen).update hs.ledger)

/-- A conversation that finishes hands its values over, when there is no store. Whatever step
finishes it, from whichever world it is that the conversation is finished, the saved state changes
under the names of its variables only; and where host code leaves the saved state to the
conversations, that is what the whole step changes. A conversation that is started later, from the
same saved state, begins with the same values under the names that stand for values in both. -/
theorem Supervised.handover {w₁ w₂ w₃ : World (Story δ)} {a a' b : Conversation δ}
    {n : HostMachine (Story δ)} {j fuel : Nat} {bough : String}
    (hv : Supervised v) (hlog : Reachable log v)
    (ha : v.host.conversations[i]? = some a) (hbefore : a.phase ≠ .finished)
    (hstep : Transition v w₁)
    (ha' : w₁.host.conversations[i]? = some a') (hafter : a'.phase = .finished)
    (hbetween : Relation.ReflTransGen Transition w₁ w₂)
    (hsaved : w₂.host.state = w₁.host.state) (hstore : w₂.host.store = none)
    (hb : w₂.host.conversations[j]? = some b) (hn : w₂.machine? b.handle = some n)
    (hempty : n.domains.isEmpty = true)
    (hstart : (Telling.startBough fuel j bough).Yields w₂ (.ok ()) w₃) :
    ∃ m, w₁.machine? a.handle = some m ∧
      (∃ w, Reachable log w ∧ Finishes i a.handle w w₁) ∧
      (∀ w, Reachable log w → Finishes i a.handle w w₁ →
        ∀ name, w₁.host.state.get? name ≠ w.host.state.get? name →
          ∃ u, m.value name = .ok u ∧ u.Finite) ∧
      (thrifty.Orderly none v →
        ∀ name, w₁.host.state.get? name ≠ v.host.state.get? name →
          ∃ u, m.value name = .ok u ∧ u.Finite) ∧
      ∃ n', w₃.machine? b.handle = some n' ∧
        ∀ name u g, m.value name = .ok u → u.Finite → u.Proper →
          n.global? name = some g → g.slot.isFunction = false → n'.value name = .ok u := by
  have hopen : Unfinished i a.handle v := ⟨hv.registered.orderly, a, ha, rfl, hbefore⟩
  have hlasts := World.lasts_saved (δ := δ) i a.handle v.host.state (T := thrifty.Orderly none v)
  rcases hstep.outcome hlasts hlog ⟨hopen, fun h => ⟨h, rfl⟩⟩ with
    hopen₁ | ⟨w, hw, ⟨-, hkept⟩, hfinishes⟩
  · obtain ⟨c, hc, -, hphase⟩ := hopen₁.own
    cases ha'.symm.trans hc
    exact absurd hafter hphase
  obtain ⟨m, hm, hholds, hchanged⟩ := hfinishes.saves hw
  have hw₂ := (hlog.transition hstep).transitions hbetween
  obtain ⟨n', hn', hvalue⟩ := World.machine?_of_start hw₂ hstore hb hn hstart
  refine ⟨m, hm, ⟨w, hw, hfinishes⟩, fun w' hw' hfinishes' name hname => ?_,
    fun hthrifty name hname => hchanged name ((hkept hthrifty).2 ▸ hname), n', hn',
    fun name u g hu hfinite hproper hg hdata => ?_⟩
  · obtain ⟨m', hm', -, hchanged'⟩ := hfinishes'.saves hw'
    cases hm.symm.trans hm'
    exact hchanged' name hname
  · obtain ⟨x, hx, hget, -⟩ := hholds name u hu hfinite
    have hsaved? : w₂.host.state.value? name = some (.ok u) := by
      rw [Snapshot.value?, hsaved, hget, Option.map_some, Value.ofJson_toJson hproper hx]
    rw [hvalue]
    exact (World.machine?_isParsed hw₂.atRest hn).value_resumed_of_saved hempty hg hdata hsaved?

/-- The diary notes that someone has been met, and is finished. The acquaintance, who has the same
variable, begins with that. -/
theorem diary_runs : ∃ (data data' : CompiledData) (x y v w₁ w₃ : World (Story Unit))
    (r₁ r₂ r₃ r₄ : Except StoryError Unit) (a a' b : Conversation Unit)
    (m n : HostMachine (Story Unit)) (g : Global (List Value → Reaction (Story Unit))),
    ((Act.create .empty data {}).telling 9).Yields
        (.create (logging fun _ _ x => x) (.create ()) : World (Story Unit)) r₁ x ∧
      x.arena.HasRoom ∧ ((Act.create .empty data' {}).telling 9).Yields x r₂ y ∧
      ((Act.start 0).telling 9).Yields y r₃ v ∧ v.host.conversations[0]? = some a ∧
      a.phase = .started ∧ ((Act.tick 0).telling 9).Yields v r₄ w₁ ∧
      w₁.host.conversations[0]? = some a' ∧ a'.phase = .finished ∧ w₁.host.store = none ∧
      w₁.machine? a.handle = some m ∧ m.value "met" = .ok (.bool true) ∧
      w₁.host.conversations[1]? = some b ∧ w₁.machine? b.handle = some n ∧
      n.domains.isEmpty = true ∧ n.global? "met" = some g ∧ g.slot.isFunction = false ∧
      (Telling.startBough 9 1 "main").Yields w₁ (.ok ()) w₃ := by
  have h : (do
      let bytes ← (Builder.run .offset diary).build.toOption
      let data ← (CompiledData.ofBytes bytes).toOption
      let bytes' ← (Builder.run .offset Telling.acquaintance).build.toOption
      let data' ← (CompiledData.ofBytes bytes').toOption
      let x ← ((Act.create .empty data {}).telling 9).run.run
        (.create (logging fun _ _ x => x) (.create ()) : World (Story Unit))
      let y ← ((Act.create .empty data' {}).telling 9).run.run x.2
      let v ← ((Act.start 0).telling 9).run.run y.2
      let a ← v.2.host.conversations[0]?
      let w₁ ← ((Act.tick 0).telling 9).run.run v.2
      let a' ← w₁.2.host.conversations[0]?
      let m ← w₁.2.machine? a.handle
      let b ← w₁.2.host.conversations[1]?
      let n ← w₁.2.machine? b.handle
      let g ← n.global? "met"
      let w₃ ← (Telling.startBough 9 1 "main").run.run w₁.2
      let met ← (m.value "met").toOption
      return [decide (a.phase = .started), decide (a'.phase = .finished), n.domains.isEmpty,
        !g.slot.isFunction, decide (w₃.1 = .ok ()), met == .bool true, decide (x.2.arena.slots.length = 1),
        w₁.2.host.store.isNone]) =
      some [true, true, true, true, true, true, true, true] := by
    decide +kernel
  obtain ⟨bytes, -, h⟩ := Option.bind_eq_some_iff.mp h
  obtain ⟨data, -, h⟩ := Option.bind_eq_some_iff.mp h
  obtain ⟨bytes', -, h⟩ := Option.bind_eq_some_iff.mp h
  obtain ⟨data', -, h⟩ := Option.bind_eq_some_iff.mp h
  obtain ⟨⟨r₁, x⟩, hcreate, h⟩ := Option.bind_eq_some_iff.mp h
  obtain ⟨⟨r₂, y⟩, hcreate', h⟩ := Option.bind_eq_some_iff.mp h
  obtain ⟨⟨r₃, v⟩, hstart, h⟩ := Option.bind_eq_some_iff.mp h
  obtain ⟨a, ha, h⟩ := Option.bind_eq_some_iff.mp h
  obtain ⟨⟨r₄, w₁⟩, htick, h⟩ := Option.bind_eq_some_iff.mp h
  obtain ⟨a', ha', h⟩ := Option.bind_eq_some_iff.mp h
  obtain ⟨m, hm, h⟩ := Option.bind_eq_some_iff.mp h
  obtain ⟨b, hb, h⟩ := Option.bind_eq_some_iff.mp h
  obtain ⟨n, hn, h⟩ := Option.bind_eq_some_iff.mp h
  obtain ⟨g, hg, h⟩ := Option.bind_eq_some_iff.mp h
  obtain ⟨⟨r₅, w₃⟩, hstart', h⟩ := Option.bind_eq_some_iff.mp h
  obtain ⟨met, hmet, h⟩ := Option.bind_eq_some_iff.mp h
  simp only [pure, Option.some.injEq, List.cons.injEq, decide_eq_true_eq, Bool.not_eq_true',
    and_true] at h
  obtain ⟨hbefore, hafter, hempty, hdata, rfl, htrue, hslots, hnone⟩ := h
  rw [Telling.eq_bool_of_beq htrue] at hmet
  have hroom : x.arena.HasRoom := by
    rw [Arena.HasRoom, hslots]
    decide
  exact ⟨data, data', x, y, v, w₁, w₃, r₁, r₂, r₃, r₄, a, a', b, m, n, g, hcreate, hroom, hcreate',
    hstart, ha, hbefore, htick, ha', hafter, Option.isNone_iff_eq_none.mp hnone, hm,
    Except.toOption_eq_some_iff.mp hmet, hb, hn, hempty, hg, hdata, hstart'⟩

theorem obeys_create (data : CompiledData) :
    (Act.create .empty data {} : Act Unit).Obeys bookkeeping := by
  intro name arity body hmem
  cases hmem

theorem handover_diary : ∃ (v w w₁ w₃ : World (Story Unit)) (a b : Conversation Unit)
    (m n' : HostMachine (Story Unit)), Supervised v ∧ v.host.conversations[0]? = some a ∧
      a.phase = .started ∧ Transition v w₁ ∧ Finishes 0 a.handle w w₁ ∧
        w₁.machine? a.handle = some m ∧ m.value "met" = .ok (.bool true) ∧
          w₁.host.conversations[1]? = some b ∧
            (Telling.startBough 9 1 "main").Yields w₁ (.ok ()) w₃ ∧
              w₃.machine? b.handle = some n' ∧ n'.value "met" = .ok (.bool true) := by
  obtain ⟨data, data', x, y, v, w₁, w₃, r₁, r₂, r₃, r₄, a, a', b, m, n, g, hcreate, hroom, hcreate',
    hstart, ha, hbefore, htick, ha', hafter, hnone, hm, hmet, hb, hn, hempty, hg, hdata,
    hstart'⟩ := diary_runs
  have hcreated : Transition (.create (logging fun _ _ x => x) (.create ())) x :=
    .act (obeys_create data) (show 0 < UInt32.size by decide) hcreate
  have hcreated' : Transition x y := .act (obeys_create data') hroom hcreate'
  have hstarted : Transition y v := .act (by trivial) (by trivial) hstart
  have hstep : Transition v w₁ := .act (by trivial) (by trivial) htick
  have hv : Supervised v := (((Supervised.create (fun _ _ _ => ⟨rfl, rfl⟩) rfl rfl rfl).step
    hcreated).step hcreated').step hstarted
  have hlog := (((Reachable.create _).transition hcreated).transition hcreated').transition hstarted
  obtain ⟨m', hm', ⟨w, -, hfinishes⟩, -, -, n', hn', hvalue⟩ :=
    Supervised.handover hv hlog ha (by simp [hbefore]) hstep ha' hafter .refl rfl hnone hb hn hempty
      hstart'
  obtain rfl : m = m' := Option.some.inj (hm.symm.trans hm')
  have hfinite : (Value.bool true).Finite := by
    intro d x hx
    cases hx
  have hproper : (Value.bool true).Proper := by
    intro d x hx
    cases hx
    trivial
  exact ⟨v, w, w₁, w₃, a, b, m, n', hv, ha, hbefore, hstep, hfinishes, hm, hmet, hb, hstart', hn',
    hvalue "met" (.bool true) g hmet hfinite hproper hg hdata⟩

end Story

end Dialogue
