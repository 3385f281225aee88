import Dialogue.Proofs.Host.Delivery
import Dialogue.Proofs.Reading

namespace Dialogue

open Trace

variable {ε : Type} {i j : Nat} {h : Handle}

namespace Recorded

variable {s s' : Recorded ε} {m m' : HostMachine ε} {inst : Instance ε}

theorem additions_eq (hgrows : Machine.Grows m m') : ∃ es ds,
    m'.events = m.events ++ es ∧ m'.diagnostics = m.diagnostics ++ ds ∧
      additions i m m' = es.map (.queued i) ++ ds.map (.diagnosed i) := by
  obtain ⟨⟨es, hes⟩, ds, hds⟩ := hgrows
  refine ⟨es, ds, hes.symm, hds.symm, ?_⟩
  rw [additions, ← hes, ← hds, List.drop_left, List.drop_left]

theorem subject_additions {o : Occurrence ε} (ho : o ∈ additions i m m') :
    o.subject? = some i := by
  simp only [additions, List.mem_append, List.mem_map] at ho
  rcases ho with ⟨e, -, rfl⟩ | ⟨e, -, rfl⟩ <;> rfl

theorem not_entered_additions {o : Occurrence ε} (ho : o ∈ additions i m m') (h : Handle)
    (j : Nat) (e : Event) : o ≠ .entered j h e := by
  simp only [additions, List.mem_append, List.mem_map] at ho
  rcases ho with ⟨e, -, rfl⟩ | ⟨e, -, rfl⟩ <;> exact nofun

theorem account_additions {st : Status} {t : List (Occurrence ε)} (ha : Account i st t)
    (hgrows : Machine.Grows m m') (hevents : st.events = m.events)
    (hdiagnostics : st.diagnostics = m.diagnostics)
    (hsame : st.dispatching = true → m'.events = m.events) (b : Bool) :
    Account i ⟨m'.events, m'.diagnostics, b, st.dispatching⟩ (t ++ additions i m m') := by
  obtain ⟨es, ds, hes, hds, hadditions⟩ := additions_eq (i := i) hgrows
  rw [hadditions]
  constructor
  · simp [projections_queued, projections_diagnosed, ha.reports, hds, hdiagnostics]
  · intro hd
    have hdelivered : delivered i (es.map (.queued i) ++ ds.map (.diagnosed i) :
        List (Occurrence ε)) = [] := by
      simp [delivered, projections_queued, projections_diagnosed]
    rw [queued_append, delivered_append, hdelivered, ha.deliveries hd]
    simp [projections_queued, projections_diagnosed, hes, hevents]
  · intro hd hinside
    rcases inside_append hinside with ⟨hinside, -⟩ | ⟨hd, e, hmem⟩
    · exact ha.outside hd hinside
    · simp at hmem
  · intro hd
    have hwaiting := ha.waiting hd
    rw [hsame hd, ← hevents, hwaiting]

theorem touches_additions {f : World ε → World ε} (harena : (f s.world).arena = s.world.arena)
    (hlength : (f s.world).instances.length = s.world.instances.length)
    (hothers : ∀ j, j ≠ i → (f s.world).status j = s.world.status j) (m m' : HostMachine ε) :
    Touches i s ((s.update f).note (additions i m m')) := by
  refine ⟨?_, hlength, hothers, additions i m m', rfl, fun o => subject_additions, ?_⟩
  · intro h j hj
    rwa [← harena]
  · intro h j e hmem
    exact absurd rfl (not_entered_additions hmem h j e)

theorem touches_store (s : Recorded ε) (i : Nat) (inst : Instance ε) (m : HostMachine ε) :
    Touches i s (s.store i inst m) := by
  apply touches_additions rfl
  · simp [World.setInstance]
  · exact fun j hj => World.status_setInstance_ne hj

theorem store_spec (hs : Sound none s) (hinst : s.world.instances[i]? = some inst)
    (hgrows : Machine.Grows inst.machine m)
    (hsame : inst.dispatching = true → m.events = inst.machine.events) :
    Sound (some i) (s.store i inst m) ∧ Keeps s (s.store i inst m) := by
  have hbefore := World.status_of_getElem? hinst
  have hafter : (s.store i inst m).world.status i =
      ⟨m.events, m.diagnostics, inst.busy, inst.dispatching⟩ :=
    World.status_setInstance_self hinst
  have haccount := hs.accounts i
  rw [hbefore] at haccount
  have htouches := touches_store s i inst m
  constructor
  · apply htouches.sound (hs.open i)
    rw [hafter]
    exact account_additions haccount hgrows rfl rfl hsame inst.busy
  · apply htouches.keeps
    have hqueued (hd : inst.dispatching = true) : queued i (additions i inst.machine m) = [] := by
      obtain ⟨es, ds, hes, -, hadditions⟩ := additions_eq (i := i) hgrows
      rw [hsame hd] at hes
      have hnil : es = [] := by simpa using hes
      simp [hadditions, hnil, projections_diagnosed]
    refine ⟨by rw [hafter, hbefore]; rfl, by rw [hafter, hbefore]; rfl, ?_, ?_⟩
    · intro hd
      rw [hbefore] at hd
      change queued i (s.trace ++ additions i inst.machine m) = _
      rw [queued_append, hqueued hd, List.append_nil]
    · intro _
      obtain ⟨es, ds, -, -, hadditions⟩ := additions_eq (i := i) hgrows
      change invocations i (s.trace ++ additions i inst.machine m) = _
      simp [hadditions, projections_queued, projections_diagnosed]

theorem unmoved_report (s : Recorded ε) (severity : Severity) (message : String) :
    Unmoved s { s with world := s.world.report severity message } :=
  ⟨World.still_report s.world severity message, rfl⟩

structure Prepares (i : Nat) (s s' : Recorded ε) : Prop where
  grows : s.trace <+: s'.trace
  sound : Sound none s → Calm s'.trace → Sound (some i) s'
  keeps : Sound none s → Calm s'.trace → Keeps s s'

theorem Prepares.refl (i : Nat) (s : Recorded ε) : Prepares i s s :=
  ⟨List.prefix_rfl, fun hs _ => hs.open i, fun _ _ => .refl s⟩

theorem prepares_store (hinst : s.world.instances[i]? = some inst)
    (hgrows : Machine.Grows inst.machine m)
    (hsame : inst.dispatching = true → m.events = inst.machine.events) :
    Prepares i s (s.store i inst m) :=
  ⟨(touches_store s i inst m).grows, fun hs _ => (store_spec hs hinst hgrows hsame).1,
    fun hs _ => (store_spec hs hinst hgrows hsame).2⟩

theorem prepares_startInstance {bough : String} {r : Except LibraryError Bool}
    (hinst : s.world.instances[i]? = some inst)
    (hr : startInstance bough i inst s = some (r, s')) : Prepares i s s' := by
  unfold startInstance at hr
  split at hr
  · rename_i m hstart
    cases hr
    obtain ⟨hevents, hdiagnostics⟩ := Machine.sameQueues_start hstart
    exact prepares_store hinst ⟨hevents ▸ List.prefix_rfl, hdiagnostics ▸ List.prefix_rfl⟩
      fun _ => hevents
  · cases hr
    exact .refl i s

theorem touches_occupy (s : Recorded ε) (i : Nat) (inst : Instance ε) :
    Touches i s (s.occupy i inst) := by
  refine ⟨fun _ _ => id, by simp [occupy, update, World.setInstance], ?_, [], by simp [occupy]⟩
  intro j hj
  exact World.status_setInstance_ne hj

theorem touches_vacate (s : Recorded ε) (i : Nat) (m m' : HostMachine ε) :
    Touches i s (s.vacate i m m') := by
  apply touches_additions rfl
  · simp [World.modifyInstance]
  · exact fun j hj => World.status_modifyInstance_ne hj

theorem status_occupy (hinst : s.world.instances[i]? = some inst) : (s.occupy i inst).world.status i =
    ⟨inst.machine.events, inst.machine.diagnostics, true, inst.dispatching⟩ :=
  World.status_setInstance_self hinst

theorem status_vacate (hinst : s.world.instances[i]? = some inst) :
    (s.vacate i m m').world.status i = ⟨m'.events, m'.diagnostics, false, inst.dispatching⟩ :=
  World.status_modifyInstance_self hinst

theorem sound_occupy (hs : Sound none s) (hinst : s.world.instances[i]? = some inst) :
    Sound none (s.occupy i inst) := by
  have haccount := hs.accounts i
  have htaken := hs.taken i nofun
  rw [World.status_of_getElem? hinst] at haccount htaken
  have hstatus := status_occupy hinst
  refine ((touches_occupy s i inst).sound (hs.open i) ?_).close ?_ ?_
  · rw [hstatus]
    exact ⟨haccount.reports, haccount.deliveries, haccount.outside, haccount.waiting⟩
  · rw [hstatus]
    exact htaken.1
  · rw [hstatus]
    exact htaken.2

theorem sound_vacate (hs : Sound none s) (hinst : s.world.instances[i]? = some inst)
    (hidle : inst.dispatching = false) (hgrows : Machine.Grows m m') (hevents : m.events = [])
    (hdiagnostics : m.diagnostics = []) : Sound (some i) (s.vacate i m m') := by
  have haccount := hs.accounts i
  have htaken := hs.taken i nofun
  rw [World.status_of_getElem? hinst] at haccount htaken
  apply (touches_vacate s i m m').sound (hs.open i)
  -- Nothing was queued for the instance while it was busy, so that no machine is lost.
  rw [status_vacate hinst]
  apply account_additions haccount hgrows
  · rw [htaken.1, hevents]
  · rw [htaken.2, hdiagnostics]
  · intro hd
    exact absurd (hidle.symm.trans hd) nofun

theorem grows_conclude (m : HostMachine ε) (ended : RunEnd) :
    Machine.Grows m (World.conclude m ended).2 := by
  cases ended with
  | panic message => exact Machine.grows_halt m
  | _ => exact .refl m

theorem prepares_vacate {s₁ : Recorded ε} (hinst : s.world.instances[i]? = some inst)
    (hbusy : inst.busy = false) (hidle : inst.dispatching = false)
    (hadvances : Advances (s.occupy i inst) s₁) (hgrows : Machine.Grows inst.machine m) :
    Prepares i s (s₁.vacate i inst.machine m) := by
  have hoccupy := touches_occupy s i inst
  have hvacate := touches_vacate s₁ i inst.machine m
  have hbefore := World.status_of_getElem? hinst
  have hthere (hs : Sound none s) (hcalm : Calm (s₁.vacate i inst.machine m).trace) :
      Sound none s₁ ∧ Keeps (s.occupy i inst) s₁ ∧
        ∃ inst₁, s₁.world.instances[i]? = some inst₁ ∧ inst₁.dispatching = false := by
    have hs₀ := sound_occupy hs hinst
    have hcalm₁ := hcalm.mono hvacate.grows
    have hkeeps := hadvances.keeps hs₀ hcalm₁
    refine ⟨hadvances.sound hs₀ hcalm₁, hkeeps, ?_⟩
    obtain ⟨hi, -⟩ := List.getElem?_eq_some_iff.mp hinst
    have hlength := hkeeps.length
    rw [hoccupy.length] at hlength
    have hinst₁ := List.getElem?_eq_getElem (Nat.lt_of_lt_of_le hi hlength)
    refine ⟨_, hinst₁, ?_⟩
    have hsame := (hkeeps.each i).dispatching
    rw [status_occupy hinst, World.status_of_getElem? hinst₁] at hsame
    exact hsame.trans hidle
  refine ⟨hoccupy.grows.trans (hadvances.grows.trans hvacate.grows), ?_, ?_⟩
  · intro hs hcalm
    obtain ⟨hs₁, -, inst₁, hinst₁, hidle₁⟩ := hthere hs hcalm
    have htaken := hs.taken i nofun
    rw [hbefore] at htaken
    exact sound_vacate hs₁ hinst₁ hidle₁ hgrows htaken.1 htaken.2
  · intro hs hcalm
    obtain ⟨-, hkeeps, inst₁, hinst₁, hidle₁⟩ := hthere hs hcalm
    refine ⟨?_, fun j => ?_⟩
    · have hlength := hkeeps.length
      rw [hoccupy.length] at hlength
      rwa [hvacate.length]
    · by_cases hj : j = i
      · subst hj
        have hafter : (s₁.vacate j inst.machine m).world.status j = _ := status_vacate hinst₁
        apply KeepsAt.of_idle
        · rw [hafter, hbefore]
          exact hbusy.symm
        · rw [hbefore]
          exact hidle
        · rw [hafter]
          exact hidle₁
      · exact (hoccupy.keepsAt hj).trans ((hkeeps.each j).trans (hvacate.keepsAt hj))

section

variable {perform : Reaction ε → Recorded ε → Option (HostResult × Recorded ε)}
variable (hperform : ∀ {r s x s'}, perform r s = some (x, s') → Advances s s')

include hperform

theorem advances_flush {fuel : Nat} {s₁ : Recorded ε} (hfind : s.world.find h = .ok (i, inst))
    (hbusy : inst.busy = false) (hprepares : Prepares i s s₁)
    (hf : flush perform h i fuel s₁ = some s') : Advances s s' := by
  obtain ⟨hget, hinst⟩ := World.find_eq_ok hfind
  have hgrows := flush_grows hperform hf
  have hflush (hs : Sound none s) (hcalm : Calm s'.trace) : Sound none s' ∧ Keeps s₁ s' := by
    have hcalm₁ := hcalm.mono hgrows
    apply flush_spec hperform hf (hprepares.sound hs hcalm₁)
    · exact hprepares.grows.subset (hs.handles h i hget)
    · have hsame := ((hprepares.keeps hs hcalm₁).each i).busy
      rw [World.status_of_getElem? hinst] at hsame
      exact hsame.trans hbusy
    · exact hcalm
  refine ⟨hprepares.grows.trans hgrows, ?_, ?_⟩
  · intro hs hcalm
    exact (hflush hs hcalm).1
  · intro hs hcalm
    exact (hprepares.keeps hs (hcalm.mono hgrows)).trans (hflush hs hcalm).2

theorem advances_change {fuel : Nat} {c : Change ε} {r : Reply}
    (hc : ∀ {m m' r}, c.apply m = .ok (r, m') → m'.events = m.events ∧ Machine.Grows m m')
    (hr : change perform fuel c s = some (r, s')) : Advances s s' := by
  unfold change at hr
  split at hr
  · cases hr
    exact (unmoved_report s _ _).advances
  · rename_i i inst hfind
    obtain ⟨-, hinst⟩ := World.find_eq_ok hfind
    split at hr
    · cases hr
      exact (unmoved_report s _ _).advances
    · rename_i hbusy
      rw [Bool.not_eq_true] at hbusy
      split at hr
      · rename_i r m happly
        obtain ⟨s₁, hflush, hr⟩ := Option.map_eq_some_iff.mp hr
        cases hr
        obtain ⟨hevents, hgrows⟩ := hc happly
        have hprepares := prepares_store hinst hgrows fun _ => hevents
        exact advances_flush hperform hfind hbusy hprepares hflush
      · obtain ⟨s₁, hflush, hr⟩ := Option.map_eq_some_iff.mp hr
        cases hr
        exact (advances_flush hperform hfind hbusy (.refl i s) hflush).trans
          (unmoved_report s₁ _ _).advances

theorem advances_drive {fuel : Nat} {operation : String} {r : Reply}
    {f : Nat → Instance ε → Recorded ε → Option (Except LibraryError Bool × Recorded ε)}
    (hstart : ∀ {i inst s r s₁}, s.world.instances[i]? = some inst → inst.busy = false →
      inst.dispatching = false → f i inst s = some (r, s₁) → Prepares i s s₁)
    (hr : drive perform fuel operation h f s = some (r, s')) : Advances s s' := by
  unfold drive at hr
  split at hr
  · cases hr
    exact (unmoved_report s _ _).advances
  · rename_i i inst hfind
    obtain ⟨-, hinst⟩ := World.find_eq_ok hfind
    split at hr
    · cases hr
      exact (unmoved_report s _ _).advances
    · rename_i hdispatching
      rw [Bool.not_eq_true] at hdispatching
      split at hr
      · cases hr
        exact (unmoved_report s _ _).advances
      · rename_i hbusy
        rw [Bool.not_eq_true] at hbusy
        split at hr
        · cases hr
        · rename_i r s₁ hf
          obtain ⟨s₂, hflush, hr⟩ := Option.map_eq_some_iff.mp hr
          cases hr
          have hprepares := hstart hinst hbusy hdispatching hf
          exact (advances_flush hperform hfind hbusy hprepares hflush).trans
            (unmoved_answerFlag s₂ r).advances

theorem prepares_runInstance {fuel : Nat} {r : Except LibraryError Bool}
    (hinst : s.world.instances[i]? = some inst) (hbusy : inst.busy = false)
    (hidle : inst.dispatching = false)
    (hr : runInstance perform fuel i inst s = some (r, s')) : Prepares i s s' := by
  unfold runInstance at hr
  split at hr
  · cases hr
  · rename_i ended m s₁ hrun
    have hgrows : Machine.Grows inst.machine (World.conclude m ended).2 :=
      (Machine.grows_run hrun).trans (grows_conclude m ended)
    have hadvances : Advances (s.occupy i inst) s₁ := by
      apply Machine.run_induction Advances.refl Advances.trans ?_ hrun
      exact fun hhost => hperform hhost
    cases hr
    exact prepares_vacate hinst hbusy hidle hadvances hgrows

end

theorem sound_create (hs : Sound none s) (m : HostMachine ε)
    (callbacks : Handle → Event → Reaction ε) (hevents : m.events = [])
    (hdiagnostics : m.diagnostics = []) :
    let a := s.world.arena.insert s.world.instances.length
    let s' : Recorded ε := (s.update fun w => { w with
      arena := a.2, instances := w.instances ++ [⟨m, callbacks, false, false⟩] }).note
        [.created a.1 s.world.instances.length]
    Sound none s' ∧ Keeps s s' := by
  intro a s'
  have hstatus (i : Nat) : s'.world.status i = s.world.status i := by
    change ((s.world.instances ++ [_])[i]?.map Instance.status).getD .idle = _
    rw [World.status, List.getElem?_append]
    split
    · rfl
    · rename_i hi
      rw [List.getElem?_eq_none (Nat.not_lt.mp hi), List.getElem?_singleton]
      split
      · simp [Instance.status, Status.idle, hevents, hdiagnostics]
      · rfl
  have hcreated (h : Handle) (i : Nat) : .created h i ∈ s'.trace ↔
      .created h i ∈ s.trace ∨ (h = a.1 ∧ i = s.world.instances.length) := by
    change _ ∈ s.trace ++ [_] ↔ _
    simp
  have halike (i : Nat) : Alike i s.trace s'.trace := by
    apply alike_append
    simp [Occurrence.subject?]
  constructor
  · constructor
    · intro h i hi
      rw [hcreated]
      rcases Arena.get?_insert hi with hnew | hold
      · exact .inr hnew
      · exact .inl (hs.handles h i hold)
    · intro h i hi
      have hlength : s'.world.instances.length = s.world.instances.length + 1 := by simp [s', update]
      rcases (hcreated h i).mp hi with hi | ⟨-, rfl⟩
      · have hlt := hs.fresh h i hi
        omega
      · omega
    · intro h h' i hi hi'
      rcases (hcreated h i).mp hi with hi | ⟨rfl, rfl⟩
      · rcases (hcreated h' i).mp hi' with hi' | ⟨rfl, rfl⟩
        · exact hs.unique h h' i hi hi'
        · exact absurd (hs.fresh h _ hi) (Nat.lt_irrefl _)
      · rcases (hcreated h' _).mp hi' with hi' | ⟨rfl, -⟩
        · exact absurd (hs.fresh h' _ hi') (Nat.lt_irrefl _)
        · rfl
    · intro h i e hi
      rw [hcreated]
      refine .inl (hs.invoked h i e ?_)
      simpa [s'] using hi
    · intro i
      rw [hstatus]
      exact (hs.accounts i).alike (halike i)
    · intro i hi
      rw [hstatus]
      exact hs.taken i hi
    · apply contracts_append hs.contracts
      intro p op since before reply after q heq
      cases p <;> simp at heq
  · refine ⟨by simp [s', update], fun i => ?_⟩
    refine ⟨by rw [hstatus], by rw [hstatus], ?_, ?_⟩
    · exact fun _ => (halike i).queued
    · exact fun _ => (halike i).invocations

theorem advances_create (s : Recorded ε) (bytes : Bytes) (callbacks : Handle → Event → Reaction ε) :
    Advances s (s.create bytes callbacks).2 := by
  unfold create World.open?
  cases Container.parse bytes with
  | error e =>
    exact Unmoved.advances ⟨World.still_report s.world _ _, List.append_nil _⟩
  | ok c =>
    have hspec (hs : Sound none s) := sound_create hs (.create c) callbacks rfl rfl
    exact ⟨List.prefix_append _ _, fun hs _ => (hspec hs).1, fun hs _ => (hspec hs).2⟩

end Recorded

namespace World

theorem still_lend (w : World ε) (h : Handle) (name : String) : Still w (w.lend h name).2 := by
  unfold lend
  simp only
  split
  · exact still_answer w _
  · exact ⟨(still_answer w _).instances, (still_answer w _).arena⟩

theorem still_destroy (w : World ε) (h : Handle) : Still w (w.destroy h).2 := by
  unfold destroy
  split
  · rename_i arena harena
    exact ⟨rfl, fun _ _ => Arena.get?_remove harena⟩
  · exact still_report w _ _

theorem still_release (w : World ε) (number : Nat) : Still w (w.release number) := by
  unfold release
  split
  · exact .refl w
  · exact ⟨rfl, fun _ _ => id⟩

theorem exec_quiet {fuel : Nat} {op : Operation ε} {w w' : World ε} {r : Reply}
    (hquiet : op.isQuiet = true) (h : exec (fuel + 1) op w = some (r, w')) : Still w w' := by
  cases op <;> first | cases hquiet; done | skip
  case destroy h' =>
    cases h
    exact still_destroy w h'
  case getValue h' name =>
    cases h
    exact still_lend w h' name
  case release number =>
    cases h
    exact still_release w number
  case report severity message =>
    cases h
    exact still_report w severity message
  case isAlive | size | bufferBytes | outstanding | setSeverity | resetHandler =>
    cases h
    exact ⟨rfl, fun _ _ => id⟩
  all_goals
    cases h
    exact still_answer w _

end World

theorem Operation.change?_spec {op : Operation ε} {c : Change ε} (hc : op.change? = some c)
    {m m' : HostMachine ε} {r : Reply} (h : c.apply m = .ok (r, m')) :
    m'.events = m.events ∧ Machine.Grows m m' := by
  have hadjusts (hm : Machine.Adjusts m m') : m'.events = m.events ∧ Machine.Grows m m' :=
    ⟨hm.events, hm.grows⟩
  cases op <;> cases hc
  case unsubscribe h' name =>
    cases h
    exact hadjusts (Machine.adjusts_unsubscribe m name)
  case declareEnum h' d =>
    cases h
    exact hadjusts (Machine.adjusts_declareEnum m d)
  case save h' =>
    cases h
    exact hadjusts (Machine.adjusts_save m)
  case load h' snapshot =>
    cases h
    exact hadjusts (Machine.adjusts_loadEntries m snapshot.entries)
  all_goals
    obtain ⟨m₁, hm, heq⟩ := Except.map_eq_ok_iff.mp h
    cases heq
  case selectContinue h' => exact hadjusts (Machine.adjusts_selectContinue hm)
  case subscribe h' name => exact hadjusts (Machine.adjusts_subscribe hm)
  case setExtern h' name v => exact hadjusts (Machine.adjusts_setExtern hm)
  case setFunction h' name arity body => exact hadjusts (Machine.adjusts_setFunction hm)
  case selectChoice h' index =>
    obtain ⟨hevents, hdiagnostics⟩ := Machine.sameQueues_selectChoice hm
    exact ⟨hevents, hevents ▸ List.prefix_rfl, hdiagnostics ▸ List.prefix_rfl⟩

end Dialogue
