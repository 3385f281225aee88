import Dialogue.Proofs.Machine.Announcement
import Dialogue.Proofs.Machine.Intact
import Mathlib.Data.List.Chain

namespace Dialogue

def changesOf (name : String) (es : List Event) : List Value :=
  es.filterMap fun
    | .changed n v => if n = name then some v else none
    | _ => none

@[simp] theorem changesOf_nil (name : String) : changesOf name [] = [] := rfl

@[simp] theorem changesOf_append (name : String) (es es' : List Event) :
    changesOf name (es ++ es') = changesOf name es ++ changesOf name es' :=
  List.filterMap_append

@[simp] theorem changesOf_changed (name n : String) (v : Value) :
    changesOf name [.changed n v] = if n = name then [v] else [] := by
  unfold changesOf
  split <;> simp_all

theorem changesOf_of_quiet {name : String} {es : List Event}
    (h : ∀ e ∈ es, e.isChange = false) : changesOf name es = [] := by
  apply List.filterMap_eq_nil_iff.mpr
  intro e he
  cases e with
  | changed n v => cases h _ he
  | _ => rfl

namespace Machine

variable {φ σ : Type} {c : Container} {m m' : Machine φ} {name : String} {v : Value}

theorem isSubscribed_eq (m : Machine φ) (name : String) :
    m.isSubscribed name = (m.outlines.find? (·.1.name == name)).any (·.2) := by
  rw [isSubscribed, global?, outlines, List.find?_map, Option.any_map]
  rfl

theorem Progress.isSubscribed (h : Progress m m') (name : String) :
    m'.isSubscribed name = m.isSubscribed name := by
  rw [isSubscribed_eq, isSubscribed_eq, h.outlines]

/-- What has been announced of a global leads from a value to the one it has now. A value is
compared with the one after it, which stands on the right. -/
structure Tracks (name : String) (v : Value) (m : Machine φ) : Prop where
  chain : (v :: changesOf name m.events).IsChain fun u w => (u == w) = false
  value : m.value name = .ok ((changesOf name m.events).getLastD v)

theorem Tracks.append {u : Value} (h : Tracks name v m)
    (hfresh : ((changesOf name m.events).getLastD v == u) = false)
    (hevents : changesOf name m'.events = changesOf name m.events ++ [u])
    (hvalue : m'.value name = .ok u) : Tracks name v m' := by
  constructor
  · rw [hevents, ← List.cons_append]
    refine h.chain.append (.singleton u) fun x hx y hy => ?_
    rw [List.getLast?_cons, ← List.getLastD_eq_getLast?, Option.mem_some_iff] at hx
    cases hy
    exact hx ▸ hfresh
  · simpa [hevents] using hvalue

theorem Tracks.congr (h : Tracks name v m)
    (hevents : changesOf name m'.events = changesOf name m.events)
    (hvalue : m'.value name = m.value name) : Tracks name v m' :=
  ⟨hevents ▸ h.chain, by rw [hevents, hvalue, h.value]⟩

theorem value_eq_current {g : Global φ} (hg : m.global? name = some g)
    (h : m.value name = .ok v) : g.slot.current = v := by
  simp only [value, hg] at h
  cases hslot : g.slot <;> simp_all [Slot.current]

theorem observed_of_isSubscribed {g : Global φ} (hg : m.global? name = some g)
    (h : m.isSubscribed name = true) : g.observed = true := by
  simpa [isSubscribed, hg] using h

theorem Proceeds.tracks (hparsed : m.IsParsed) (hsubscribed : m.isSubscribed name = true)
    (h : Proceeds m m') (hm : Tracks name v m) : Tracks name v m' := by
  cases h with
  | move es quiet _ _ globals events =>
    apply hm.congr
    · simp [events, changesOf_of_quiet quiet]
    · rw [value, value, global?, global?, globals]
  | store index u g found _ fresh _ _ globals events =>
    obtain ⟨hmem, rfl⟩ := slotAt?_mem found
    have hg := hparsed.global?_of_mem hmem
    have hglobal : m'.global? name = if name = g.symbol.name then some { g with slot := .value u }
        else m.global? name := by
      rw [global?, globals]
      exact hparsed.global?_write hg (.value u) name
    by_cases hname : g.symbol.name = name
    · subst hname
      rw [if_pos rfl] at hglobal
      refine hm.append (u := u) ?_ ?_ (value_of_global? hglobal rfl)
      · rwa [← value_eq_current hg hm.value]
      · simp [events, observed_of_isSubscribed hg hsubscribed]
    · rw [if_neg (Ne.symm hname)] at hglobal
      apply hm.congr
      · cases hobserved : g.observed <;> simp [events, hobserved, hname]
      · rw [value, value, hglobal]

theorem Progress.tracks (hparsed : m.IsParsed) (hsubscribed : m.isSubscribed name = true)
    (h : Progress m m') (hm : Tracks name v m) : Tracks name v m' := by
  induction h with
  | refl => exact hm
  | tail hprogress hstep ih =>
    exact hstep.tracks ((Progress.sameFrame hprogress).isParsed hparsed)
      ((Progress.isSubscribed hprogress name).trans hsubscribed) ih

def Discloses (m : Machine φ) : Prop :=
  ∀ name v, .changed name v ∈ m.events → m.isSubscribed name = true

theorem Proceeds.discloses (hparsed : m.IsParsed) (h : Proceeds m m') (hm : m.Discloses) :
    m'.Discloses := by
  intro name v he
  rw [Progress.isSubscribed (.single h)]
  cases h with
  | move es quiet _ _ _ events =>
    rw [events, List.mem_append] at he
    rcases he with he | he
    · exact hm name v he
    · cases quiet _ he
  | store index u g found _ _ _ _ _ events =>
    rw [events, List.mem_append] at he
    rcases he with he | he
    · exact hm name v he
    · split at he
      · rename_i hobserved
        obtain ⟨rfl, rfl⟩ := Event.changed.inj (List.mem_singleton.mp he)
        rw [Machine.isSubscribed, hparsed.global?_of_mem (slotAt?_mem found).1]
        exact hobserved
      · cases he

theorem Progress.discloses (hparsed : m.IsParsed) (h : Progress m m') (hm : m.Discloses) :
    m'.Discloses := by
  induction h with
  | refl => exact hm
  | tail hprogress hstep ih => exact hstep.discloses ((Progress.sameFrame hprogress).isParsed hparsed) ih

/-- What is queued when a run from `m` ends in `m'`. -/
structure Notifies (m m' : Machine φ) : Prop where
  shape : ∃ es rest, m'.events = es ++ rest ∧ (∀ e ∈ es, e.isChange = true) ∧
    (rest = [] ∨ (∃ l, rest = [.line l]) ∨ ∃ cs, rest = [.choices cs])
  line : (∃ l, m'.events.getLast? = some (.line l)) ↔ m'.state = .waiting .continuation
  choices : (∃ cs, m'.events.getLast? = some (.choices cs)) ↔ m'.state = .waiting .choice
  pending : ∀ cs, m'.events.getLast? = some (.choices cs) → cs = m'.pending
  tracks : ∀ name, m.isSubscribed name = true → ∃ v, m.value name = .ok v ∧ Tracks name v m'
  silent : ∀ name v, .changed name v ∈ m'.events → m.isSubscribed name = true

theorem getLast?_of_changes {es : List Event} (h : ∀ e ∈ es, e.isChange = true) (e : Event)
    (he : e.isChange = false) : es.getLast? ≠ some e := by
  intro hlast
  have hchange := h e (List.mem_of_getLast? hlast)
  rw [he] at hchange
  cases hchange

theorem Announces.notifies (h : m'.Announces) (htracks : ∀ name, m.isSubscribed name = true →
      ∃ v, m.value name = .ok v ∧ Tracks name v m')
    (hsilent : ∀ name v, .changed name v ∈ m'.events → m.isSubscribed name = true) :
    Notifies m m' := by
  cases h with
  | changes idle events =>
    have hlast := getLast?_of_changes events
    have hstate (kind : WaitKind) : m'.state ≠ .waiting kind := by
      intro hstate
      simp [isWaiting, hstate] at idle
    have hline (l : Line) : m'.events.getLast? ≠ some (.line l) := hlast _ rfl
    have hchoices (cs : List Choice) : m'.events.getLast? ≠ some (.choices cs) := hlast _ rfl
    refine ⟨⟨m'.events, [], by simp, events, .inl rfl⟩, ?_, ?_, ?_, htracks, hsilent⟩
    · simp [hline, hstate]
    · simp [hchoices, hstate]
    · simp [hchoices]
  | line state es changes l events =>
    have hlast : m'.events.getLast? = some (.line l) := by simp [events]
    refine ⟨⟨es, _, events, changes, .inr (.inl ⟨l, rfl⟩)⟩, ?_, ?_, ?_, htracks, hsilent⟩
    all_goals simp [hlast, state]
  | choices state es changes events =>
    have hlast : m'.events.getLast? = some (.choices m'.pending) := by simp [events]
    refine ⟨⟨es, _, events, changes, .inr (.inr ⟨_, rfl⟩)⟩, ?_, ?_, ?_, htracks, hsilent⟩
    all_goals simp [hlast, state]

variable {host : φ → List Value → σ → Option (HostResult × σ)} {fuel : Nat} {s s' : σ}
  {ended : RunEnd}

theorem Intact.notifies (hparsed : m.IsParsed) (hm : m.Intact c) (hstate : m.state = .running)
    (hevents : m.events = []) (h : m.run host fuel s = some (ended, m', s')) : Notifies m m' := by
  have hprogress := progress_run h
  refine (announces_run hstate hevents h).1.notifies (fun name hsubscribed => ?_)
    fun name v he => ?_
  · obtain ⟨-, v, hv⟩ := hm.subscribed name hsubscribed
    have htracks : Tracks name v m := ⟨by simp [hevents], by simpa [hevents] using hv⟩
    exact ⟨v, hv, Progress.tracks hparsed hsubscribed hprogress htracks⟩
  · have hdiscloses : m.Discloses := by simp [Discloses, hevents]
    rw [← Progress.isSubscribed hprogress name]
    exact Progress.discloses hparsed hprogress hdiscloses name v he

theorem events_perform {a : Act φ} (hrun : a ≠ .run) (htake : a ≠ .takeEvents)
    (h : a.perform host fuel m s = some (ended, m', s')) : m'.events = m.events := by
  have hreturns {r : Except MachineError (Machine φ)}
      (hok : ∀ m', r = .ok m' → m'.events = m.events)
      (h : m.returns s r = some (ended, m', s')) : m'.events = m.events :=
    of_returns (P := fun m' => m'.events = m.events) rfl hok h
  cases a with
  | run => exact absurd rfl hrun
  | takeEvents => exact absurd rfl htake
  | start bough => exact hreturns (fun _ h => (sameQueues_start h).1) h
  | selectContinue => exact hreturns (fun _ h => (adjusts_selectContinue h).events) h
  | selectChoice index => exact hreturns (fun _ h => (sameQueues_selectChoice h).1) h
  | setExtern name v => exact hreturns (fun _ h => (adjusts_setExtern h).events) h
  | setFunction name arity body => exact hreturns (fun _ h => (adjusts_setFunction h).events) h
  | subscribe name => exact hreturns (fun _ h => (adjusts_subscribe h).events) h
  | value name =>
    refine hreturns (fun _ h => ?_) h
    obtain ⟨_, -, rfl⟩ := Except.map_eq_ok_iff.mp h
    rfl
  | unsubscribe name =>
    cases h
    exact (adjusts_unsubscribe m name).events
  | load saved =>
    cases h
    exact (adjusts_loadEntries m saved.entries).events
  | halt | declareEnum | save | takeDiagnostics =>
    cases h
    rfl

/-- A run queues changes of observed globals, each with a value that differs from the one before,
and behind them the line or the choices that the machine waits with. No other act queues
anything. -/
theorem notifies_of_reachable {bytes : Bytes} (hparse : Container.parse bytes = .ok c)
    (hm : Reachable c m) :
    (m.state = .running → m.events = [] →
      ∀ {σ : Type} (host : φ → List Value → σ → Option (HostResult × σ)) (fuel : Nat) (s s' : σ)
        (ended : RunEnd) (m' : Machine φ),
        m.run host fuel s = some (ended, m', s') → Notifies m m') ∧
    ∀ {σ : Type} (host : φ → List Value → σ → Option (HostResult × σ)) (fuel : Nat) (s s' : σ)
      (a : Act φ) (ended : RunEnd) (m' : Machine φ), a ≠ .run → a ≠ .takeEvents →
        a.perform host fuel m s = some (ended, m', s') → m'.events = m.events := by
  refine ⟨fun hstate hevents σ host fuel s s' ended m' h => ?_,
    fun host fuel s s' a ended m' => events_perform⟩
  obtain ⟨-, hparsed⟩ := isParsed_of_reachable hparse hm
  exact (intact_of_reachable hparse hm).notifies hparsed hstate hevents h

def swings : List Builder.Call :=
  [.scriptVariable "mood", .bough "main", .set 0 .nil, .set 0 (.bool true), .set 0 (.bool false),
    .line "Mara" "Hm." [], .stop]

theorem notifies_swings : ∃ (c : Container) (m m' : Machine Unit), Reachable c m ∧
    m.state = .running ∧ m.events = [] ∧ m.isSubscribed "mood" = true ∧ Notifies m m' ∧
      m'.state = .waiting .continuation ∧
        (changesOf "mood" m'.events).map Value.isTruthy = [true, false] ∧
        m.takeDiagnostics.2.events = m.events := by
  have hbuild : ((Builder.run .offset swings).build.map Array.size) = .ok 103 := by decide +kernel
  obtain ⟨bytes, hbuild, hsize⟩ := Except.map_eq_ok_iff.mp hbuild
  have hparse := Builder.parse_run (by decide) (by decide) (by decide +kernel) (by decide)
    (by rw [← hsize]; decide) hbuild
  rw [← hsize] at hparse
  let c := Builder.assembled .offset swings 103
  let host : Unit → List Value → Unit → Option (HostResult × Unit) := fun _ _ _ => none
  have hplay : ((create c : Machine Unit).subscribe "mood").bind (fun m =>
      (m.start "main").map fun m =>
        ((m.state, m.events.length, m.isSubscribed "mood"), (m.run host 5 ()).map fun r =>
          (r.2.1.state, (changesOf "mood" r.2.1.events).map Value.isTruthy))) =
      .ok ((.running, 0, true), some (.waiting .continuation, [true, false])) := by
    decide +kernel
  obtain ⟨m₀, hsubscribe, hplay⟩ := Except.bind_eq_ok_iff.mp hplay
  obtain ⟨m, hstart, hplay⟩ := Except.map_eq_ok_iff.mp hplay
  simp only [Prod.mk.injEq] at hplay
  obtain ⟨⟨hstate, hevents, hsubscribed⟩, hrun⟩ := hplay
  obtain ⟨⟨ended, m', s⟩, hrun, hends⟩ := Option.map_eq_some_iff.mp hrun.symm
  simp only [Prod.mk.injEq] at hends
  have hreachable : Reachable c m := .start (.subscribe .create hsubscribe) hstart
  obtain ⟨hnotifies, hquiet⟩ := notifies_of_reachable hparse hreachable
  have hnone : m.events = [] := List.eq_nil_of_length_eq_zero hevents.symm
  exact ⟨c, m, m', hreachable, hstate.symm, hnone, hsubscribed.symm,
    hnotifies hstate.symm hnone host 5 () s ended m' hrun, hends.1, hends.2,
    hquiet host 5 () () .takeDiagnostics .paused _ nofun nofun rfl⟩

end Machine

end Dialogue
