import Dialogue.Proofs.Container.RoundTrip
import Dialogue.Proofs.Host.Operations

/-!
In every history of operations, what machines queue is delivered and reported: every event once and
in order, and every diagnostic.
-/

namespace Dialogue

open Trace

variable {ε : Type}

theorem Sound.settled {s : Recorded ε} {i : Nat} (hs : Sound none s)
    (hbusy : (s.world.status i).busy = false) (hidle : (s.world.status i).dispatching = false) :
    s.world.status i = .idle ∧ delivered i s.trace = queued i s.trace ∧
      reported i s.trace = diagnosed i s.trace := by
  have haccount := hs.accounts i
  have hdeliveries := haccount.deliveries hidle
  have hreports := haccount.reports
  obtain ⟨hevents, hdiagnostics⟩ := hs.taken i nofun
  rw [hevents, List.append_nil] at hdeliveries
  rw [hdiagnostics, List.append_nil] at hreports
  refine ⟨?_, hdeliveries.symm, hreports.symm⟩
  cases hstatus : s.world.status i
  simp only [hstatus] at hbusy hidle hevents hdiagnostics
  rw [hbusy, hidle, hevents, hdiagnostics]
  rfl

namespace Recorded

variable {i : Nat} {h : Handle} {s s' : Recorded ε} {r : Reply} {fuel : Nat} {op : Operation ε}

section

variable {perform : Reaction ε → Recorded ε → Option (HostResult × Recorded ε)}

theorem drive_refused {operation : String}
    {f : Nat → Instance ε → Recorded ε → Option (Except LibraryError Bool × Recorded ε)}
    (hr : drive perform fuel operation h f s = some (r, s'))
    (hfind : ∀ i inst, s.world.find h = .ok (i, inst) →
      inst.dispatching = true ∨ inst.busy = true) : r = .flag false ∧ Unmoved s s' := by
  unfold drive at hr
  split at hr
  · cases hr
    exact ⟨rfl, unmoved_report s _ _⟩
  · rename_i i inst hinst
    split at hr
    · cases hr
      exact ⟨rfl, unmoved_report s _ _⟩
    · rename_i hdispatching
      split at hr
      · cases hr
        exact ⟨rfl, unmoved_report s _ _⟩
      · rename_i hbusy
        rcases hfind i inst hinst with hd | hb
        · exact absurd hd hdispatching
        · exact absurd hb hbusy

theorem enact_refused {quiet : World ε → Option (Reply × World ε)} (hdrives : op.Drives h)
    (hr : enact perform fuel op quiet s = some (r, s'))
    (hfind : ∀ i inst, s.world.find h = .ok (i, inst) →
      inst.dispatching = true ∨ inst.busy = true) : r = .flag false ∧ Unmoved s s' := by
  rcases hdrives with ⟨bough, rfl⟩ | rfl
  · exact drive_refused hr hfind
  · exact drive_refused hr hfind

theorem advances_enact (hperform : ∀ {r s x s'}, perform r s = some (x, s') → Advances s s')
    (hr : enact perform fuel op (World.exec (fuel + 1) op) s = some (r, s')) : Advances s s' := by
  rcases op.kinds with ⟨bytes, callbacks, rfl⟩ | ⟨h, bough, rfl⟩ | ⟨h, rfl⟩ | ⟨c, hc⟩ | hquiet
  · have hcreate := Option.some.inj hr
    have hadvances := advances_create s bytes callbacks
    rw [hcreate] at hadvances
    exact hadvances
  · exact advances_drive hperform (fun hinst _ _ hf => prepares_startInstance hinst hf) hr
  · have hrun : drive perform fuel "run" h (runInstance perform fuel) s = some (r, s') := hr
    exact advances_drive hperform
      (fun hinst hbusy hidle hf => prepares_runInstance hperform hinst hbusy hidle hf) hrun
  · rw [enact_change hc] at hr
    exact advances_change hperform (fun happly => Operation.change?_spec hc happly) hr
  · rw [enact_quiet hquiet] at hr
    obtain ⟨⟨r', w⟩, hexec, hr⟩ := Option.map_eq_some_iff.mp hr
    cases hr
    have hunmoved : Unmoved s (s.update fun _ => w) := ⟨World.exec_quiet hquiet hexec, rfl⟩
    exact hunmoved.advances

theorem contract_enact {quiet : World ε → Option (Reply × World ε)}
    (hr : enact perform fuel op quiet s = some (r, s')) (hadvances : Advances s s')
    (hs : Sound none s) (hcalm : Calm s'.trace) :
    Contract s'.trace op s.trace.length s.world r s'.world := by
  have hs' := hadvances.sound hs hcalm
  have hkeeps := hadvances.keeps hs hcalm
  have hsettled (i : Nat) (hbusy : (s.world.status i).busy = false)
      (hidle : (s.world.status i).dispatching = false) :=
    hs'.settled ((hkeeps.each i).busy.trans hbusy) ((hkeeps.each i).dispatching.trans hidle)
  constructor
  · intro h i inst hfind
    exact hadvances.grows.subset (hs.handles h i (World.find_eq_ok hfind).1)
  · exact hkeeps.length
  · exact hsettled
  · intro h i inst hop hfind
    have hstatus := World.status_of_getElem? (World.find_eq_ok hfind).2
    by_cases hd : inst.dispatching = true ∨ inst.busy = true
    · left
      have hrefused := enact_refused (.inr hop) hr fun i' inst' hfind' => by
        rw [hfind] at hfind'
        cases hfind'
        exact hd
      rw [hrefused.2.trace]
    · right
      simp only [not_or, Bool.not_eq_true] at hd
      exact (hsettled i (by rw [hstatus]; exact hd.2) (by rw [hstatus]; exact hd.1)).2.1
  · intro h i hdrives hinside hsame
    have htake : s'.trace.take s.trace.length = s.trace := by
      obtain ⟨os, hos⟩ := hadvances.grows
      rw [← hos, List.take_left]
    rw [htake] at hinside
    have hdispatching : (s.world.status i).dispatching = true := by
      by_contra hd
      exact (hs.accounts i).outside (Bool.not_eq_true _ ▸ hd) hinside
    have hrefused := enact_refused hdrives hr fun j inst hfind => by
      have hj := hsame j inst hfind
      subst hj
      rw [World.status_of_getElem? (World.find_eq_ok hfind).2] at hdispatching
      exact .inl hdispatching
    exact ⟨hrefused.1, hrefused.2.instances⟩

end

theorem alike_return (s : Recorded ε) (op : Operation ε) (since : Nat) (before : World ε)
    (reply : Reply) (after : World ε) (i : Nat) :
    Alike i s.trace (s.note [.returned op since before reply after]).trace := by
  apply alike_append
  simp [Occurrence.subject?]

theorem sound_return {since : Nat} {before : World ε} (hs : Sound none s)
    (hcontract : Contract s.trace op since before r s.world) :
    Sound none (s.note [.returned op since before r s.world]) := by
  refine hs.extend rfl (fun _ _ => id) (Nat.le_refl _) (by simp) (by simp) ?_ hs.taken ?_
  · intro i
    exact (hs.accounts i).alike (alike_return s op since before r s.world i)
  · intro p op' since' before' reply' after' q heq
    cases p with
    | nil =>
      cases heq
      rwa [List.append_nil]
    | cons o p => simp at heq

theorem advances_exec (hr : exec fuel op s = some (r, s')) : Advances s s' := by
  -- The operations within this one have less fuel.
  induction fuel generalizing op s r s' with
  | zero => cases hr
  | succ fuel ih =>
    rw [exec] at hr
    obtain ⟨⟨r', s₁⟩, henact, hr⟩ := Option.map_eq_some_iff.mp hr
    cases hr
    have hadvances : Advances s s₁ :=
      advances_enact (fun hr => advances_perform (fun hop => ih hop) _ _ hr) henact
    have hgrows :
        s₁.trace <+: (s₁.note [.returned op s.trace.length s.world r s₁.world]).trace :=
      List.prefix_append _ _
    refine ⟨hadvances.grows.trans hgrows, ?_, ?_⟩
    · intro hs hcalm
      have hcalm₁ := hcalm.mono hgrows
      exact sound_return (hadvances.sound hs hcalm₁) (contract_enact henact hadvances hs hcalm₁)
    · intro hs hcalm
      apply (hadvances.keeps hs (hcalm.mono hgrows)).trans
      refine ⟨Nat.le_refl _, fun i => ?_⟩
      have halike := alike_return s₁ op s.trace.length s.world r s₁.world i
      exact ⟨rfl, rfl, fun _ => halike.queued, fun _ => halike.invocations⟩

theorem sound_empty (handler : Severity → String → ε → ε) (host : ε) :
    Sound none ⟨World.create handler host, []⟩ := by
  have hget (h : Handle) : (World.create handler host).arena.get? h = none := by
    simp [World.create, Arena.empty, Arena.get?, Arena.slot?]
  constructor
  · intro h i hi
    rw [hget] at hi
    cases hi
  · exact nofun
  · exact nofun
  · exact nofun
  · intro i
    refine ⟨rfl, fun _ => rfl, ?_, fun _ => rfl⟩
    rintro _ ⟨p, h, e, q, heq, -⟩
    simp at heq
  · exact fun i _ => ⟨rfl, rfl⟩
  · intro p op since before reply after q heq
    simp at heq

end Recorded

structure Faithful (t : List (Occurrence ε)) (w : World ε) : Prop where
  invocations : ∀ h i, .created h i ∈ t → invocations i t = (queued i t).map (h, ·)
  contracts : Contracts t
  settled : ∀ i, w.status i = .idle ∧ reported i t = diagnosed i t

theorem mem_invocations {t : List (Occurrence ε)} {i : Nat} {x : Handle × Event} :
    x ∈ invocations i t ↔ .entered i x.1 x.2 ∈ t := by
  unfold invocations
  rw [List.mem_filterMap]
  constructor
  · rintro ⟨o, ho, hx⟩
    cases o with
    | entered j h e =>
      simp only [Occurrence.entered?] at hx
      split at hx
      · rename_i hj
        cases hx
        exact hj ▸ ho
      · cases hx
    | _ => cases hx
  · intro hx
    exact ⟨_, hx, by simp [Occurrence.entered?]⟩

/-- Whatever operations host code performs, on whatever handles and from whatever callbacks. -/
theorem World.faithful_of_perform {handler : Severity → String → ε → ε} {host : ε}
    {main : Reaction ε} {fuel : Nat} {x : HostResult} {w : World ε}
    (h : main.perform (exec fuel) (create handler host) = some (x, w)) :
    ∃ t, Recorded.perform (Recorded.exec fuel) main ⟨create handler host, []⟩ = some (x, ⟨w, t⟩) ∧
      (Calm t → Faithful t w) := by
  have herase := Recorded.erase_perform (Recorded.erase_exec fuel) main ⟨create handler host, []⟩
  rw [h] at herase
  obtain ⟨⟨x', w', t⟩, hperform, heq⟩ := Option.map_eq_some_iff.mp herase
  cases heq
  refine ⟨t, hperform, fun hcalm => ?_⟩
  have hadvances := Recorded.advances_perform Recorded.advances_exec _ _ hperform
  have hempty := Recorded.sound_empty handler host
  have hsound := hadvances.sound hempty hcalm
  have hkeeps := hadvances.keeps hempty hcalm
  have hsettled (i : Nat) := hsound.settled (hkeeps.each i).busy (hkeeps.each i).dispatching
  constructor
  · intro h i hcreated
    rw [← (hsettled i).2.1, delivered, List.map_map]
    have hsame : ∀ y ∈ invocations i t, ((h, ·) ∘ (·.2)) y = y := by
      intro y hy
      have hy := hsound.invoked y.1 i y.2 (mem_invocations.mp hy)
      rw [Function.comp_apply, hsound.unique h y.1 i hcreated hy]
    rw [List.map_congr_left hsame, List.map_id']
  · exact hsound.contracts
  · exact fun i => ⟨(hsettled i).1, (hsettled i).2.2⟩

def answering (h : Handle) : Event → Reaction (List Reply)
  | .choices _ =>
    .call (.run h) fun r => .update (r :: ·) (.call (.selectChoice h 1) fun _ => .done .nil)
  | _ => .done .nil

def visit (bytes : Bytes) : Reaction (List Reply) :=
  .call (.create bytes answering) fun
    | .created (.ok h) =>
      .call (.start h "start") fun _ => .call (.run h) fun _ => .call (.run h) fun _ => .done .nil
    | _ => .panic none

theorem World.faithful_visit : ∃ bytes x w t, (Builder.run .offset Builder.greeting).build = .ok bytes ∧
    (visit bytes).perform (exec 10) (create (fun _ _ host => host) []) = some (x, w) ∧
      (w.host matches [.flag false]) ∧ (invocations 0 t).length = 1 ∧ Faithful t w := by
  have h : ((Builder.run .offset Builder.greeting).build.map fun bytes =>
      (Recorded.perform (Recorded.exec 10) (visit bytes)
        ⟨create (fun _ _ host => host) [], []⟩).map fun (_, s) =>
          (s.world.host matches [.flag false], decide (Calm s.trace),
            (invocations 0 s.trace).length)) = .ok (some (true, true, 1)) := by
    decide +kernel
  obtain ⟨bytes, hbuild, h⟩ := Except.map_eq_ok_iff.mp h
  obtain ⟨⟨x, w, t⟩, hrecorded, h⟩ := Option.map_eq_some_iff.mp h.symm
  simp only [Prod.mk.injEq, decide_eq_true_eq] at h
  obtain ⟨hhost, hcalm, hone⟩ := h
  have herase := Recorded.erase_perform (Recorded.erase_exec 10) (visit bytes)
    ⟨create (fun _ _ host => host) [], []⟩
  rw [hrecorded] at herase
  obtain ⟨t', hrecorded', hfaithful⟩ := faithful_of_perform herase.symm
  rw [hrecorded] at hrecorded'
  cases hrecorded'
  exact ⟨bytes, x, w, t, hbuild, herase.symm, hhost, hone, hfaithful hcalm⟩

end Dialogue
