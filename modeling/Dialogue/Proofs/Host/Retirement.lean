import Dialogue.Proofs.Host.Arena
import Dialogue.Proofs.Host.History

namespace Dialogue

variable {ε : Type}

def Operation.delivers? : Operation ε → Option Handle
  | start h _ | run h => some h
  | op => op.change?.map (·.handle)

def Occurrence.isPlain : Occurrence ε → Bool
  | created .. | entered .. | returned .. => false
  | _ => true

theorem World.get?_destroy {fuel : Nat} {h : Handle} {w w' : World ε}
    (hr : exec (fuel + 1) (.destroy h) w = some (.flag true, w')) : w'.arena.get? h = none := by
  simp only [exec, Option.some.injEq] at hr
  unfold destroy at hr
  split at hr
  · rename_i arena harena
    cases hr
    exact Arena.get?_remove_self harena
  · cases hr

namespace Trace

variable {h : Handle} {n : Nat} {own : Handle → Prop} {t os os' : List (Occurrence ε)}

def Retired (h : Handle) (t : List (Occurrence ε)) : Prop :=
  ∃ p since before after q, t = p ++ .returned (.destroy h) since before (.flag true) after :: q ∧
    ∀ i, .created h i ∉ q

def Served (h : Handle) (n : Nat) (t : List (Occurrence ε)) : Prop :=
  ∃ op since before reply after p q, t = p ++ .returned op since before reply after :: q ∧
    op.delivers? = some h ∧ since ≤ n ∧ before.arena.get? h ≠ none

def Confined (own : Handle → Prop) (n : Nat) (os : List (Occurrence ε)) : Prop :=
  ∀ p i h e q, os = p ++ .entered i h e :: q → own h ∨ Served h (n + p.length) q

theorem retired_append (ht : Retired h (t ++ os)) :
    (Retired h t ∧ ∀ i, .created h i ∉ os) ∨
      ∃ since before after, .returned (.destroy h) since before (.flag true) after ∈ os := by
  obtain ⟨p, since, before, after, q, heq, hq⟩ := ht
  rcases append_eq_append_cons heq with ⟨q', ht, rfl⟩ | ⟨p', -, rfl⟩
  · simp only [List.mem_append, not_or] at hq
    exact .inl ⟨⟨p, since, before, after, q', ht, fun i => (hq i).1⟩, fun i => (hq i).2⟩
  · exact .inr ⟨since, before, after, List.mem_append_right _ List.mem_cons_self⟩

theorem Served.append (ht : Served h n t) (os : List (Occurrence ε)) : Served h n (t ++ os) := by
  obtain ⟨op, since, before, reply, after, p, q, rfl, hop⟩ := ht
  exact ⟨op, since, before, reply, after, p, q ++ os, by simp, hop⟩

theorem Confined.append (hos : Confined own n os) (hos' : Confined own (n + os.length) os') :
    Confined own n (os ++ os') := by
  intro p i h e q heq
  rcases append_eq_append_cons heq with ⟨q', hq', rfl⟩ | ⟨p', rfl, hp'⟩
  · exact (hos p i h e q' hq').imp_right (·.append os')
  · rw [List.length_append, ← Nat.add_assoc]
    exact hos' p' i h e q hp'

theorem confined_of_not_entered (hos : ∀ i h e, .entered i h e ∉ os) : Confined own n os := by
  rintro p i h e q rfl
  exact absurd (List.mem_append_right _ List.mem_cons_self) (hos i h e)

end Trace

namespace Recorded

open Trace

variable {own own' : Handle → Prop} {h : Handle} {i : Nat} {s s' s'' : Recorded ε}
variable {inst : Instance ε}

structure Consistent (s : Recorded ε) : Prop where
  now : ∀ h, Retired h s.trace → s.world.arena.get? h = none
  calls : ∀ p op since before reply after q,
    s.trace = p ++ .returned op since before reply after :: q →
      since ≤ p.length ∧ ∀ h, Retired h (p.take since) → before.arena.get? h = none

structure Confines (own : Handle → Prop) (s s' : Recorded ε) : Prop where
  grows : ∃ os, s'.trace = s.trace ++ os ∧ Confined own s.trace.length os
  consistent : Consistent s → Consistent s'

theorem Confines.trans (h : Confines own s s') (h' : Confines own s' s'') : Confines own s s'' := by
  obtain ⟨os, hos, hconfined⟩ := h.grows
  obtain ⟨os', hos', hconfined'⟩ := h'.grows
  refine ⟨⟨os ++ os', by rw [hos', hos, List.append_assoc], hconfined.append ?_⟩,
    fun hs => h'.consistent (h.consistent hs)⟩
  rwa [hos, List.length_append] at hconfined'

theorem Consistent.extend {os : List (Occurrence ε)} (hs : Consistent s)
    (htrace : s'.trace = s.trace ++ os)
    (hos : ∀ op since before reply after, .returned op since before reply after ∉ os)
    (harena : ∀ h j, s'.world.arena.get? h = some j →
      s.world.arena.get? h = some j ∨ ∃ i, .created h i ∈ os) : Consistent s' := by
  constructor
  · intro h hretired
    rw [htrace] at hretired
    rcases retired_append hretired with ⟨hretired, hcreated⟩ | ⟨since, before, after, hmem⟩
    · rw [Option.eq_none_iff_forall_ne_some]
      intro j hj
      rcases harena h j hj with hj | ⟨i, hi⟩
      · rw [hs.now h hretired] at hj
        cases hj
      · exact hcreated i hi
    · exact absurd hmem (hos _ _ _ _ _)
  · intro p op since before reply after q heq
    rw [htrace] at heq
    rcases append_eq_append_cons heq with ⟨q', ht, -⟩ | ⟨p', -, rfl⟩
    · exact hs.calls p op since before reply after q' ht
    · exact absurd (List.mem_append_right _ List.mem_cons_self) (hos op since before reply after)

theorem confines_of_plain {os : List (Occurrence ε)} (htrace : s'.trace = s.trace ++ os)
    (hos : ∀ o ∈ os, o.isPlain = true)
    (harena : ∀ h i, s'.world.arena.get? h = some i → s.world.arena.get? h = some i) :
    Confines own s s' := by
  refine ⟨⟨os, htrace, confined_of_not_entered fun i h e hmem => ?_⟩, fun hs => hs.extend htrace ?_
    fun h j hj => .inl (harena h j hj)⟩
  · cases hos _ hmem
  · intro op since before reply after hmem
    cases hos _ hmem

theorem Confines.refl (own : Handle → Prop) (s : Recorded ε) : Confines own s s :=
  confines_of_plain (List.append_nil _).symm (by simp) fun _ _ => id

theorem confines_update {f : World ε → World ε}
    (harena : (f s.world).arena = s.world.arena) : Confines own s (s.update f) :=
  confines_of_plain (List.append_nil _).symm (by simp) fun h i => by
    rw [show (s.update f).world = f s.world from rfl, harena]
    exact id

theorem confines_note {o : Occurrence ε} (ho : o.isPlain = true) : Confines own s (s.note [o]) :=
  confines_of_plain rfl (by simpa using ho) fun _ _ => id

theorem Unmoved.confines (h : Unmoved s s') : Confines own s s' :=
  confines_of_plain (by rw [h.trace, List.append_nil]) (by simp) h.arena

theorem confines_entered {e : Event} (hown : own h) :
    Confines own s (s.note [.entered i h e]) := by
  refine ⟨⟨_, rfl, ?_⟩, fun hs => hs.extend rfl (by simp) fun h j hj => .inl hj⟩
  intro p j h' e' q heq
  cases p with
  | nil =>
    cases heq
    exact .inl hown
  | cons o p => simp at heq

theorem confines_collect (s : Recorded ε) (i : Nat) (inst : Instance ε) :
    Confines own s (s.collect i inst).2 := by
  refine confines_of_plain (trace_collect s i inst) ?_ ?_
  · simp [Occurrence.isPlain]
  · intro h j hj
    rwa [world_collect, World.collect_arena] at hj

theorem isPlain_additions {m m' : HostMachine ε} {o : Occurrence ε}
    (ho : o ∈ additions i m m') : o.isPlain = true := by
  simp only [additions, List.mem_append, List.mem_map] at ho
  rcases ho with ⟨e, -, rfl⟩ | ⟨e, -, rfl⟩
  · rfl
  · rfl

theorem confines_store (s : Recorded ε) (i : Nat) (inst : Instance ε) (m : HostMachine ε) :
    Confines own s (s.store i inst m) :=
  confines_of_plain rfl (fun _ => isPlain_additions) fun _ _ => id

theorem confines_perform {exec : Operation ε → Recorded ε → Option (Reply × Recorded ε)}
    (hexec : ∀ {op s r s'}, exec op s = some (r, s') → Confines own s s') {x : HostResult} :
    ∀ (r : Reaction ε) (s : Recorded ε), perform exec r s = some (x, s') → Confines own s s'
  | .done v, s => by
    intro hr
    rw [perform] at hr
    cases hr
    exact .refl own _
  | .panic message, s => by
    intro hr
    rw [perform] at hr
    cases hr
    exact .refl own _
  | .update f next, s => by
    intro hr
    rw [perform] at hr
    exact (confines_update rfl).trans (confines_perform hexec next _ hr)
  | .inspect next, s => by
    intro hr
    rw [perform] at hr
    exact confines_perform hexec (next s.world.host) s hr
  | .call op next, s => by
    intro hr
    rw [perform] at hr
    split at hr
    · rename_i r s₁ hop
      exact (hexec hop).trans (confines_perform hexec (next r) s₁ hr)
    · cases hr

section

variable {perform : Reaction ε → Recorded ε → Option (HostResult × Recorded ε)}
variable (hperform : ∀ {r s x s'}, perform r s = some (x, s') → Confines own s s')

include hperform

theorem confines_deliver (hown : own h) {callback : Event → Reaction ε} {events : List Event}
    {x : Option (Option String)} (hd : deliver perform i h callback events s = some (x, s')) :
    Confines own s s' := by
  induction events generalizing s with
  | nil =>
    cases hd
    exact .refl own _
  | cons e events ih =>
    have hentered : Confines own s (s.note [.entered i h e]) := confines_entered hown
    rw [deliver] at hd
    split at hd
    · rename_i v s₁ hcallback
      exact hentered.trans ((hperform hcallback).trans ((confines_note rfl).trans (ih hd)))
    · rename_i message s₁ hcallback
      cases hd
      exact hentered.trans ((hperform hcallback).trans (confines_note rfl))
    · cases hd

theorem confines_flush (hown : own h) {fuel : Nat}
    (hf : flush perform h i fuel s = some s') : Confines own s s' := by
  induction fuel generalizing s with
  | zero => cases hf
  | succ fuel ih =>
    rcases flush_cases hf with ⟨rfl, -⟩ | ⟨inst, -, -, ⟨-, rfl⟩ | ⟨-, x, s₁, hdeliver, hrest⟩⟩
    · exact .refl own _
    · exact confines_collect s i inst
    · have hbatch : Confines own s s₁ := (confines_collect s i inst).trans
        ((confines_update rfl).trans (confines_deliver hperform hown hdeliver))
      apply hbatch.trans
      rcases hrest with ⟨-, hf⟩ | ⟨message, -, rfl⟩
      · exact (confines_update rfl).trans (ih hf)
      · exact confines_update (World.report_arena _ _ _)

end

def Alive (s : Recorded ε) (h : Handle) : Handle → Prop :=
  fun k => k = h ∧ s.world.arena.get? h ≠ none

theorem alive_of_find (hfind : s.world.find h = .ok (i, inst)) : Alive s h h := by
  refine ⟨rfl, ?_⟩
  rw [(World.find_eq_ok hfind).1]
  exact Option.some_ne_none i

section

variable {perform : Reaction ε → Recorded ε → Option (HostResult × Recorded ε)}
variable (hperform : ∀ {own r s x s'}, perform r s = some (x, s') → Confines own s s')

include hperform

theorem confines_change {fuel : Nat} {c : Change ε} {r : Reply}
    (hr : change perform fuel c s = some (r, s')) : Confines (Alive s c.handle) s s' := by
  unfold change at hr
  split at hr
  · cases hr
    exact (unmoved_report s _ _).confines
  · rename_i i inst hfind
    have hown := alive_of_find hfind
    split at hr
    · cases hr
      exact (unmoved_report s _ _).confines
    · split at hr
      · rename_i r m happly
        obtain ⟨s₁, hflush, hr⟩ := Option.map_eq_some_iff.mp hr
        cases hr
        exact (confines_store s i inst m).trans (confines_flush hperform hown hflush)
      · obtain ⟨s₁, hflush, hr⟩ := Option.map_eq_some_iff.mp hr
        cases hr
        exact (confines_flush hperform hown hflush).trans (unmoved_report s₁ _ _).confines

theorem confines_drive {fuel : Nat} {operation : String} {r : Reply}
    {f : Nat → Instance ε → Recorded ε → Option (Except LibraryError Bool × Recorded ε)}
    (hstep : ∀ {own i inst s r s₁}, f i inst s = some (r, s₁) → Confines own s s₁)
    (hr : drive perform fuel operation h f s = some (r, s')) : Confines (Alive s h) s s' := by
  unfold drive at hr
  split at hr
  · cases hr
    exact (unmoved_report s _ _).confines
  · rename_i i inst hfind
    split at hr
    · cases hr
      exact (unmoved_report s _ _).confines
    · split at hr
      · cases hr
        exact (unmoved_report s _ _).confines
      · split at hr
        · cases hr
        · rename_i r s₁ hf
          obtain ⟨s₂, hflush, hr⟩ := Option.map_eq_some_iff.mp hr
          cases hr
          exact (hstep hf).trans ((confines_flush hperform (alive_of_find hfind) hflush).trans
            (unmoved_answerFlag s₂ r).confines)

theorem confines_runInstance {fuel : Nat} {r : Except LibraryError Bool}
    (hr : runInstance perform fuel i inst s = some (r, s')) : Confines own s s' := by
  unfold runInstance at hr
  split at hr
  · cases hr
  · rename_i ended m s₁ hrun
    cases hr
    have hhost : Confines own (s.occupy i inst) s₁ :=
      Machine.run_induction (Confines.refl own) Confines.trans (fun hhost => hperform hhost) hrun
    have hvacate : Confines own s₁ (s₁.vacate i inst.machine (World.conclude m ended).2) :=
      confines_of_plain rfl (fun _ => isPlain_additions) fun _ _ => id
    exact (confines_update rfl).trans (hhost.trans hvacate)

end

theorem confines_startInstance {bough : String} {r : Except LibraryError Bool}
    (hr : startInstance bough i inst s = some (r, s')) : Confines own s s' := by
  unfold startInstance at hr
  split at hr
  · cases hr
    exact confines_store s i inst _
  · cases hr
    exact .refl own s

theorem confines_create (s : Recorded ε) (bytes : Bytes)
    (callbacks : Handle → Event → Reaction ε) : Confines own s (s.create bytes callbacks).2 := by
  unfold create World.open?
  cases Container.parse bytes with
  | error e => exact Unmoved.confines ⟨World.still_report s.world _ _, List.append_nil _⟩
  | ok c =>
    refine ⟨⟨_, rfl, confined_of_not_entered (by simp)⟩, fun hs => hs.extend rfl (by simp) ?_⟩
    intro h j hj
    rcases Arena.get?_insert hj with ⟨rfl, rfl⟩ | hj
    · exact .inr ⟨_, List.mem_singleton_self _⟩
    · exact .inl hj

theorem confines_return {op : Operation ε} {r : Reply} (h : Confines own s s')
    (hown : ∀ k, own k → op.delivers? = some k ∧ s.world.arena.get? k ≠ none)
    (hdestroy : ∀ k, op = .destroy k → r = .flag true → s'.world.arena.get? k = none) :
    Confines own' s (s'.note [.returned op s.trace.length s.world r s'.world]) := by
  obtain ⟨os, hos, hconfined⟩ := h.grows
  refine ⟨⟨os ++ [.returned op s.trace.length s.world r s'.world], ?_, ?_⟩, fun hs => ⟨?_, ?_⟩⟩
  · rw [note_trace, hos, List.append_assoc]
  · intro p i k e q heq
    right
    rcases append_eq_append_cons heq with ⟨q', hq', rfl⟩ | ⟨p', -, hp'⟩
    · rcases hconfined p i k e q' hq' with hk | hserved
      · obtain ⟨hop, halive⟩ := hown k hk
        exact ⟨op, _, s.world, r, s'.world, q', [], rfl, hop, Nat.le_add_right _ _, halive⟩
      · exact hserved.append _
    · cases p' <;> simp at hp'
  · intro k hretired
    rcases retired_append hretired with ⟨hretired, -⟩ | ⟨since, before, after, hmem⟩
    · exact (h.consistent hs).now k hretired
    · rw [List.mem_singleton, Occurrence.returned.injEq] at hmem
      exact hdestroy k hmem.1.symm hmem.2.2.2.1.symm
  · intro p op' since before reply after q heq
    rcases append_eq_append_cons heq with ⟨q', ht, -⟩ | ⟨p', rfl, hp'⟩
    · exact (h.consistent hs).calls p op' since before reply after q' ht
    · cases p' with
      | nil =>
        cases hp'
        rw [List.append_nil, hos, List.take_left]
        exact ⟨by simp, hs.now⟩
      | cons o p' => simp at hp'

theorem confines_exec {fuel : Nat} {op : Operation ε} {r : Reply}
    (hr : exec fuel op s = some (r, s')) : Confines own s s' := by
  -- The operations within this one have less fuel.
  induction fuel generalizing own op s r s' with
  | zero => cases hr
  | succ fuel ih =>
    have hperform {own : Handle → Prop} {r : Reaction ε} {s s' : Recorded ε} {x : HostResult}
        (h : Recorded.perform (exec fuel) r s = some (x, s')) : Confines own s s' :=
      confines_perform (fun hop => ih hop) r s h
    rw [exec] at hr
    obtain ⟨⟨r₁, s₁⟩, henact, heq⟩ := Option.map_eq_some_iff.mp hr
    cases heq
    rcases op.kinds with ⟨bytes, callbacks, rfl⟩ | ⟨h, bough, rfl⟩ | ⟨h, rfl⟩ | ⟨c, hc⟩ | hquiet
    · have hcreate : Confines (fun _ => False) s (s.create bytes callbacks).2 :=
        confines_create s bytes callbacks
      rw [Option.some.inj henact] at hcreate
      exact confines_return hcreate (fun _ hk => hk.elim) (fun k heq => by cases heq)
    · have hstart : Confines (Alive s h) s s₁ :=
        confines_drive hperform (fun hf => confines_startInstance hf) henact
      exact confines_return hstart (fun k hk => ⟨congrArg some hk.1.symm, hk.1 ▸ hk.2⟩)
        (fun k heq => by cases heq)
    · have hrun : drive (Recorded.perform (exec fuel)) fuel "run" h
          (runInstance (Recorded.perform (exec fuel)) fuel) s = some (r, s₁) := henact
      have hdrive : Confines (Alive s h) s s₁ :=
        confines_drive hperform (fun hf => confines_runInstance hperform hf) hrun
      exact confines_return hdrive (fun k hk => ⟨congrArg some hk.1.symm, hk.1 ▸ hk.2⟩)
        (fun k heq => by cases heq)
    · rw [enact_change hc] at henact
      have hdelivers : op.delivers? = some c.handle := by
        cases op <;> cases hc <;> rfl
      refine confines_return (confines_change hperform henact)
        (fun k hk => ⟨hk.1 ▸ hdelivers, hk.1 ▸ hk.2⟩) ?_
      rintro k rfl
      cases hc
    · rw [enact_quiet hquiet] at henact
      obtain ⟨⟨r', w⟩, hexec, heq⟩ := Option.map_eq_some_iff.mp henact
      cases heq
      have hunmoved : Unmoved s (s.update fun _ => w) := ⟨World.exec_quiet hquiet hexec, rfl⟩
      have hquiet : Confines (fun _ => False) s (s.update fun _ => w) := hunmoved.confines
      refine confines_return hquiet (fun _ hk => hk.elim) ?_
      rintro k rfl rfl
      exact World.get?_destroy hexec

theorem consistent_empty (w : World ε) : Consistent ⟨w, []⟩ := by
  constructor
  · rintro h ⟨p, since, before, after, q, heq, -⟩
    simp at heq
  · intro p op since before reply after q heq
    simp at heq

end Recorded

open Trace

/-- Once a handle has been destroyed, callbacks are entered for it only if it is issued again or
within operations that were called before, and have not returned. -/
theorem World.silenced_of_perform {handler : Severity → String → ε → ε} {host : ε}
    {main : Reaction ε} {fuel : Nat} {x : HostResult} {w : World ε}
    (h : main.perform (exec fuel) (create handler host) = some (x, w)) :
    ∃ t, Recorded.perform (Recorded.exec fuel) main ⟨create handler host, []⟩ = some (x, ⟨w, t⟩) ∧
      ∀ p k since before after q i e r,
        t = p ++ .returned (.destroy k) since before (.flag true) after ::
          (q ++ .entered i k e :: r) →
        (∃ j, .created k j ∈ q) ∨ ∃ op since' before' reply' after' r₁ r₂,
          r = r₁ ++ .returned op since' before' reply' after' :: r₂ ∧
            op.delivers? = some k ∧ since' ≤ p.length := by
  have herase := Recorded.erase_perform (Recorded.erase_exec fuel) main ⟨create handler host, []⟩
  rw [h] at herase
  obtain ⟨⟨_, w, t⟩, hperform, ⟨⟩⟩ := Option.map_eq_some_iff.mp herase
  refine ⟨t, hperform, ?_⟩
  have hconfines : Recorded.Confines (fun _ => False) ⟨create handler host, []⟩ ⟨w, t⟩ :=
    Recorded.confines_perform Recorded.confines_exec _ _ hperform
  have hcalls := (hconfines.consistent (Recorded.consistent_empty _)).calls
  obtain ⟨os, hos, hconfined⟩ := hconfines.grows
  rw [show t = os from hos] at hcalls ⊢
  intro p k since before after q i e r ht
  have hsplit : os = (p ++ .returned (.destroy k) since before (.flag true) after :: q) ++
      .entered i k e :: r := by
    rw [ht, List.append_assoc, List.cons_append]
  rcases hconfined _ i k e r hsplit with hfalse | hserved
  · exact hfalse.elim
  obtain ⟨op, since', before', reply', after', r₁, r₂, rfl, hop, hsince, halive⟩ := hserved
  by_cases hcreated : ∃ j, .created k j ∈ q
  · exact .inl hcreated
  refine .inr ⟨op, since', before', reply', after', r₁, r₂, rfl, hop, ?_⟩
  by_contra hlate
  -- The operation was called after the destruction, when the handle stood for nothing.
  rw [Nat.not_le] at hlate
  simp only [List.length_nil, Nat.zero_add, List.length_append, List.length_cons] at hsince
  have hreturned : os = (p ++ .returned (.destroy k) since before (.flag true) after ::
      (q ++ .entered i k e :: r₁)) ++ .returned op since' before' reply' after' :: r₂ := by
    simp [ht]
  obtain ⟨n, rfl⟩ : ∃ n, since' = p.length + (n + 1) := ⟨since' - p.length - 1, by omega⟩
  refine halive ((hcalls _ op _ before' reply' after' r₂ hreturned).2 k
    ⟨p, since, before, after, q.take n, ?_, fun j hj => hcreated ⟨j, List.mem_of_mem_take hj⟩⟩)
  rw [List.take_length_add_append, List.take_succ_cons,
    List.take_append_of_le_length (by omega)]

def leaving (h : Handle) (_ : Event) : Reaction Unit := .call (.destroy h) fun _ => .done .nil

def departure (bytes : Bytes) : Reaction Unit :=
  .call (.create bytes leaving) fun
    | .created (.ok h) =>
      .call (.start h "start") fun _ => .call (.subscribe h "met") fun _ =>
        .call (.run h) fun _ => .done .nil
    | _ => .panic none

def farewell : List Builder.Call :=
  [.scriptVariable "met", .bough "start", .set 0 (.bool true), .line "mara" "Bye." [], .stop]

def enteredLate : List (Occurrence Unit) → Bool
  | .returned (.destroy h) _ _ (.flag true) _ :: .left _ :: .entered _ k _ :: _ => h == k
  | _ => false

theorem exists_of_enteredLate {t : List (Occurrence Unit)} (ht : enteredLate t = true) :
    ∃ k since before after j i e r,
      t = .returned (.destroy k) since before (.flag true) after ::
        ([.left j] ++ .entered i k e :: r) := by
  unfold enteredLate at ht
  split at ht
  · rename_i h since before after j i k e r
    cases beq_iff_eq.mp ht
    exact ⟨h, since, before, after, j, i, e, r, rfl⟩
  · cases ht

theorem World.silenced_departure : ∃ bytes x w, ∃ t p r : List (Occurrence Unit),
    ∃ k since before after j i e, (Builder.run .offset farewell).build = .ok bytes ∧
      (departure bytes).perform (exec 10) (create (fun _ _ host => host) ()) = some (x, w) ∧
        t = p ++ .returned (.destroy k) since before (.flag true) after ::
          ([.left j] ++ .entered i k e :: r) ∧
        ∃ op since' before' reply' after', .returned op since' before' reply' after' ∈ r ∧
          op.delivers? = some k ∧ since' ≤ p.length := by
  have h : ((Builder.run .offset farewell).build.map fun bytes =>
      (Recorded.perform (Recorded.exec 10) (departure bytes)
        ⟨create (fun _ _ host => host) (), []⟩).map fun (_, s) =>
          enteredLate (s.trace.drop 7)) = .ok (some true) := by
    decide +kernel
  obtain ⟨bytes, hbuild, h⟩ := Except.map_eq_ok_iff.mp h
  obtain ⟨⟨x, w, t⟩, hrecorded, hlate⟩ := Option.map_eq_some_iff.mp h.symm
  have herase := Recorded.erase_perform (Recorded.erase_exec 10) (departure bytes)
    ⟨create (fun _ _ host => host) (), []⟩
  rw [hrecorded] at herase
  obtain ⟨t', hrecorded', hsilenced⟩ := silenced_of_perform herase.symm
  rw [hrecorded] at hrecorded'
  cases hrecorded'
  obtain ⟨k, since, before, after, j, i, e, r, ht⟩ := exists_of_enteredLate hlate
  have hsplit := (List.take_append_drop 7 t).symm
  rw [show t.drop 7 = _ from ht] at hsplit
  refine ⟨bytes, x, w, t, _, r, k, since, before, after, j, i, e, hbuild, herase.symm, hsplit, ?_⟩
  rcases hsilenced _ k since before after [.left j] i e r hsplit with ⟨j', hcreated⟩ | hserved
  · simp at hcreated
  · obtain ⟨op, since', before', reply', after', r₁, r₂, rfl, hop⟩ := hserved
    exact ⟨op, since', before', reply', after', List.mem_append_right _ List.mem_cons_self, hop⟩

end Dialogue
