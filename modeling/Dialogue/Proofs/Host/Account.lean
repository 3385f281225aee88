import Dialogue.Proofs.Host.Status
import Dialogue.Proofs.Host.Trace
import Dialogue.Proofs.Machine.Effects

/-!
The account of an instance: what its machine has queued is what was delivered or reported, in this
order, and what waits. A step that touches one instance leaves the accounts of the others alone.
-/

namespace Dialogue

variable {ε : Type}

theorem append_eq_append_cons {α : Type} {xs ys p q : List α} {x : α}
    (h : xs ++ ys = p ++ x :: q) :
    (∃ q', xs = p ++ x :: q' ∧ q = q' ++ ys) ∨ ∃ p', p = xs ++ p' ∧ ys = p' ++ x :: q := by
  rw [List.append_eq_append_iff] at h
  rcases h with ⟨p', hp, hys⟩ | ⟨q', hxs, hq⟩
  · exact .inr ⟨p', hp, hys⟩
  · cases q' with
    | nil => exact .inr ⟨[], by simpa using hxs.symm, by simpa using hq.symm⟩
    | cons y q' =>
      rw [List.cons_append, List.cons.injEq] at hq
      obtain ⟨rfl, rfl⟩ := hq
      exact .inl ⟨q', hxs, rfl⟩

namespace Occurrence

def entered? (i : Nat) : Occurrence ε → Option (Handle × Event)
  | entered j h e => if j = i then some (h, e) else none
  | _ => none

def queued? (i : Nat) : Occurrence ε → Option Event
  | queued j e => if j = i then some e else none
  | _ => none

def diagnosed? (i : Nat) : Occurrence ε → Option MachineError
  | diagnosed j e => if j = i then some e else none
  | _ => none

def reported? (i : Nat) : Occurrence ε → Option MachineError
  | reported j e => if j = i then some e else none
  | _ => none

def subject? : Occurrence ε → Option Nat
  | queued i _ | diagnosed i _ | reported i _ | entered i _ _ | left i => some i
  | created .. | panicked _ | returned .. => none

def isPanic : Occurrence ε → Bool
  | panicked _ => true
  | _ => false

end Occurrence

namespace Trace

variable {i : Nat} {t t' os : List (Occurrence ε)}

def invocations (i : Nat) (t : List (Occurrence ε)) : List (Handle × Event) :=
  t.filterMap (·.entered? i)

def delivered (i : Nat) (t : List (Occurrence ε)) : List Event := (invocations i t).map (·.2)

def queued (i : Nat) (t : List (Occurrence ε)) : List Event := t.filterMap (·.queued? i)

def diagnosed (i : Nat) (t : List (Occurrence ε)) : List MachineError :=
  t.filterMap (·.diagnosed? i)

def reported (i : Nat) (t : List (Occurrence ε)) : List MachineError :=
  t.filterMap (·.reported? i)

def Inside (i : Nat) (t : List (Occurrence ε)) : Prop :=
  ∃ p h e q, t = p ++ .entered i h e :: q ∧ .left i ∉ q

def Calm (t : List (Occurrence ε)) : Prop := ∀ o ∈ t, o.isPanic = false

instance (t : List (Occurrence ε)) : Decidable (Calm t) :=
  inferInstanceAs (Decidable (∀ o ∈ t, o.isPanic = false))

@[simp] theorem invocations_append :
    invocations i (t ++ os) = invocations i t ++ invocations i os :=
  List.filterMap_append

@[simp] theorem delivered_append : delivered i (t ++ os) = delivered i t ++ delivered i os := by
  simp [delivered]

@[simp] theorem queued_append : queued i (t ++ os) = queued i t ++ queued i os :=
  List.filterMap_append

@[simp] theorem diagnosed_append : diagnosed i (t ++ os) = diagnosed i t ++ diagnosed i os :=
  List.filterMap_append

@[simp] theorem reported_append : reported i (t ++ os) = reported i t ++ reported i os :=
  List.filterMap_append

section Projections

variable (i : Nat) (es : List Event) (ds : List MachineError)

attribute [local simp] invocations queued diagnosed reported List.filterMap_map Function.comp_def
  Occurrence.entered? Occurrence.queued? Occurrence.diagnosed? Occurrence.reported?

theorem projections_queued : let os : List (Occurrence ε) := es.map (.queued i)
    invocations i os = [] ∧ queued i os = es ∧ diagnosed i os = [] ∧ reported i os = [] := by
  simp

theorem projections_diagnosed : let os : List (Occurrence ε) := ds.map (.diagnosed i)
    invocations i os = [] ∧ queued i os = [] ∧ diagnosed i os = ds ∧ reported i os = [] := by
  simp

theorem projections_reported : let os : List (Occurrence ε) := ds.map (.reported i)
    invocations i os = [] ∧ queued i os = [] ∧ diagnosed i os = [] ∧ reported i os = ds := by
  simp

theorem projections_entered (h : Handle) (e : Event) :
    let os : List (Occurrence ε) := [.entered i h e]
    invocations i os = [(h, e)] ∧ queued i os = [] ∧ diagnosed i os = [] ∧ reported i os = [] := by
  simp

theorem projections_left : let os : List (Occurrence ε) := [.left i]
    invocations i os = [] ∧ queued i os = [] ∧ diagnosed i os = [] ∧ reported i os = [] := by
  simp

end Projections

theorem Calm.mono (h : Calm t') (ht : t <+: t') : Calm t :=
  fun o ho => h o (ht.subset ho)

theorem inside_append (h : Inside i (t ++ os)) :
    (Inside i t ∧ .left i ∉ os) ∨ ∃ h e, .entered i h e ∈ os := by
  obtain ⟨p, hd, e, q, heq, hleft⟩ := h
  rcases append_eq_append_cons heq with ⟨q', ht, rfl⟩ | ⟨p', -, hos⟩
  · simp only [List.mem_append, not_or] at hleft
    exact .inl ⟨⟨p, hd, e, q', ht, hleft.1⟩, hleft.2⟩
  · refine .inr ⟨hd, e, ?_⟩
    simp [hos]

theorem not_inside_left : ¬Inside i (t ++ [.left i]) := by
  intro h
  rcases inside_append h with ⟨-, h⟩ | ⟨h, e, hmem⟩
  · simp at h
  · simp at hmem

structure Alike (i : Nat) (t t' : List (Occurrence ε)) : Prop where
  invocations : invocations i t' = invocations i t
  queued : queued i t' = queued i t
  diagnosed : diagnosed i t' = diagnosed i t
  reported : reported i t' = reported i t
  inside : Inside i t' → Inside i t

theorem alike_append (h : ∀ o ∈ os, o.subject? ≠ some i) : Alike i t (t ++ os) := by
  have hnil {β : Type} {f : Occurrence ε → Option β}
      (hf : ∀ o : Occurrence ε, o.subject? ≠ some i → f o = none) : os.filterMap f = [] := by
    rw [List.filterMap_eq_nil_iff]
    intro o ho
    exact hf o (h o ho)
  have hne {j : Nat} (hj : some j ≠ some i) : j ≠ i := fun hji => hj (hji ▸ rfl)
  constructor
  · rw [invocations_append, invocations, invocations, hnil, List.append_nil]
    intro o ho
    cases o <;> first | rfl | exact if_neg (hne ho)
  · rw [queued_append, queued, queued, hnil, List.append_nil]
    intro o ho
    cases o <;> first | rfl | exact if_neg (hne ho)
  · rw [diagnosed_append, diagnosed, diagnosed, hnil, List.append_nil]
    intro o ho
    cases o <;> first | rfl | exact if_neg (hne ho)
  · rw [reported_append, reported, reported, hnil, List.append_nil]
    intro o ho
    cases o <;> first | rfl | exact if_neg (hne ho)
  · intro hinside
    rcases inside_append hinside with ⟨ht, -⟩ | ⟨hd, e, hmem⟩
    · exact ht
    · exact absurd rfl (h _ hmem)

end Trace

open Trace

def Operation.Drives (op : Operation ε) (h : Handle) : Prop :=
  (∃ bough, op = .start h bough) ∨ op = .run h

/-- What holds when an operation returns, after the occurrences `p`. -/
structure Contract (p : List (Occurrence ε)) (op : Operation ε) (since : Nat) (before : World ε)
    (reply : Reply) (after : World ε) : Prop where
  named : ∀ h i inst, before.find h = .ok (i, inst) → .created h i ∈ p
  kept : before.instances.length ≤ after.instances.length
  /-- The operation is an outermost one for an instance that neither runs nor has its events
  delivered. -/
  settled : ∀ i, (before.status i).busy = false → (before.status i).dispatching = false →
    after.status i = .idle ∧ delivered i p = queued i p ∧ reported i p = diagnosed i p
  /-- A run that is refused queues nothing. -/
  runs : ∀ h i inst, op = .run h → before.find h = .ok (i, inst) →
    since = p.length ∨ delivered i p = queued i p
  /-- The handle may have been destroyed in the callback, and may be in use again only for the
  same instance. -/
  refused : ∀ h i, op.Drives h → Inside i (p.take since) →
    (∀ j inst, before.find h = .ok (j, inst) → j = i) →
    reply = .flag false ∧ after.instances = before.instances

def Contracts (t : List (Occurrence ε)) : Prop :=
  ∀ p op since before reply after q, t = p ++ .returned op since before reply after :: q →
    Contract p op since before reply after

theorem contracts_append {t os : List (Occurrence ε)} (ht : Contracts t)
    (hos : ∀ p op since before reply after q,
      os = p ++ .returned op since before reply after :: q →
        Contract (t ++ p) op since before reply after) : Contracts (t ++ os) := by
  intro p op since before reply after q heq
  rcases append_eq_append_cons heq with ⟨q', ht', -⟩ | ⟨p', rfl, hos'⟩
  · exact ht p op since before reply after q' ht'
  · exact hos p' op since before reply after q hos'

structure Account (i : Nat) (st : Status) (t : List (Occurrence ε)) : Prop where
  reports : diagnosed i t = reported i t ++ st.diagnostics
  deliveries : st.dispatching = false → queued i t = delivered i t ++ st.events
  outside : st.dispatching = false → ¬Inside i t
  waiting : st.dispatching = true → st.events = []

theorem Account.alike {i : Nat} {st : Status} {t t' : List (Occurrence ε)} (h : Account i st t)
    (ht : Alike i t t') : Account i st t' := by
  constructor
  · rw [ht.diagnosed, ht.reported, h.reports]
  · intro hst
    rw [ht.queued, h.deliveries hst, delivered, delivered, ht.invocations]
  · intro hst hinside
    exact h.outside hst (ht.inside hinside)
  · exact h.waiting

structure Sound (k : Option Nat) (s : Recorded ε) : Prop where
  handles : ∀ h i, s.world.arena.get? h = some i → .created h i ∈ s.trace
  fresh : ∀ h i, .created h i ∈ s.trace → i < s.world.instances.length
  unique : ∀ h h' i, .created h i ∈ s.trace → .created h' i ∈ s.trace → h = h'
  invoked : ∀ h i e, .entered i h e ∈ s.trace → .created h i ∈ s.trace
  accounts : ∀ i, Account i (s.world.status i) s.trace
  taken : ∀ i, some i ≠ k →
    (s.world.status i).events = [] ∧ (s.world.status i).diagnostics = []
  contracts : Contracts s.trace

/-- An instance goes on as before; while its events are delivered it gets no others. -/
structure KeepsAt (i : Nat) (s s' : Recorded ε) : Prop where
  busy : (s'.world.status i).busy = (s.world.status i).busy
  dispatching : (s'.world.status i).dispatching = (s.world.status i).dispatching
  queued : (s.world.status i).dispatching = true → queued i s'.trace = queued i s.trace
  invocations : (s.world.status i).dispatching = true →
    invocations i s'.trace = invocations i s.trace

structure Keeps (s s' : Recorded ε) : Prop where
  length : s.world.instances.length ≤ s'.world.instances.length
  each : ∀ i, KeepsAt i s s'

structure Touches (i : Nat) (s s' : Recorded ε) : Prop where
  arena : ∀ h j, s'.world.arena.get? h = some j → s.world.arena.get? h = some j
  length : s'.world.instances.length = s.world.instances.length
  others : ∀ j, j ≠ i → s'.world.status j = s.world.status j
  trace : ∃ os, s'.trace = s.trace ++ os ∧ (∀ o ∈ os, o.subject? = some i) ∧
    ∀ h j e, .entered j h e ∈ os → .created h j ∈ s.trace

variable {i j : Nat} {k : Option Nat} {s s' s'' : Recorded ε}

@[simp] theorem Recorded.note_trace (s : Recorded ε) (os : List (Occurrence ε)) :
    (s.note os).trace = s.trace ++ os := rfl

@[simp] theorem Recorded.note_world (s : Recorded ε) (os : List (Occurrence ε)) :
    (s.note os).world = s.world := rfl

@[simp] theorem Recorded.update_trace (s : Recorded ε) (f : World ε → World ε) :
    (s.update f).trace = s.trace := rfl

theorem KeepsAt.refl (i : Nat) (s : Recorded ε) : KeepsAt i s s :=
  ⟨rfl, rfl, fun _ => rfl, fun _ => rfl⟩

theorem KeepsAt.trans (h : KeepsAt i s s') (h' : KeepsAt i s' s'') : KeepsAt i s s'' := by
  refine ⟨h'.busy.trans h.busy, h'.dispatching.trans h.dispatching, ?_, ?_⟩
  · intro hd
    exact (h'.queued (h.dispatching.trans hd)).trans (h.queued hd)
  · intro hd
    exact (h'.invocations (h.dispatching.trans hd)).trans (h.invocations hd)

theorem KeepsAt.of_idle (hbusy : (s'.world.status i).busy = (s.world.status i).busy)
    (hidle : (s.world.status i).dispatching = false)
    (hidle' : (s'.world.status i).dispatching = false) : KeepsAt i s s' := by
  refine ⟨hbusy, hidle'.trans hidle.symm, ?_, ?_⟩ <;>
    exact fun hd => absurd (hidle.symm.trans hd) nofun

theorem Keeps.refl (s : Recorded ε) : Keeps s s := ⟨Nat.le_refl _, fun i => .refl i s⟩

theorem Keeps.trans (h : Keeps s s') (h' : Keeps s' s'') : Keeps s s'' :=
  ⟨Nat.le_trans h.length h'.length, fun i => (h.each i).trans (h'.each i)⟩

theorem Sound.open (h : Sound none s) (i : Nat) : Sound (some i) s :=
  { h with taken := fun j _ => h.taken j nofun }

theorem Sound.close (h : Sound (some i) s) (hevents : (s.world.status i).events = [])
    (hdiagnostics : (s.world.status i).diagnostics = []) : Sound none s := by
  refine { h with taken := fun j _ => ?_ }
  by_cases hj : j = i
  · subst hj
    exact ⟨hevents, hdiagnostics⟩
  · exact h.taken j fun heq => hj (Option.some.inj heq)

theorem Sound.extend {os : List (Occurrence ε)} (hs : Sound k s)
    (htrace : s'.trace = s.trace ++ os)
    (harena : ∀ h j, s'.world.arena.get? h = some j → s.world.arena.get? h = some j)
    (hlength : s.world.instances.length ≤ s'.world.instances.length)
    (hnew : ∀ h j, .created h j ∉ os)
    (hentered : ∀ h j e, .entered j h e ∈ os → .created h j ∈ s.trace)
    (haccounts : ∀ j, Account j (s'.world.status j) s'.trace)
    (htaken : ∀ j, some j ≠ k →
      (s'.world.status j).events = [] ∧ (s'.world.status j).diagnostics = [])
    (hcontracts : ∀ p op since before reply after q,
      os = p ++ .returned op since before reply after :: q →
        Contract (s.trace ++ p) op since before reply after) : Sound k s' := by
  have hcreated {h : Handle} {j : Nat} : .created h j ∈ s'.trace ↔ .created h j ∈ s.trace := by
    rw [htrace, List.mem_append]
    constructor
    · rintro (hmem | hmem)
      · exact hmem
      · exact absurd hmem (hnew h j)
    · exact .inl
  refine ⟨?_, ?_, ?_, ?_, haccounts, htaken, ?_⟩
  · intro h j hj
    exact hcreated.mpr (hs.handles h j (harena h j hj))
  · intro h j hj
    exact Nat.lt_of_lt_of_le (hs.fresh h j (hcreated.mp hj)) hlength
  · intro h h' j hj hj'
    exact hs.unique h h' j (hcreated.mp hj) (hcreated.mp hj')
  · intro h j e hj
    rw [hcreated]
    rw [htrace, List.mem_append] at hj
    rcases hj with hj | hj
    · exact hs.invoked h j e hj
    · exact hentered h j e hj
  · rw [htrace]
    exact contracts_append hs.contracts hcontracts

namespace Touches

theorem grows (h : Touches i s s') : s.trace <+: s'.trace := by
  obtain ⟨os, hos, -⟩ := h.trace
  rw [hos]
  exact List.prefix_append _ _

theorem trans (h : Touches i s s') (h' : Touches i s' s'') : Touches i s s'' := by
  obtain ⟨os, hos, hsubject, hentered⟩ := h.trace
  obtain ⟨os', hos', hsubject', hentered'⟩ := h'.trace
  refine ⟨fun hd j hj => h.arena hd j (h'.arena hd j hj), h'.length.trans h.length, ?_,
    os ++ os', by rw [hos', hos, List.append_assoc], ?_, ?_⟩
  · intro j hj
    exact (h'.others j hj).trans (h.others j hj)
  · intro o ho
    rw [List.mem_append] at ho
    exact ho.elim (hsubject o) (hsubject' o)
  · intro hd j e hmem
    rw [List.mem_append] at hmem
    rcases hmem with hmem | hmem
    · exact hentered hd j e hmem
    · have hcreated := hentered' hd j e hmem
      rw [hos, List.mem_append] at hcreated
      rcases hcreated with hcreated | hcreated
      · exact hcreated
      · exact absurd (hsubject _ hcreated) nofun

theorem alike (h : Touches i s s') (hj : j ≠ i) : Alike j s.trace s'.trace := by
  obtain ⟨os, hos, hsubject, -⟩ := h.trace
  rw [hos]
  apply alike_append
  intro o ho heq
  rw [hsubject o ho, Option.some.injEq] at heq
  exact hj heq.symm

theorem keepsAt (h : Touches i s s') (hj : j ≠ i) : KeepsAt j s s' := by
  have halike := h.alike hj
  constructor
  · rw [h.others j hj]
  · rw [h.others j hj]
  · exact fun _ => halike.queued
  · exact fun _ => halike.invocations

theorem keeps (h : Touches i s s') (hat : KeepsAt i s s') : Keeps s s' := by
  refine ⟨Nat.le_of_eq h.length.symm, fun j => ?_⟩
  by_cases hj : j = i
  · rw [hj]
    exact hat
  · exact h.keepsAt hj

theorem sound (h : Touches i s s') (hs : Sound (some i) s)
    (haccount : Account i (s'.world.status i) s'.trace) : Sound (some i) s' := by
  obtain ⟨os, hos, hsubject, hentered⟩ := h.trace
  refine hs.extend hos h.arena (Nat.le_of_eq h.length.symm) ?_ hentered ?_ ?_ ?_
  · intro hd j hmem
    exact absurd (hsubject _ hmem) nofun
  · intro j
    by_cases hj : j = i
    · rw [hj]
      exact haccount
    · rw [h.others j hj]
      exact (hs.accounts j).alike (h.alike hj)
  · intro j hj
    rw [h.others j fun heq => hj (heq ▸ rfl)]
    exact hs.taken j hj
  · intro p op since before reply after q heq
    refine absurd (hsubject (.returned op since before reply after) ?_) nofun
    simp [heq]

end Touches

end Dialogue
