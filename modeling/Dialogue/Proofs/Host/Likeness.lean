import Dialogue.Proofs.Host.Conduct
import Dialogue.Proofs.Machine.Pairing

/-!
Two runs that host code cannot tell apart. They have the same result, whatever is performed in both,
and leave behind what host code cannot tell apart either, as long as host code does the same for
hosts that are alike to it.
-/

namespace Dialogue

open Trace

variable {ε : Type}

/-- How two runs are alike. -/
structure Likeness (ε : Type) where
  /-- The hosts are alike, after so many more counted operations in the first run. -/
  hosts : Nat → ε → ε → Prop
  counts : Operation ε → Bool
  /-- Instances whose functions are not alike. They do not run, as their events are being
  delivered. -/
  held : Nat → Prop
  /-- What the runs have in common, a handle and its instance, if not everything. -/
  scope : Option (Handle × Nat)

mutual

def Operation.Respects (Λ : Likeness ε) : Operation ε → Prop
  | .create _ callbacks => ∀ h e, (callbacks h e).Respects Λ
  | .setFunction _ _ _ body => ∀ args, (body args).Respects Λ
  | _ => True
termination_by structural op => op

/-- The host code does the same for hosts that are alike. It performs no operations unless the runs
have everything in common. -/
def Reaction.Respects (Λ : Likeness ε) : Reaction ε → Prop
  | .done _ | .panic _ => True
  | .update f next =>
    (∀ n e e', Λ.hosts n e e' → Λ.hosts n (f e) (f e')) ∧ next.Respects Λ
  | .inspect next => (∀ n e e', Λ.hosts n e e' → next e = next e') ∧ ∀ e, (next e).Respects Λ
  | .call op next => Λ.scope = none ∧ op.Respects Λ ∧ ∀ r, (next r).Respects Λ
termination_by structural r => r

end

theorem Operation.change?_paired {op : Operation ε} {c : Change ε} (hc : op.change? = some c)
    {R : (List Value → Reaction ε) → (List Value → Reaction ε) → Prop}
    (hop : ∀ {h name arity b}, op = .setFunction h name arity b → R b b) {m m' : HostMachine ε}
    (h : m.Paired R m') :
    (∃ e, c.apply m = .error e ∧ c.apply m' = .error e) ∨
      ∃ r m₁ m₁', c.apply m = .ok (r, m₁) ∧ c.apply m' = .ok (r, m₁') ∧ m₁.Paired R m₁' := by
  obtain ⟨p, rfl, rfl⟩ := h
  have hflag {x y : Except MachineError (HostMachine ε)}
      (h : (∃ e, x = .error e ∧ y = .error e) ∨
        ∃ m₁ m₁', x = .ok m₁ ∧ y = .ok m₁' ∧ m₁.Paired R m₁') :
      (∃ e, x.map (Reply.flag true, ·) = .error e ∧ y.map (Reply.flag true, ·) = .error e) ∨
        ∃ r m₁ m₁', x.map (Reply.flag true, ·) = .ok (r, m₁) ∧
          y.map (Reply.flag true, ·) = .ok (r, m₁') ∧ m₁.Paired R m₁' := by
    rcases h with ⟨e, rfl, rfl⟩ | ⟨m₁, m₁', rfl, rfl, hpaired⟩
    · exact .inl ⟨e, rfl, rfl⟩
    · exact .inr ⟨_, m₁, m₁', rfl, rfl, hpaired⟩
  cases op <;> cases hc
  case unsubscribe h' name =>
    refine .inr ⟨.flag (p.isSubscribed name), _, _, ?_, ?_, p.unsubscribe name, rfl, rfl⟩ <;>
      simp only [Machine.isSubscribed_map, Machine.unsubscribe_map]
  case declareEnum h' d => exact .inr ⟨_, _, _, rfl, rfl, p.declareEnum d, rfl, rfl⟩
  case save h' =>
    refine .inr ⟨.snapshot p.save.1, _, _, ?_, ?_, p.save.2, rfl, rfl⟩ <;>
      simp only [Machine.save_map]
  case load h' snapshot =>
    refine .inr ⟨.count (p.load snapshot).2, _, _, ?_, ?_, (p.load snapshot).1, rfl, rfl⟩ <;>
      simp only [Machine.load_map]
  all_goals apply hflag
  case setFunction h' name arity body =>
    let both : { x : (List Value → Reaction ε) × (List Value → Reaction ε) // R x.1 x.2 } :=
      ⟨(body, body), hop rfl⟩
    exact Machine.Paired.transform (p.setFunction_map _ name arity both) (p.setFunction_map _ name arity both)
  case selectContinue h' => exact Machine.Paired.transform (p.selectContinue_map _) (p.selectContinue_map _)
  case selectChoice h' index =>
    exact Machine.Paired.transform (p.selectChoice_map _ index) (p.selectChoice_map _ index)
  case subscribe h' name => exact Machine.Paired.transform (p.subscribe_map _ name) (p.subscribe_map _ name)
  case setExtern h' name v => exact Machine.Paired.transform (p.setExtern_map _ name v) (p.setExtern_map _ name v)

def Operation.handle? : Operation ε → Option Handle
  | start h _ | run h | destroy h | isAlive h | state h | canContinue h | isWaiting h
  | selectContinue h | selectChoice h _ | subscribe h _ | unsubscribe h _ | setExtern h _ _
  | setFunction h _ _ _ | declareEnum h _ | getValue h _ | save h | load h _ | externs h
  | boughNames h => some h
  | create .. | size | bufferBytes _ | release _ | outstanding | setSeverity _ | report ..
  | resetHandler => none

theorem Operation.handle?_of_change {op : Operation ε} {c : Change ε} (hc : op.change? = some c) :
    op.handle? = some c.handle := by
  cases op <;> cases hc <;> rfl

namespace World

theorem setInstance_eq (w : World ε) (i : Nat) (inst : Instance ε) :
    w.setInstance i inst = w.modifyInstance i fun _ => inst := by
  have h : w.instances.set i inst = w.instances.modify i fun _ => inst := by
    apply List.ext_getElem?
    intro j
    rw [List.getElem?_modify, List.getElem?_set]
    split
    · rename_i hij
      subst hij
      cases hinst : w.instances[i]? with
      | none => simpa using hinst
      | some inst' => simpa using (List.getElem?_eq_some_iff.mp hinst).1
    · simp
  rw [setInstance, modifyInstance, h]

def lookup (w : World ε) (h : Handle) (name : String) : Except LibraryError Value :=
  (w.query h (·.value name)).bind (·.mapError .machine)

def supply (w : World ε) (r : Except LibraryError Value) : Option Nat × World ε :=
  match (w.answer r).1 with
  | none => (none, (w.answer r).2)
  | some v =>
    let w := (w.answer r).2
    (some w.buffers.length,
      { w with buffers := w.buffers ++ [.ofValue v], outstanding := w.outstanding + 1 })

theorem lend_eq (w : World ε) (h : Handle) (name : String) :
    w.lend h name = w.supply (w.lookup h name) := by
  unfold lend lookup supply
  rcases w.query h (·.value name) with e | e | v <;> rfl

end World

theorem Recorded.collect_drained (s : Recorded ε) (i : Nat) (inst : Instance ε) :
    s.collect i inst = (if inst.dispatching then [] else inst.machine.events,
      inst.machine.diagnostics.foldl (fun s e => s.report i e)
        (s.update (·.setInstance i inst.drained))) := by
  unfold collect Instance.drained
  cases inst.dispatching <;> rfl

namespace Likeness

variable (Λ : Likeness ε)

def count (t : List (Occurrence ε)) : Nat :=
  t.countP fun
    | .returned op .. => Λ.counts op
    | _ => false

def Sees (h : Handle) : Prop := ∀ x ∈ Λ.scope, h = x.1

def Shares (i : Nat) : Prop := ∀ x ∈ Λ.scope, i = x.2

def Binds (i : Nat) (body body' : List Value → Reaction ε) : Prop :=
  Λ.held i ∨ (body' = body ∧ ∀ args, (body args).Respects Λ)

/-- The instance `i` in the two runs. Only the instance `k` is held and has no events delivered. -/
structure Alike (k : Option Nat) (i : Nat) (inst inst' : Instance ε) : Prop where
  callbacks : inst'.callbacks = inst.callbacks
  busy : inst'.busy = inst.busy
  dispatching : inst'.dispatching = inst.dispatching
  respects : ∀ h e, (inst.callbacks h e).Respects Λ
  held : Λ.held i → some i ≠ k → inst.dispatching = true
  machine : inst.machine.Paired (Λ.Binds i) inst'.machine

structure Whole (w w' : World ε) : Prop where
  arena : w'.arena = w.arena
  length : w'.instances.length = w.instances.length
  buffers : w'.buffers = w.buffers
  outstanding : w'.outstanding = w.outstanding
  housed : ∀ i, Λ.held i → i < w.instances.length

structure Like (k : Option Nat) (s s' : Recorded ε) : Prop where
  whole : Λ.scope = none → Λ.Whole s.world s'.world
  handles : ∀ h, Λ.Sees h → s'.world.arena.get? h = s.world.arena.get? h
  reaches : ∀ h i, Λ.Sees h → s.world.arena.get? h = some i → Λ.Shares i
  instances : ∀ i, Λ.Shares i →
    Option.Rel (Λ.Alike k i) s.world.instances[i]? s'.world.instances[i]?
  channel : s'.world.channel = s.world.channel
  handler : ∀ n severity message e e', Λ.hosts n e e' →
    Λ.hosts n (s.world.channel.handler severity message e)
      (s.world.channel.handler severity message e')
  hosts : ∃ n, Λ.count s.trace = Λ.count s'.trace + n ∧ Λ.hosts n s.world.host s'.world.host
  invocations : ∀ i, Λ.Shares i → invocations i s'.trace = invocations i s.trace

variable {Λ : Likeness ε} {k k' : Option Nat} {s s' : Recorded ε} {h : Handle} {i : Nat}
variable {inst inst' : Instance ε}

theorem count_append (t os : List (Occurrence ε)) : Λ.count (t ++ os) = Λ.count t + Λ.count os :=
  List.countP_append

theorem Alike.mono (ha : Λ.Alike k i inst inst') (hk : some i ≠ k' → some i ≠ k) :
    Λ.Alike k' i inst inst' :=
  { ha with held := fun hi hne => ha.held hi (hk hne) }

theorem Alike.drained (ha : Λ.Alike k i inst inst') : Λ.Alike k i inst.drained inst'.drained := by
  refine { ha with machine := ?_ }
  have hmachine := ha.machine.takeDiagnostics
  simp only [Instance.drained, ha.dispatching]
  cases inst.dispatching with
  | true => exact hmachine
  | false => exact hmachine.takeEvents

namespace Like

theorem instance_cases (hl : Λ.Like k s s') (hi : Λ.Shares i) :
    (s.world.instances[i]? = none ∧ s'.world.instances[i]? = none) ∨
      ∃ inst inst', s.world.instances[i]? = some inst ∧ s'.world.instances[i]? = some inst' ∧
        Λ.Alike k i inst inst' := by
  have hrel := hl.instances i hi
  revert hrel
  generalize s.world.instances[i]? = x
  generalize s'.world.instances[i]? = y
  rintro (ha | _)
  · exact .inr ⟨_, _, rfl, rfl, ha⟩
  · exact .inl ⟨rfl, rfl⟩

theorem find (hl : Λ.Like k s s') (hh : Λ.Sees h) :
    (s.world.find h = .error (.invalidHandle h) ∧ s'.world.find h = .error (.invalidHandle h)) ∨
      ∃ i inst inst', s.world.find h = .ok (i, inst) ∧ s'.world.find h = .ok (i, inst') ∧
        Λ.Shares i ∧ Λ.Alike k i inst inst' := by
  unfold World.find
  rw [hl.handles h hh]
  cases hget : s.world.arena.get? h with
  | none => exact .inl ⟨rfl, rfl⟩
  | some i =>
    have hi := hl.reaches h i hh hget
    rcases hl.instance_cases hi with ⟨hinst, hinst'⟩ | ⟨inst, inst', hinst, hinst', ha⟩
    · simp [hinst, hinst']
    · simp only [hinst, hinst', Option.bind_some, Option.map_some]
      exact .inr ⟨i, inst, inst', rfl, rfl, hi, ha⟩

theorem modify {f f' : Instance ε → Instance ε} (hl : Λ.Like k s s')
    (hk : ∀ j, j ≠ i → some j ≠ k' → some j ≠ k)
    (hf : ∀ inst inst', Λ.Alike k i inst inst' → Λ.Alike k' i (f inst) (f' inst')) :
    Λ.Like k' (s.update (·.modifyInstance i f)) (s'.update (·.modifyInstance i f')) := by
  refine { hl with whole := fun hscope => ?_, instances := fun j hj => ?_ }
  · have hw := hl.whole hscope
    refine { hw with length := ?_, housed := fun j hj => ?_ }
    · simpa [Recorded.update, World.modifyInstance] using hw.length
    · simpa [Recorded.update, World.modifyInstance] using hw.housed j hj
  · simp only [Recorded.update, World.modifyInstance, List.getElem?_modify]
    rcases hl.instance_cases hj with ⟨hinst, hinst'⟩ | ⟨inst, inst', hinst, hinst', ha⟩
    · rw [hinst, hinst']
      exact .none
    · rw [hinst, hinst']
      split
      · rename_i hij
        subst hij
        exact .some (hf inst inst' ha)
      · rename_i hij
        exact .some (ha.mono (hk j (Ne.symm hij)))

theorem set (hl : Λ.Like k s s') (hk : ∀ j, j ≠ i → some j ≠ k' → some j ≠ k)
    (ha : Λ.Alike k' i inst inst') :
    Λ.Like k' (s.update (·.setInstance i inst)) (s'.update (·.setInstance i inst')) := by
  simp only [World.setInstance_eq]
  exact hl.modify hk fun _ _ _ => ha

theorem host {f f' : ε → ε} (hl : Λ.Like k s s')
    (hf : ∀ n, Λ.hosts n s.world.host s'.world.host →
      Λ.hosts n (f s.world.host) (f' s'.world.host)) :
    Λ.Like k (s.update fun w => { w with host := f w.host })
      (s'.update fun w => { w with host := f' w.host }) := by
  obtain ⟨n, hn, hhosts⟩ := hl.hosts
  refine { hl with whole := fun hscope => ?_, hosts := ⟨n, hn, hf n hhosts⟩ }
  exact { hl.whole hscope with }

theorem report (hl : Λ.Like k s s') (severity : Severity) (message : String) :
    Λ.Like k (s.update (·.report severity message)) (s'.update (·.report severity message)) := by
  have hchannel := hl.channel
  have hhost := hl.host fun n => hl.handler n severity message s.world.host s'.world.host
  simp only [Recorded.update, World.report, hchannel] at hhost ⊢
  split
  · exact hl
  · rw [← hchannel] at hhost ⊢
    exact hhost

theorem note {os os' : List (Occurrence ε)} (hl : Λ.Like k s s')
    (hinvocations : ∀ i, Λ.Shares i → Trace.invocations i os' = Trace.invocations i os)
    (hcount : Λ.count os' = Λ.count os) : Λ.Like k (s.note os) (s'.note os') := by
  obtain ⟨n, hn, hhosts⟩ := hl.hosts
  refine { hl with hosts := ⟨n, ?_, hhosts⟩, invocations := fun i hi => ?_ }
  · simp only [Recorded.note_trace, count_append]
    omega
  · simp only [Recorded.note_trace, invocations_append, hl.invocations i hi, hinvocations i hi]

theorem answer {α : Type} (hl : Λ.Like k s s') (r : Except LibraryError α) :
    (s'.world.answer r).1 = (s.world.answer r).1 ∧
      Λ.Like k { s with world := (s.world.answer r).2 }
        { s' with world := (s'.world.answer r).2 } := by
  cases r with
  | ok x => exact ⟨rfl, hl⟩
  | error e => exact ⟨rfl, hl.report e.severity e.message⟩

theorem entered (hl : Λ.Like k s s') (i : Nat) (h : Handle) (e : Event) :
    Λ.Like k (s.note [.entered i h e]) (s'.note [.entered i h e]) :=
  hl.note (fun _ _ => rfl) rfl

theorem reported (hl : Λ.Like k s s') (i : Nat) (es : List MachineError) :
    Λ.Like k (es.foldl (fun s e => s.report i e) s) (es.foldl (fun s e => s.report i e) s') := by
  induction es generalizing s s' with
  | nil => exact hl
  | cons e es ih => exact ih ((hl.report e.severity e.message).note (fun _ _ => rfl) rfl)

theorem collect (hl : Λ.Like k s s') (ha : Λ.Alike k i inst inst') :
    (s'.collect i inst').1 = (s.collect i inst).1 ∧
      Λ.Like k (s.collect i inst).2 (s'.collect i inst').2 := by
  rw [Recorded.collect_drained, Recorded.collect_drained, ha.dispatching, ha.machine.events,
    ha.machine.diagnostics]
  exact ⟨rfl, (hl.set (fun _ _ => id) ha.drained).reported i _⟩

theorem additions_eq {R R' : (List Value → Reaction ε) → (List Value → Reaction ε) → Prop}
    {m m' m₁ m₁' : HostMachine ε} (hm : m.Paired R m') (hm₁ : m₁.Paired R' m₁') (i : Nat) :
    Recorded.additions i m' m₁' = Recorded.additions i m m₁ := by
  simp only [Recorded.additions, hm.events, hm.diagnostics, hm₁.events, hm₁.diagnostics]

theorem store {m m' : HostMachine ε} (hl : Λ.Like k s s') (ha : Λ.Alike k i inst inst')
    (hm : m.Paired (Λ.Binds i) m') : Λ.Like k (s.store i inst m) (s'.store i inst' m') := by
  have hset : Λ.Like k (s.update (·.setInstance i { inst with machine := m }))
      (s'.update (·.setInstance i { inst' with machine := m' })) :=
    hl.set (fun _ _ => id) { ha with machine := hm }
  refine hset.note ?_ ?_ <;> simp only [additions_eq ha.machine hm, implies_true]

theorem occupy (hl : Λ.Like k s s') (ha : Λ.Alike k i inst inst') :
    Λ.Like k (s.occupy i inst) (s'.occupy i inst') :=
  hl.set (fun _ _ => id) { ha with busy := rfl }

theorem vacate {R : (List Value → Reaction ε) → (List Value → Reaction ε) → Prop}
    {m m' m₁ m₁' : HostMachine ε} (hl : Λ.Like k s s') (hm : m.Paired R m')
    (hm₁ : m₁.Paired (Λ.Binds i) m₁') : Λ.Like k (s.vacate i m m₁) (s'.vacate i m' m₁') := by
  let leave (m : HostMachine ε) (inst : Instance ε) : Instance ε :=
    { inst with machine := m, busy := false }
  have hmodify : Λ.Like k (s.update (·.modifyInstance i (leave m₁)))
      (s'.update (·.modifyInstance i (leave m₁'))) :=
    hl.modify (fun _ _ => id) fun _ _ ha => { ha with machine := hm₁, busy := rfl }
  refine hmodify.note ?_ ?_ <;> simp only [additions_eq hm hm₁, implies_true]

theorem query {α : Type} {f : HostMachine ε → α} (hl : Λ.Like k s s') (hh : Λ.Sees h)
    (hf : ∀ {m m' : HostMachine ε} {i}, m.Paired (Λ.Binds i) m' → f m' = f m) :
    s'.world.query h f = s.world.query h f := by
  unfold World.query
  rcases hl.find hh with ⟨hx, hy⟩ | ⟨i, inst, inst', hx, hy, -, ha⟩
  · rw [hx, hy]
  · rw [hx, hy]
    simp only [bind, Except.bind, ha.busy, hf ha.machine]

theorem lookup (hl : Λ.Like k s s') (hh : Λ.Sees h) (name : String) :
    s'.world.lookup h name = s.world.lookup h name := by
  rw [World.lookup, World.lookup, hl.query hh fun hm => hm.value name]

theorem buffers {b b' : List Buffer} {n n' : Nat} (hl : Λ.Like k s s')
    (h : Λ.scope = none → b' = b ∧ n' = n) :
    Λ.Like k (s.update fun w => { w with buffers := b, outstanding := n })
      (s'.update fun w => { w with buffers := b', outstanding := n' }) := by
  refine { hl with whole := fun hscope => ?_ }
  obtain ⟨rfl, rfl⟩ := h hscope
  exact { hl.whole hscope with buffers := rfl, outstanding := rfl }

theorem dispatch (hl : Λ.Like k s s') (hk : ∀ j, j ≠ i → some j ≠ k' → some j ≠ k) {b : Bool}
    (hb : Λ.held i → some i ≠ k' → b = true) :
    Λ.Like k' (s.update (·.dispatch i b)) (s'.update (·.dispatch i b)) :=
  hl.modify hk fun _ _ ha => { ha with dispatching := rfl, held := hb }

theorem abandon (hl : Λ.Like k s s') (h : Handle) (i : Nat) (message : Option String) :
    Λ.Like k (s.update (·.abandon h i message)) (s'.update (·.abandon h i message)) := by
  let halt (inst : Instance ε) : Instance ε := { inst with machine := inst.machine.halt }
  have hhalt : Λ.Like k (s.update (·.modifyInstance i halt)) (s'.update (·.modifyInstance i halt)) :=
    hl.modify (fun _ _ => id) fun _ _ ha => { ha with machine := ha.machine.halt }
  exact hhalt.report .error ("Callback for " ++ h.text ++ " panicked: " ++ panicText message)

end Like

section Operations

variable {perform : Reaction ε → Recorded ε → Option (HostResult × Recorded ε)}
variable (hperform : ∀ {r s s'}, r.Respects Λ → Λ.Like none s s' →
  Coincide (Λ.Like none) (perform r s) (perform r s'))

open Recorded

include hperform

theorem like_deliver {callback : Event → Reaction ε} (hcallback : ∀ e, (callback e).Respects Λ)
    (hl : Λ.Like none s s') (i : Nat) (h : Handle) (events : List Event) :
    Coincide (Λ.Like none) (deliver perform i h callback events s)
      (deliver perform i h callback events s') := by
  induction events generalizing s s' with
  | nil => exact .some ⟨rfl, hl⟩
  | cons e events ih =>
    rw [deliver, deliver]
    rcases (hperform (hcallback e) (hl.entered i h e)).cases with
      ⟨hx, hy⟩ | ⟨x, s₁, s₁', hx, hy, hl₁⟩
    · simp only [hx, hy]
      exact .none
    · simp only [hx, hy]
      cases x with
      | value v => exact ih (hl₁.note (fun _ _ => rfl) rfl)
      | panic message => exact .some ⟨rfl, hl₁.note (fun _ _ => rfl) rfl⟩

theorem like_flush (hl : Λ.Like k s s') (hk : k = none ∨ k = some i) (hi : Λ.Shares i)
    (h : Handle) (fuel : Nat) :
    Option.Rel (Λ.Like k) (flush perform h i fuel s) (flush perform h i fuel s') := by
  induction fuel generalizing s s' with
  | zero => exact .none
  | succ fuel ih =>
    rw [flush, flush]
    rcases hl.instance_cases hi with ⟨hx, hy⟩ | ⟨inst, inst', hx, hy, ha⟩
    · simp only [hx, hy]
      exact .some hl
    · simp only [hx, hy, ha.busy]
      split
      · exact .some hl
      obtain ⟨hevents, hcollect⟩ := hl.collect ha
      have hempty := events_collect s i inst
      generalize s.collect i inst = taken at hevents hcollect hempty ⊢
      generalize s'.collect i inst' = taken' at hevents hcollect ⊢
      obtain ⟨events, s₁⟩ := taken
      obtain ⟨events', s₁'⟩ := taken'
      obtain rfl : events = events' := hevents.symm
      simp only at hcollect hempty ⊢
      split
      · exact .some hcollect
      rename_i hsome
      -- Something is delivered, so that nothing else of the instance is.
      have hidle : inst.dispatching = false := by
        cases hd : inst.dispatching with
        | false => rfl
        | true => simp [hempty, hd] at hsome
      have hopen : Λ.Like none (s₁.update (·.dispatch i true)) (s₁'.update (·.dispatch i true)) := by
        refine hcollect.dispatch (fun j hj _ => ?_) fun _ _ => rfl
        rcases hk with rfl | rfl
        · exact Option.some_ne_none j
        · exact fun heq => hj (Option.some.inj heq)
      have hclose {s s' : Recorded ε} (hl : Λ.Like none s s') :
          Λ.Like k (s.update (·.dispatch i false)) (s'.update (·.dispatch i false)) :=
        hl.dispatch (fun j _ _ => Option.some_ne_none j) fun hheld hne =>
          absurd (ha.held hheld hne) (by simp [hidle])
      rw [ha.callbacks]
      rcases (like_deliver hperform (ha.respects h) hopen i h events).cases with
        ⟨hx, hy⟩ | ⟨x, s₂, s₂', hx, hy, hl₂⟩
      · simp only [hx, hy]
        exact .none
      · simp only [hx, hy]
        cases x with
        | none => exact ih (hclose hl₂)
        | some message => exact .some ((hclose hl₂).abandon h i message)

omit hperform in
theorem coincide_map {α : Type} {f f' : Recorded ε → α × Recorded ε} {x y : Option (Recorded ε)}
    (h : Option.Rel (Λ.Like k) x y)
    (hf : ∀ s s', Λ.Like k s s' → (f s).1 = (f' s').1 ∧ Λ.Like k (f s).2 (f' s').2) :
    Coincide (Λ.Like k) (x.map f) (y.map f') := by
  cases h with
  | none => exact .none
  | some hl => exact .some (hf _ _ hl)

theorem like_change {op : Operation ε} {c : Change ε} (hc : op.change? = some c)
    (hop : op.Respects Λ) (hh : Λ.Sees c.handle) (hl : Λ.Like none s s') (fuel : Nat) :
    Coincide (Λ.Like none) (change perform fuel c s) (change perform fuel c s') := by
  let answer (r : Except LibraryError Reply) (s : Recorded ε) : Reply × Recorded ε :=
    ((s.world.answer r).1.getD c.fallback, { s with world := (s.world.answer r).2 })
  have hanswer (r : Except LibraryError Reply) {s s' : Recorded ε} (hl : Λ.Like none s s') :
      (answer r s).1 = (answer r s').1 ∧ Λ.Like none (answer r s).2 (answer r s').2 := by
    obtain ⟨heq, hl⟩ := hl.answer r
    exact ⟨congrArg (Option.getD · c.fallback) heq.symm, hl⟩
  have hflush {s s' : Recorded ε} {i : Nat} (hl : Λ.Like none s s') (hi : Λ.Shares i)
      (r : Except LibraryError Reply) :
      Coincide (Λ.Like none) ((flush perform c.handle i fuel s).map (answer r))
        ((flush perform c.handle i fuel s').map (answer r)) :=
    coincide_map (like_flush hperform hl (.inl rfl) hi c.handle fuel) fun _ _ => hanswer r
  unfold change
  rcases hl.find hh with ⟨hx, hy⟩ | ⟨i, inst, inst', hx, hy, hi, ha⟩
  · simp only [hx, hy]
    exact .some (hanswer _ hl)
  · simp only [hx, hy, ha.busy]
    split
    · exact .some (hanswer _ hl)
    have hbody {h : Handle} {name : String} {arity : Nat} {b : List Value → Reaction ε}
        (heq : op = .setFunction h name arity b) : Λ.Binds i b b := by
      subst heq
      exact .inr ⟨rfl, by simpa only [Operation.Respects] using hop⟩
    rcases Operation.change?_paired hc hbody ha.machine with
      ⟨e, hx, hy⟩ | ⟨r, m, m', hx, hy, hm⟩
    · simp only [hx, hy]
      exact hflush hl hi _
    · simp only [hx, hy]
      exact hflush (hl.store ha hm) hi _

theorem like_drive {operation : String}
    {f f' : Nat → Instance ε → Recorded ε → Option (Except LibraryError Bool × Recorded ε)}
    (hl : Λ.Like k s s') (hh : Λ.Sees h)
    (hf : ∀ i inst inst', s.world.find h = .ok (i, inst) → s'.world.find h = .ok (i, inst') →
      Λ.Alike k i inst inst' → inst.dispatching = false → inst.busy = false →
      (k = none ∨ k = some i) ∧ Coincide (Λ.Like k) (f i inst s) (f' i inst' s')) (fuel : Nat) :
    Coincide (Λ.Like k) (drive perform fuel operation h f s) (drive perform fuel operation h f' s') := by
  have hanswer (r : Except LibraryError Bool) {s s' : Recorded ε} (hl : Λ.Like k s s') :
      (s.answerFlag r).1 = (s'.answerFlag r).1 ∧
        Λ.Like k (s.answerFlag r).2 (s'.answerFlag r).2 := by
    obtain ⟨heq, hl⟩ := hl.answer r
    exact ⟨congrArg (fun b => Reply.flag (Option.getD b false)) heq.symm, hl⟩
  unfold drive
  rcases hl.find hh with ⟨hx, hy⟩ | ⟨i, inst, inst', hx, hy, hi, ha⟩
  · simp only [hx, hy]
    exact .some (hanswer _ hl)
  · simp only [hx, hy, ha.busy, ha.dispatching]
    split
    · exact .some (hanswer _ hl)
    rename_i hidle
    split
    · exact .some (hanswer _ hl)
    rename_i hfree
    obtain ⟨hk, hagree⟩ := hf i inst inst' hx hy ha (by simpa using hidle) (by simpa using hfree)
    rcases hagree.cases with ⟨hx, hy⟩ | ⟨r, s₁, s₁', hx, hy, hl₁⟩
    · simp only [hx, hy]
      exact .none
    · simp only [hx, hy]
      exact coincide_map (like_flush hperform hl₁ hk hi h fuel) fun _ _ => hanswer r

omit hperform in
theorem like_startInstance (hl : Λ.Like k s s') (ha : Λ.Alike k i inst inst') (bough : String) :
    Coincide (Λ.Like k) (startInstance bough i inst s) (startInstance bough i inst' s') := by
  unfold startInstance
  rcases ha.machine.start bough with ⟨e, hx, hy⟩ | ⟨m, m', hx, hy, hm⟩
  · simp only [hx, hy]
    exact .some ⟨rfl, hl⟩
  · simp only [hx, hy]
    exact .some ⟨rfl, hl.store ha hm⟩

omit hperform in
theorem conclude_paired {R : (List Value → Reaction ε) → (List Value → Reaction ε) → Prop}
    {m m' : HostMachine ε} (hm : m.Paired R m') (ended : RunEnd) :
    (World.conclude m' ended).1 = (World.conclude m ended).1 ∧
      (World.conclude m ended).2.Paired R (World.conclude m' ended).2 := by
  cases ended with
  | paused | error e => exact ⟨rfl, hm⟩
  | panic message => exact ⟨by simp only [World.conclude, hm.ip], hm.halt⟩

omit hperform in
theorem like_run {S : Recorded ε → Recorded ε → Prop} (hS : ∀ s s', S s s' → Λ.Like k s s')
    (hoccupy : S (s.occupy i inst) (s'.occupy i inst')) (ha : Λ.Alike k i inst inst')
    {R : (List Value → Reaction ε) → (List Value → Reaction ε) → Prop}
    (hR : ∀ b b', R b b' → Λ.Binds i b b') (hm : inst.machine.Paired R inst'.machine) {fuel : Nat}
    (hbody : fuel ≠ 0 → ∀ b b' args s s', R b b' → S s s' →
      Coincide S (perform (b args) s) (perform (b' args) s')) :
    Coincide (Λ.Like k) (runInstance perform fuel i inst s) (runInstance perform fuel i inst' s') := by
  unfold runInstance
  rcases (hm.run hoccupy hbody).cases with
    ⟨hx, hy⟩ | ⟨ended, ⟨m, s₁⟩, ⟨m', s₁'⟩, hx, hy, hm₁, hs₁⟩
  · simp only [hx, hy]
    exact .none
  · simp only [hx, hy]
    obtain ⟨hreply, hconclude⟩ := conclude_paired hm₁ ended
    exact .some ⟨hreply.symm, (hS _ _ hs₁).vacate ha.machine (hconclude.mono hR)⟩

end Operations

def Admits (Λ : Likeness ε) (op : Operation ε) : Prop :=
  Λ.scope = none ∨ ∃ h, op.handle? = some h ∧ Λ.Sees h ∧ ∀ name, op ≠ .getValue h name

theorem Admits.sees {op : Operation ε} (hop : Λ.Admits op) (hh : op.handle? = some h) :
    Λ.Sees h := by
  rcases hop with hscope | ⟨h', hh', hsees, -⟩
  · simp [Sees, hscope]
  · rwa [Option.some.inj (hh.symm.trans hh')]

theorem Admits.whole {op : Operation ε} (hop : Λ.Admits op) (hh : op.handle? = none) :
    Λ.scope = none := by
  rcases hop with hscope | ⟨h', hh', -, -⟩
  · exact hscope
  · rw [hh] at hh'
    cases hh'

theorem like_destroy (hl : Λ.Like k s s') (hh : Λ.Sees h) :
    (s'.world.destroy h).1 = (s.world.destroy h).1 ∧
      Λ.Like k { s with world := (s.world.destroy h).2 }
        { s' with world := (s'.world.destroy h).2 } := by
  have hget := hl.handles h hh
  unfold World.destroy
  cases hx : s.world.arena.remove? h with
  | none =>
    have hy : s'.world.arena.remove? h = none := by
      simp only [Arena.remove?, Option.map_eq_none_iff] at hx ⊢
      rwa [hget]
    rw [hy]
    exact ⟨rfl, hl.report .debug _⟩
  | some a =>
    obtain ⟨a', hy⟩ : ∃ a', s'.world.arena.remove? h = some a' := by
      obtain ⟨x, hx, -⟩ := Option.map_eq_some_iff.mp hx
      exact ⟨_, Option.map_eq_some_iff.mpr ⟨x, hget.trans hx, rfl⟩⟩
    rw [hy]
    refine ⟨rfl, { hl with whole := fun hscope => ?_, handles := fun h' hh' => ?_, reaches := ?_ }⟩
    · have hw := hl.whole hscope
      have harena : a' = a := by
        rw [hw.arena, hx] at hy
        exact (Option.some.inj hy).symm
      exact { hw with arena := harena }
    · -- The handle is the only one in scope, or the arenas are the same.
      cases hscope : Λ.scope with
      | none =>
        rw [(hl.whole hscope).arena, hx] at hy
        rw [Option.some.inj hy]
      | some x =>
        obtain rfl : h' = h := by rw [hh' x hscope, hh x hscope]
        rw [Arena.get?_remove_self hx, Arena.get?_remove_self hy]
    · exact fun h' i hh' hi => hl.reaches h' i hh' (Arena.get?_remove hx hi)

theorem like_lend (hl : Λ.Like k s s') (hscope : Λ.scope = none) (h : Handle) (name : String) :
    (s'.world.lend h name).1 = (s.world.lend h name).1 ∧
      Λ.Like k { s with world := (s.world.lend h name).2 }
        { s' with world := (s'.world.lend h name).2 } := by
  rw [World.lend_eq, World.lend_eq, hl.lookup (by simp [Sees, hscope]) name]
  generalize s.world.lookup h name = r
  obtain ⟨hreply, hl⟩ := hl.answer r
  have hw' := hl.whole hscope
  unfold World.supply
  rw [hreply]
  cases (s.world.answer r).1 with
  | none => exact ⟨rfl, hl⟩
  | some v =>
    exact ⟨congrArg (fun bs : List Buffer => some bs.length) hw'.buffers,
      hl.buffers fun _ => ⟨by rw [hw'.buffers], by rw [hw'.outstanding]⟩⟩

theorem like_release (hl : Λ.Like k s s') (hscope : Λ.scope = none) (number : Nat) :
    Λ.Like k { s with world := s.world.release number }
      { s' with world := s'.world.release number } := by
  have hw := hl.whole hscope
  unfold World.release
  rw [hw.buffers, hw.outstanding]
  cases s.world.buffers[number]? with
  | none => exact hl
  | some b => exact hl.buffers fun _ => ⟨rfl, rfl⟩

theorem like_quiet {op : Operation ε} (hquiet : op.isQuiet = true) (hop : Λ.Admits op)
    (hl : Λ.Like none s s') (fuel : Nat) :
    Coincide (Λ.Like none)
      ((World.exec (fuel + 1) op s.world).map fun r => (r.1, s.update fun _ => r.2))
      ((World.exec (fuel + 1) op s'.world).map fun r => (r.1, s'.update fun _ => r.2)) := by
  have hasked {α : Type} {h : Handle} {f : HostMachine ε → α} (hh : Λ.Sees h)
      (hf : ∀ {m m' : HostMachine ε} {i}, m.Paired (Λ.Binds i) m' → f m' = f m)
      (g : Option α → Reply) : Coincide (Λ.Like none)
        (some (g (s.world.answer (s.world.query h f)).1,
          { s with world := (s.world.answer (s.world.query h f)).2 }))
        (some (g (s'.world.answer (s'.world.query h f)).1,
          { s' with world := (s'.world.answer (s'.world.query h f)).2 })) := by
    rw [hl.query hh hf]
    obtain ⟨hreply, hl⟩ := hl.answer (s.world.query h f)
    exact .some ⟨congrArg g hreply.symm, hl⟩
  cases op <;> first | cases hquiet; done | skip
  case destroy h =>
    obtain ⟨hreply, hl⟩ := like_destroy hl (hop.sees rfl)
    exact .some ⟨congrArg Reply.flag hreply.symm, hl⟩
  case isAlive h =>
    refine .some ⟨?_, hl⟩
    simp only [hl.handles h (hop.sees rfl)]
  case size => exact .some ⟨by simp only [(hl.whole (hop.whole rfl)).arena], hl⟩
  case state h => exact hasked (hop.sees rfl) (fun hm => hm.state) .state
  case canContinue h =>
    exact hasked (hop.sees rfl) (fun hm => by simp only [Machine.canContinue, hm.state])
      fun b => .flag (b.getD false)
  case isWaiting h =>
    exact hasked (hop.sees rfl) (fun hm => by simp only [Machine.isWaiting, hm.state])
      fun b => .flag (b.getD false)
  case getValue h name =>
    rcases hop with hscope | ⟨h', hh', -, hne⟩
    · obtain ⟨hreply, hl⟩ := like_lend hl hscope h name
      exact .some ⟨congrArg Reply.buffer hreply.symm, hl⟩
    · obtain rfl : h = h' := Option.some.inj hh'
      exact absurd rfl (hne name)
  case bufferBytes number => exact .some ⟨by simp only [(hl.whole (hop.whole rfl)).buffers], hl⟩
  case release number => exact .some ⟨rfl, like_release hl (hop.whole rfl) number⟩
  case outstanding => exact .some ⟨by simp only [(hl.whole (hop.whole rfl)).outstanding], hl⟩
  case externs h => exact hasked (hop.sees rfl) (fun hm => by simp only [hm.container]) .names
  case boughNames h => exact hasked (hop.sees rfl) (fun hm => by simp only [hm.container]) .names
  case setSeverity severity =>
    have hwhole (hscope : Λ.scope = none) := hl.whole hscope
    refine .some ⟨rfl, { hl with whole := fun hscope => { hwhole hscope with }, channel := ?_ }⟩
    simp only [Recorded.update, hl.channel]
  case report severity message => exact .some ⟨rfl, hl.report severity message⟩
  case resetHandler =>
    have hwhole (hscope : Λ.scope = none) := hl.whole hscope
    refine .some ⟨rfl, { hl with
      whole := fun hscope => { hwhole hscope with }
      channel := ?_
      handler := fun _ _ _ _ _ he => he }⟩
    simp only [Recorded.update, hl.channel]

theorem like_create {bytes : Bytes} {callbacks : Handle → Event → Reaction ε}
    (hcallbacks : ∀ h e, (callbacks h e).Respects Λ) (hl : Λ.Like none s s')
    (hscope : Λ.scope = none) :
    (s.create bytes callbacks).1 = (s'.create bytes callbacks).1 ∧
      Λ.Like none (s.create bytes callbacks).2 (s'.create bytes callbacks).2 := by
  have hw := hl.whole hscope
  have hshares (i : Nat) : Λ.Shares i := by simp [Shares, hscope]
  have hsees (h : Handle) : Λ.Sees h := by simp [Sees, hscope]
  unfold Recorded.create World.open?
  cases Container.parse bytes with
  | error e =>
    exact ⟨rfl, (hl.report .error _).note (fun _ _ => rfl) rfl⟩
  | ok c =>
    rw [hw.arena, hw.length]
    refine ⟨rfl, Like.note ?_ (fun _ _ => rfl) rfl⟩
    refine { hl with
      whole := fun _ => { hw with arena := rfl, length := ?_, housed := fun i hi => ?_ }
      handles := fun _ _ => rfl
      reaches := fun _ i _ _ => hshares i
      instances := fun i _ => ?_ }
    · simp [Recorded.update, hw.length]
    · have := hw.housed i hi
      simp [Recorded.update]
      omega
    · -- The new instance is behind all that are held.
      simp only [Recorded.update, List.getElem?_append, hw.length]
      split
      · exact hl.instances i (hshares i)
      · rename_i hi
        rw [List.getElem?_singleton]
        split
        · refine .some ⟨rfl, rfl, rfl, hcallbacks, fun hheld _ => ?_, .create c⟩
          exact absurd (hw.housed i hheld) hi
        · exact .none

theorem like_perform {exec : Operation ε → Recorded ε → Option (Reply × Recorded ε)}
    (hexec : ∀ {op s s'}, op.Respects Λ → Λ.scope = none → Λ.Like none s s' →
      Coincide (Λ.Like none) (exec op s) (exec op s')) :
    ∀ (r : Reaction ε) {s s' : Recorded ε}, r.Respects Λ → Λ.Like none s s' →
      Coincide (Λ.Like none) (Recorded.perform exec r s) (Recorded.perform exec r s')
  | .done v, s, s' => fun _ hl => .some ⟨rfl, hl⟩
  | .panic message, s, s' => fun _ hl => .some ⟨rfl, hl⟩
  | .update f next, s, s' => fun hr hl => by
    rw [Reaction.Respects] at hr
    exact like_perform hexec next hr.2 (hl.host fun n => hr.1 n _ _)
  | .inspect next, s, s' => fun hr hl => by
    rw [Reaction.Respects] at hr
    obtain ⟨n, -, hhosts⟩ := hl.hosts
    rw [Recorded.perform, Recorded.perform, ← hr.1 n _ _ hhosts]
    exact like_perform hexec (next s.world.host) (hr.2 _) hl
  | .call op next, s, s' => fun hr hl => by
    rw [Reaction.Respects] at hr
    obtain ⟨hscope, hop, hnext⟩ := hr
    rw [Recorded.perform, Recorded.perform]
    rcases (hexec hop hscope hl).cases with ⟨hx, hy⟩ | ⟨reply, s₁, s₁', hx, hy, hl₁⟩
    · simp only [hx, hy]
      exact .none
    · simp only [hx, hy]
      exact like_perform hexec (next reply) (hnext reply) hl₁

theorem like_return {op : Operation ε} {x y : Option (Reply × Recorded ε)}
    (h : Coincide (Λ.Like k) x y) (since since' : Nat) (w w' : World ε) :
    Coincide (Λ.Like k)
      (x.map fun r => (r.1, r.2.note [.returned op since w r.1 r.2.world]))
      (y.map fun r => (r.1, r.2.note [.returned op since' w' r.1 r.2.world])) := by
  cases h with
  | none => exact .none
  | some hr => exact .some ⟨hr.1, hr.2.note (fun _ _ => rfl) rfl⟩

theorem like_exec {op : Operation ε} (hop : op.Respects Λ) (hadmits : Λ.Admits op)
    (hl : Λ.Like none s s') (fuel : Nat) :
    Coincide (Λ.Like none) (Recorded.exec fuel op s) (Recorded.exec fuel op s') := by
  -- The operations within this one have less fuel.
  induction fuel generalizing op s s' with
  | zero => exact .none
  | succ fuel ih =>
    have hexec {op : Operation ε} {s s' : Recorded ε} (hop : op.Respects Λ) (hscope : Λ.scope = none)
        (hl : Λ.Like none s s') :
        Coincide (Λ.Like none) (Recorded.exec fuel op s) (Recorded.exec fuel op s') :=
      ih hop (.inl hscope) hl
    have hperform {r : Reaction ε} {s s' : Recorded ε} (hr : r.Respects Λ) (hl : Λ.Like none s s') :
        Coincide (Λ.Like none) (Recorded.perform (Recorded.exec fuel) r s)
          (Recorded.perform (Recorded.exec fuel) r s') :=
      like_perform hexec r hr hl
    rw [Recorded.exec, Recorded.exec]
    refine like_return ?_ _ _ _ _
    rcases op.kinds with ⟨bytes, callbacks, rfl⟩ | ⟨h, bough, rfl⟩ | ⟨h, rfl⟩ | ⟨c, hc⟩ | hquiet
    · rw [Operation.Respects] at hop
      exact .some (like_create hop hl (hadmits.whole rfl))
    · exact like_drive hperform hl (hadmits.sees rfl)
        (fun i inst inst' _ _ ha _ _ => ⟨.inl rfl, like_startInstance hl ha bough⟩) fuel
    · refine like_drive hperform hl (hadmits.sees rfl)
        (fun i inst inst' _ _ ha hidle _ => ⟨.inl rfl, ?_⟩) fuel
      -- An instance that runs is not held.
      have hheld : ¬Λ.held i := fun hheld =>
        absurd (ha.held hheld (Option.some_ne_none i)) (by simp [hidle])
      refine like_run (fun _ _ => id) (hl.occupy ha) ha (fun _ _ => id) ha.machine ?_
      rintro - b b' args s s' (hheld' | ⟨rfl, hb⟩) hl
      · exact absurd hheld' hheld
      · exact hperform (hb args) hl
    · rw [Recorded.enact_change hc, Recorded.enact_change hc]
      exact like_change hperform hc hop (hadmits.sees (Operation.handle?_of_change hc)) hl fuel
    · rw [Recorded.enact_quiet hquiet, Recorded.enact_quiet hquiet]
      exact like_quiet hquiet hadmits hl fuel

theorem like_reaction {r : Reaction ε} (hr : r.Respects Λ) (hl : Λ.Like none s s') (fuel : Nat) :
    Coincide (Λ.Like none) (Recorded.perform (Recorded.exec fuel) r s)
      (Recorded.perform (Recorded.exec fuel) r s') :=
  like_perform (fun hop hscope hl => like_exec hop (.inl hscope) hl fuel) r hr hl

end Likeness

end Dialogue
