import Dialogue.Proofs.Host.Likeness
import Dialogue.Proofs.Host.Rest

/-!
Operations on a machine by the functions that it calls while it runs. They all fail, and apart from
the log everything is as if the functions performed none.
-/

namespace Dialogue

open Trace

variable {ε ν : Type} {h : Handle} {i : Nat}

def Operation.failure? : Operation ε → Option Reply
  | start .. | run _ | canContinue _ | isWaiting _ | selectContinue _ | selectChoice ..
  | subscribe .. | unsubscribe .. | setExtern .. | setFunction .. | declareEnum .. =>
    some (.flag false)
  | state _ => some (.state none)
  | getValue .. => some (.buffer none)
  | save _ => some (.snapshot none)
  | load .. => some (.count 0)
  | externs _ | boughNames _ => some (.names none)
  | create .. | destroy _ | isAlive _ | size | bufferBytes _ | release _ | outstanding
  | setSeverity _ | report .. | resetHandler => none

/-- What an operation on the machine behind the handle replies while the machine runs. -/
def Operation.refusal? (h : Handle) (op : Operation ε) : Option Reply :=
  if op.handle? = some h then op.failure? else none

theorem Operation.refusal?_eq_some {op : Operation ε} {r : Reply} :
    op.refusal? h = some r ↔ op.handle? = some h ∧ op.failure? = some r := by
  unfold refusal?
  split <;> simp_all

theorem Operation.failure?_of_change {op : Operation ε} {c : Change ε} (hc : op.change? = some c) :
    op.failure? = some c.fallback := by
  cases op <;> cases hc <;> rfl

def Reply.succeeded : Reply → Bool
  | .flag b => b
  | _ => false

theorem Reply.eq_of_succeeded {r : Reply} (h : r.succeeded = true) : r = .flag true := by
  cases r with
  | flag b => exact congrArg Reply.flag h
  | _ => cases h

namespace World

variable {w : World ε} {inst : Instance ε}

def Runs (w : World ε) (h : Handle) : Prop :=
  ∃ i inst, w.find h = .ok (i, inst) ∧ inst.busy = true ∧ inst.dispatching = false

theorem report_error (w : World ε) (message : String) :
    w.report .error message = { w with host := w.channel.handler .error message w.host } := by
  unfold report
  cases w.channel.threshold <;> rfl

def refuse (w : World ε) (h : Handle) : World ε := w.report .error (LibraryError.busy h).message

theorem refuse_eq (w : World ε) (h : Handle) : w.refuse h =
    { w with host := w.channel.handler .error (LibraryError.busy h).message w.host } :=
  report_error w _

theorem Runs.refuse (hw : w.Runs h) (h' : Handle) : (w.refuse h').Runs h := by
  rw [refuse_eq]
  exact hw

theorem exec_refused {op : Operation ε} {r : Reply} (hw : w.Runs h) (hop : op.refusal? h = some r)
    (fuel : Nat) : exec (fuel + 1) op w = some (r, w.refuse h) := by
  obtain ⟨i, inst, hfind, hbusy, hidle⟩ := hw
  obtain ⟨hhandle, hfailure⟩ := Operation.refusal?_eq_some.mp hop
  have hquery {α : Type} (f : HostMachine ε → α) : w.query h f = .error (.busy h) := by
    simp [query, hfind, hbusy, bind, Except.bind]
  have hchange {α : Type} {perform : Reaction ε → World ε → Option (HostResult × World ε)}
      (f : HostMachine ε → Except MachineError (α × HostMachine ε)) :
      change perform fuel h f w = some (.error (.busy h), w) := by
    simp [change, hfind, hbusy]
  cases op <;> cases hfailure <;> cases hhandle
  case start | run =>
    simp [exec, drive, hfind, hbusy, hidle, answerFlag, answer, refuse, LibraryError.severity]
  case getValue =>
    simp [exec, lend, hquery, answer, refuse, LibraryError.severity, bind, Except.bind]
  all_goals
    simp [exec, changeFlag, hchange, hquery, answerFlag, answer, refuse, LibraryError.severity]

end World

theorem Recorded.exec_refused {op : Operation ε} {r : Reply} {s : Recorded ε} (hs : s.world.Runs h)
    (hop : op.refusal? h = some r) (fuel : Nat) : Recorded.exec (fuel + 1) op s =
      some (r, (s.update (·.refuse h)).note
        [.returned op s.trace.length s.world r (s.world.refuse h)]) := by
  obtain ⟨hhandle, hfailure⟩ := Operation.refusal?_eq_some.mp hop
  have hworld := World.exec_refused hs hop fuel
  obtain ⟨i, inst, hfind, hbusy, hidle⟩ := hs
  have henact : enact (Recorded.perform (exec fuel)) fuel op (World.exec (fuel + 1) op) s =
      some (r, s.update (·.refuse h)) := by
    rcases op.kinds with ⟨bytes, callbacks, rfl⟩ | ⟨h', bough, rfl⟩ | ⟨h', rfl⟩ | ⟨c, hc⟩ | hquiet
    · cases hfailure
    · cases hfailure
      cases hhandle
      simp only [enact, drive, hfind, hbusy, hidle, if_true, if_false, Bool.false_eq_true]
      rfl
    · cases hfailure
      cases hhandle
      simp only [enact, drive, hfind, hbusy, hidle, if_true, if_false, Bool.false_eq_true]
      rfl
    · obtain rfl : c.handle = h :=
        Option.some.inj ((Operation.handle?_of_change hc).symm.trans hhandle)
      obtain rfl : c.fallback = r :=
        Option.some.inj ((Operation.failure?_of_change hc).symm.trans hfailure)
      rw [enact_change hc]
      simp only [change, hfind, hbusy, if_true]
      rfl
    · rw [enact_quiet hquiet, hworld]
      rfl
  rw [exec, henact]
  rfl

def Inserted {α : Type} (x : α) (n : Nat) (l l' : List α) : Prop :=
  l.Sublist l' ∧ l'.Perm (l ++ List.replicate n x)

namespace Inserted

variable {α : Type} {x : α} {n : Nat} {l l' : List α}

theorem refl (x : α) (l : List α) : Inserted x 0 l l := ⟨List.Sublist.refl l, by simp⟩

theorem append (hl : Inserted x n l l') (ys : List α) : Inserted x n (l ++ ys) (l' ++ ys) := by
  refine ⟨hl.1.append (List.Sublist.refl ys), ?_⟩
  have hcomm : (List.replicate n x ++ ys).Perm (ys ++ List.replicate n x) := List.perm_append_comm
  have hswap := hcomm.append_left l
  rw [← List.append_assoc, ← List.append_assoc] at hswap
  exact (hl.2.append_right ys).trans hswap

theorem insert (hl : Inserted x n l l') : Inserted x (n + 1) l (l' ++ [x]) := by
  refine ⟨hl.1.trans (List.sublist_append_left l' [x]), ?_⟩
  rw [List.replicate_succ', ← List.append_assoc]
  exact hl.2.append_right [x]

end Inserted

abbrev Logged (ν : Type) := ν × List (Severity × String)

def Logged.append (severity : Severity) (message : String) (e : Logged ν) : Logged ν :=
  (e.1, e.2 ++ [(severity, message)])

def Logged.Spared (f : Logged ν → Logged ν) : Prop := ∃ g : ν → ν, ∀ e, f e = (g e.1, e.2)

mutual

def Operation.Discreet : Operation (Logged ν) → Prop
  | .create _ callbacks => ∀ h e, (callbacks h e).Discreet
  | .setFunction _ _ _ body => ∀ args, (body args).Discreet
  | _ => True
termination_by structural op => op

def Reaction.Discreet : Reaction (Logged ν) → Prop
  | .done _ | .panic _ => True
  | .update f next => Logged.Spared f ∧ next.Discreet
  | .inspect next => (∀ e e', e.1 = e'.1 → next e = next e') ∧ ∀ e, (next e).Discreet
  | .call op next => op.Discreet ∧ ∀ r, (next r).Discreet
termination_by structural r => r

end

/-- The host code leaves the log alone and performs no operations but such that fail while the
machine behind the handle runs. -/
def Reaction.Nested (h : Handle) : Reaction (Logged ν) → Prop
  | .done _ | .panic _ => True
  | .update f next => Logged.Spared f ∧ next.Nested h
  | .inspect next => (∀ e e', e.1 = e'.1 → next e = next e') ∧ ∀ e, (next e).Nested h
  | .call op next => ∃ r, op.refusal? h = some r ∧ (next r).Nested h

def Reaction.mute (h : Handle) : Reaction ε → Reaction ε
  | .done v => .done v
  | .panic message => .panic message
  | .update f next => .update f (next.mute h)
  | .inspect next => .inspect fun e => (next e).mute h
  | .call op next =>
    match op.refusal? h with
    | some r => (next r).mute h
    | none => .call op next

theorem Reaction.mute_sequence {ops : List (Operation ε)}
    (hops : ∀ op ∈ ops, (op.refusal? h).isSome) (v : Value) :
    (Reaction.sequence ops (.done v)).mute h = .done v := by
  induction ops with
  | nil => rfl
  | cons op ops ih =>
    obtain ⟨r, hr⟩ := Option.isSome_iff_exists.mp (hops op List.mem_cons_self)
    rw [Reaction.sequence, List.foldr_cons, Reaction.mute, hr]
    exact ih fun op hop => hops op (List.mem_cons_of_mem _ hop)

def Likeness.noting (h : Handle) (i : Nat) : Likeness (Logged ν) where
  hosts n e e' := e'.1 = e.1 ∧ Inserted (.error, (LibraryError.busy h).message) n e'.2 e.2
  counts op := (op.refusal? h).isSome
  held j := j = i
  scope := none

section Discretion

variable {f : Logged ν → Logged ν}

theorem Logged.Spared.hosts (hf : Logged.Spared f) (n : Nat) (e e' : Logged ν)
    (he : (Likeness.noting h i).hosts n e e') : (Likeness.noting h i).hosts n (f e) (f e') := by
  obtain ⟨g, hg⟩ := hf
  rw [hg, hg]
  exact ⟨congrArg g he.1, he.2⟩

mutual

theorem Operation.Discreet.respects :
    ∀ {op : Operation (Logged ν)}, op.Discreet → op.Respects (.noting h i)
  | .create .., hop => by
    rw [Operation.Discreet] at hop
    rw [Operation.Respects]
    exact fun h e => (hop h e).respects
  | .setFunction .., hop => by
    rw [Operation.Discreet] at hop
    rw [Operation.Respects]
    exact fun args => (hop args).respects
  | .destroy _, _ | .isAlive _, _ | .size, _ | .start .., _ | .run _, _ | .state _, _
  | .canContinue _, _ | .isWaiting _, _ | .selectContinue _, _ | .selectChoice .., _
  | .subscribe .., _ | .unsubscribe .., _ | .setExtern .., _ | .declareEnum .., _
  | .getValue .., _ | .bufferBytes _, _ | .release _, _ | .outstanding, _ | .save _, _
  | .load .., _ | .externs _, _ | .boughNames _, _ | .setSeverity _, _ | .report .., _
  | .resetHandler, _ => trivial
termination_by structural op => op

theorem Reaction.Discreet.respects :
    ∀ {r : Reaction (Logged ν)}, r.Discreet → r.Respects (.noting h i)
  | .done _, _ | .panic _, _ => trivial
  | .update _ _, hr => by
    rw [Reaction.Discreet] at hr
    rw [Reaction.Respects]
    exact ⟨hr.1.hosts, hr.2.respects⟩
  | .inspect _, hr => by
    rw [Reaction.Discreet] at hr
    rw [Reaction.Respects]
    exact ⟨fun _ e e' he => hr.1 e e' he.1.symm, fun e => (hr.2 e).respects⟩
  | .call _ _, hr => by
    rw [Reaction.Discreet] at hr
    rw [Reaction.Respects]
    exact ⟨rfl, hr.1.respects, fun reply => (hr.2 reply).respects⟩
termination_by structural r => r

end

end Discretion

/-- Host code leaves the log alone. The functions of the instance `i` perform no operations but on its
machine, while that runs. -/
structure World.Insular (h : Handle) (i : Nat) (w : World (Logged ν)) : Prop where
  handler : w.channel.handler = Logged.append
  callbacks : ∀ inst ∈ w.instances, ∀ h e, (inst.callbacks h e).Discreet
  nested : ∀ inst, w.instances[i]? = some inst →
    inst.machine.Bodies fun body => ∀ args, (body args).Nested h
  others : ∀ j inst, j ≠ i → w.instances[j]? = some inst →
    inst.machine.Bodies fun body => ∀ args, (body args).Discreet

/-- The runs within a run of the machine, in which its functions are at work. -/
structure Recorded.Nests (h : Handle) (i : Nat) (s s' : Recorded (Logged ν)) : Prop where
  like : (Likeness.noting h i).Like (some i) s s'
  runs : s.world.Runs h
  handler : s.world.channel.handler = Logged.append

namespace Recorded

variable {s s' : Recorded (Logged ν)}

theorem Nests.host {f : Logged ν → Logged ν} (hs : Nests h i s s') (hf : Logged.Spared f) :
    Nests h i (s.update fun w => { w with host := f w.host })
      (s'.update fun w => { w with host := f w.host }) :=
  ⟨hs.like.host fun n => hf.hosts n _ _, hs.runs, hs.handler⟩

theorem Nests.refuse {op : Operation (Logged ν)} {r : Reply} (hs : Nests h i s s')
    (hop : op.refusal? h = some r) (since : Nat) (w w' : World (Logged ν)) :
    Nests h i ((s.update (·.refuse h)).note [.returned op since w r w']) s' := by
  obtain ⟨n, hn, hview, hlog⟩ := hs.like.hosts
  have hrefuse : s.update (·.refuse h) =
      s.update fun w => { w with host := Logged.append .error (LibraryError.busy h).message w.host } := by
    simp only [update, World.refuse_eq, hs.handler]
  rw [hrefuse]
  have hcount : (Likeness.noting h i).count [.returned op since w r w'] = 1 := by
    simp [Likeness.count, Likeness.noting, hop]
  refine ⟨{ hs.like with
    whole := fun hscope => { hs.like.whole hscope with }
    hosts := ⟨n + 1, ?_, hview, hlog.insert⟩
    invocations := fun j hj => ?_ }, hs.runs, hs.handler⟩
  · rw [note_trace, Likeness.count_append, hcount, update_trace, hn, Nat.add_assoc]
  · rw [note_trace, invocations_append, update_trace, hs.like.invocations j hj]
    exact (List.append_nil _).symm

theorem nests_perform (fuel : Nat) : ∀ (r : Reaction (Logged ν)) {s s' : Recorded (Logged ν)},
    r.Nested h → Nests h i s s' → Coincide (Nests h i) (perform (exec (fuel + 1)) r s)
      (perform (exec (fuel + 1)) (r.mute h) s')
  | .done v, s, s' => fun _ hs => .some ⟨rfl, hs⟩
  | .panic message, s, s' => fun _ hs => .some ⟨rfl, hs⟩
  | .update f next, s, s' => fun hr hs => nests_perform fuel next hr.2 (hs.host hr.1)
  | .inspect next, s, s' => fun hr hs => by
    obtain ⟨n, -, hview, -⟩ := hs.like.hosts
    rw [perform, Reaction.mute, perform, hr.1 s.world.host s'.world.host hview.symm]
    exact nests_perform fuel (next s'.world.host) (hr.2 _) hs
  | .call op next, s, s' => fun hr hs => by
    obtain ⟨reply, hop, hnext⟩ := hr
    rw [perform, exec_refused hs.runs hop, Reaction.mute, hop]
    exact nests_perform fuel (next reply) hnext (hs.refuse hop _ _ _)

def muted (h : Handle) (i : Nat) (s : Recorded (Logged ν)) : Recorded (Logged ν) :=
  s.update (·.modifyInstance i fun inst =>
    { inst with machine := inst.machine.map fun body args => (body args).mute h })

def accesses (h : Handle) (t : List (Occurrence ε)) : Nat :=
  t.countP fun
    | .returned op .. => (op.refusal? h).isSome
    | _ => false

/-- The runs have gone alike, but the first one has done more operations on the machine behind the
handle, and the log has a report of each of them. -/
structure Mirrors (h : Handle) (s s' : Recorded (Logged ν)) : Prop where
  machines : s'.world.instances.map (·.machine.map fun _ => ()) =
    s.world.instances.map (·.machine.map fun _ => ())
  invocations : ∀ i, Trace.invocations i s'.trace = Trace.invocations i s.trace
  arena : s'.world.arena = s.world.arena
  buffers : s'.world.buffers = s.world.buffers
  outstanding : s'.world.outstanding = s.world.outstanding
  channel : s'.world.channel = s.world.channel
  host : s'.world.host.1 = s.world.host.1
  log : ∃ n, accesses h s.trace = accesses h s'.trace + n ∧
    Inserted (.error, (LibraryError.busy h).message) n s'.world.host.2 s.world.host.2

theorem Mirrors.of_like {k : Option Nat} (hl : (Likeness.noting h i).Like k s s') :
    Mirrors h s s' := by
  have hw := hl.whole rfl
  have hshares (j : Nat) : (.noting h i : Likeness (Logged ν)).Shares j := by
    simp [Likeness.Shares, Likeness.noting]
  obtain ⟨n, hn, hview, hlog⟩ := hl.hosts
  refine ⟨List.ext_getElem? fun j => ?_, fun j => hl.invocations j (hshares j), hw.arena, hw.buffers,
    hw.outstanding, hl.channel, hview, n, hn, hlog⟩
  simp only [List.getElem?_map]
  rcases hl.instance_cases (hshares j) with ⟨hx, hy⟩ | ⟨inst, inst', hx, hy, ha⟩
  · rw [hx, hy]
  · rw [hx, hy, Option.map_some, Option.map_some, ha.machine.same]

theorem like_muted (hs : s.world.Insular h i) (hi : i < s.world.instances.length) :
    (Likeness.noting h i).Like (some i) s (s.muted h i) := by
  have hrespects {r : Reaction (Logged ν)} (hr : r.Discreet) : r.Respects (.noting h i) := hr.respects
  refine {
    whole := fun _ => ⟨rfl, by simp [muted, update, World.modifyInstance], rfl, rfl, ?_⟩
    handles := fun _ _ => rfl
    reaches := fun _ _ _ _ => by simp [Likeness.Shares, Likeness.noting]
    instances := fun j _ => ?_
    channel := rfl
    handler := fun n severity message e e' he => ?_
    hosts := ⟨0, rfl, rfl, .refl _ _⟩
    invocations := fun _ _ => rfl }
  · rintro j rfl
    exact hi
  · simp only [muted, update, World.modifyInstance, List.getElem?_modify]
    cases hinst : s.world.instances[j]? with
    | none => exact .none
    | some inst =>
      have hcallbacks (h : Handle) (e : Event) := hrespects
        (hs.callbacks inst (List.mem_of_getElem? hinst) h e)
      split
      · rename_i hij
        subst hij
        refine .some ⟨rfl, rfl, rfl, hcallbacks, fun _ hne => absurd rfl hne, ?_⟩
        exact .of_bodies (hs.nested inst hinst) fun _ _ => .inl rfl
      · rename_i hij
        refine .some ⟨rfl, rfl, rfl, hcallbacks, fun hheld => absurd hheld.symm hij, .refl ?_⟩
        intro g hg arity body hslot
        have hbody := hs.others j inst (Ne.symm hij) hinst g hg arity body hslot
        exact .inr ⟨rfl, fun args => hrespects (hbody args)⟩
  · rw [hs.handler]
    exact ⟨he.1, he.2.append _⟩

theorem nests_occupy {inst inst' : Instance (Logged ν)} (hs : s.world.channel.handler = Logged.append)
    (hl : (Likeness.noting h i).Like (some i) s s')
    (ha : (Likeness.noting h i).Alike (some i) i inst inst') (hfind : s.world.find h = .ok (i, inst))
    (hidle : inst.dispatching = false) : Nests h i (s.occupy i inst) (s'.occupy i inst') := by
  obtain ⟨hget, hinst⟩ := World.find_eq_ok hfind
  refine ⟨hl.occupy ha, ⟨i, { inst with busy := true }, World.find_eq_of_get? hget ?_, rfl, hidle⟩, hs⟩
  exact List.getElem?_set_self (List.getElem?_eq_some_iff.mp hinst).1

/-- While a machine runs, operations on it fail, with a report for each. When its functions perform
them, they are of no other consequence for the run. -/
theorem nested_run {inst : Instance (Logged ν)} (hs : s.world.Insular h i)
    (hfind : s.world.find h = .ok (i, inst)) (fuel : Nat) :
    (∀ (w : World (Logged ν)) (op : Operation (Logged ν)) r, w.Runs h → op.refusal? h = some r →
      ∀ fuel, w.exec (fuel + 1) op = some (r, w.refuse h) ∧ (w.refuse h).Runs h) ∧
    (∀ (ops : List (Operation (Logged ν))) v, (∀ op ∈ ops, (op.refusal? h).isSome) →
      (Reaction.sequence ops (.done v)).mute h = .done v) ∧
    Coincide (Mirrors h) (exec fuel (.run h) s) (exec fuel (.run h) (s.muted h i)) := by
  refine ⟨fun w op r hw hop fuel => ⟨World.exec_refused hw hop fuel, hw.refuse h⟩,
    fun ops v hops => Reaction.mute_sequence hops v, ?_⟩
  obtain ⟨-, hinst⟩ := World.find_eq_ok hfind
  have hl := like_muted hs (List.getElem?_eq_some_iff.mp hinst).1
  suffices hrun : Coincide ((Likeness.noting h i).Like (some i)) (exec fuel (.run h) s)
      (exec fuel (.run h) (s.muted h i)) from hrun.mono fun _ _ => Mirrors.of_like
  cases fuel with
  | zero => exact .none
  | succ fuel =>
    have hsees : (.noting h i : Likeness (Logged ν)).Sees h := by simp [Likeness.Sees, Likeness.noting]
    rw [exec, exec]
    refine Likeness.like_return ?_ _ _ _ _
    refine Likeness.like_drive (fun hr hl => Likeness.like_reaction hr hl fuel) hl hsees
      (fun j inst₁ inst' hfind₁ hfind' ha hidle _ => ?_) fuel
    obtain ⟨rfl, rfl⟩ : i = j ∧ inst = inst₁ := by
      rw [hfind] at hfind₁
      cases hfind₁
      exact ⟨rfl, rfl⟩
    have hmuted : inst'.machine = inst.machine.map fun body args => (body args).mute h := by
      obtain ⟨-, hinst'⟩ := World.find_eq_ok hfind'
      simp only [muted, update, World.modifyInstance, List.getElem?_modify_eq, hinst] at hinst'
      cases hinst'
      rfl
    -- The functions are paired with what is left of them without their operations.
    have hpaired : inst.machine.Paired
        (fun body body' => (∀ args, (body args).Nested h) ∧ body' = fun args => (body args).mute h)
        inst'.machine := by
      rw [hmuted]
      exact .of_bodies (hs.nested inst hinst) fun _ hbody => ⟨hbody, rfl⟩
    refine ⟨.inr rfl, Likeness.like_run (fun _ _ hs => hs.like)
      (nests_occupy hs.handler hl ha hfind hidle) ha (fun _ _ _ => .inl rfl) hpaired ?_⟩
    rintro hfuel b b' args s s' ⟨hbody, rfl⟩ hs
    obtain ⟨fuel, rfl⟩ := Nat.exists_eq_succ_of_ne_zero hfuel
    exact nests_perform fuel (b args) (hbody args) hs

def prying (h : Handle) : HostMachine (Logged Unit) where
  container := ⟨.newest, [⟨"pry", 0, true, false⟩], [], ((Instruction.call 0 [] none).write.bytes ++
    Instruction.stop.write.bytes).toArray, 0⟩
  globals := [⟨⟨"pry", 0, true, false⟩, .function 0 fun _ =>
    .sequence [.run h, .state h, .setFunction h "pry" 0 fun _ => .done .nil, .save h]
      (.done (.bool true)), false⟩]
  state := .running
  ip := 0
  pending := []
  visited := []
  domains := .empty
  events := []
  diagnostics := []

def pried (h : Handle) : Recorded (Logged Unit) where
  world := {
    arena := ⟨[⟨0, some 0⟩], [], 1⟩
    instances := [⟨prying h, fun _ _ => .done .nil, false, false⟩]
    buffers := []
    outstanding := 0
    channel := ⟨.error, Logged.append⟩
    host := ((), []) }
  trace := []

theorem nested_run_pried : (pried ⟨0, 0⟩).world.Insular ⟨0, 0⟩ 0 ∧
    ∃ s s' : Recorded (Logged Unit), exec 9 (.run ⟨0, 0⟩) (pried ⟨0, 0⟩) = some (.flag true, s) ∧
      exec 9 (.run ⟨0, 0⟩) ((pried ⟨0, 0⟩).muted ⟨0, 0⟩ 0) = some (.flag true, s') ∧
        Mirrors ⟨0, 0⟩ s s' ∧ s.world.host.2.length = 4 := by
  have hinsular : (pried ⟨0, 0⟩).world.Insular ⟨0, 0⟩ 0 := by
    refine ⟨rfl, ?_, ?_, ?_⟩
    · intro inst hinst h e
      rw [List.mem_singleton.mp hinst]
      trivial
    · rintro inst ⟨⟩ g hg arity body hslot args
      rw [List.mem_singleton.mp hg] at hslot
      cases hslot
      exact ⟨_, rfl, _, rfl, _, rfl, _, rfl, trivial⟩
    · intro j inst hj hinst
      cases j with
      | zero => exact absurd rfl hj
      | succ j => cases hinst
  have h : (exec 9 (.run ⟨0, 0⟩) (pried ⟨0, 0⟩)).map
      (fun r => (r.1.succeeded, r.2.world.host.2.length)) = some (true, 4) := by
    decide +kernel
  obtain ⟨⟨r, s⟩, hs, h⟩ := Option.map_eq_some_iff.mp h
  simp only [Prod.mk.injEq] at h
  obtain ⟨hreply, hlength⟩ := h
  obtain rfl := Reply.eq_of_succeeded hreply
  obtain ⟨-, -, hagree⟩ := nested_run hinsular rfl 9
  rcases hagree.cases with ⟨hx, -⟩ | ⟨r, s₁, s', hx, hy, hmirrors⟩
  · rw [hs] at hx
    cases hx
  · rw [hs] at hx
    cases hx
    exact ⟨hinsular, s, s', hs, hy, hmirrors, hlength⟩

end Recorded

end Dialogue
