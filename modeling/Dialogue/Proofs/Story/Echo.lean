import Dialogue.Proofs.Story.Awaiting
import Dialogue.Proofs.Story.Binding
import Dialogue.Proofs.Story.Mirror
import Dialogue.Proofs.Story.Slice

/-!
A slice of a conversation that shares variables. The store hands the changes back to the machine
that has made them, one by one, when it has made them all.
-/

namespace Dialogue

open Trace (Accepted Assigning)
open Mirroring (Accept Steps)

variable {δ : Type}

/-- Host code that changes nothing but the host's own state. -/
def Reaction.IsModest (t : Reaction (Story δ)) : Prop :=
  t.Within (fun _ => False) fun s s' => ∃ x, s' = { s with host := x }

def Occurrence.OfRunning {ε : Type} (k : Nat) : Occurrence ε → Prop
  | queued j _ | diagnosed j _ | reported j _ => j = k
  | _ => False

namespace Recorded

variable {r r' r'' : Recorded (Story δ)} {k : Nat}

structure Minds (r r' : Recorded (Story δ)) : Prop where
  trace : r'.trace = r.trace
  world : ∃ x, r'.world = r.world.withOwn x

theorem Minds.refl (r : Recorded (Story δ)) : Minds r r := ⟨rfl, r.world.host.host, rfl⟩

theorem Minds.trans (h : Minds r r') (h' : Minds r' r'') : Minds r r'' := by
  obtain ⟨x, hx⟩ := h.world
  obtain ⟨y, hy⟩ := h'.world
  exact ⟨h'.trace.trans h.trace, y, by rw [hy, hx]; rfl⟩

theorem minds_perform {exec : Operation (Story δ) → Recorded (Story δ) →
      Option (Reply × Recorded (Story δ))} {y : HostResult} :
    ∀ (t : Reaction (Story δ)) (r : Recorded (Story δ)), t.IsModest →
      perform exec t r = some (y, r') → Minds r r'
  | .done _, _, _, hr => by
    cases hr
    exact .refl _
  | .panic _, _, _, hr => by
    cases hr
    exact .refl _
  | .update f next, r, ⟨hf, hnext⟩, hr => by
    obtain ⟨x, hx⟩ := hf r.world.host
    have hupdate : Minds r (r.update fun w => { w with host := f w.host }) := by
      refine ⟨rfl, x, ?_⟩
      simp only [update, hx]
      rfl
    exact hupdate.trans (minds_perform next _ hnext hr)
  | .inspect next, r, ht, hr => minds_perform (next r.world.host) r (ht r.world.host) hr
  | .call _ _, _, ht, _ => ht.1.elim

theorem ofRunning_additions (k : Nat) (m m' : HostMachine (Story δ)) :
    ∀ o ∈ additions k m m', o.OfRunning k := by
  intro o ho
  rcases List.mem_append.mp ho with ho | ho <;> obtain ⟨_, -, rfl⟩ := List.mem_map.mp ho <;> rfl

theorem runInstance_cases {fuel fuel' : Nat} {inst : Instance (Story δ)}
    {ended : Except LibraryError Bool} (hinst : r.world.instances[k]? = some inst)
    (hbusy : inst.busy = false)
    (hmodest : inst.machine.Bodies fun body => ∀ args, (body args).IsModest)
    (hrun : runInstance (perform (exec fuel)) fuel' k inst r = some (ended, r')) :
    ∃ m x, Machine.Progress inst.machine m ∧
      r' = ⟨(r.world.setInstance k { inst with machine := m }).withOwn x,
        r.trace ++ additions k inst.machine m⟩ := by
  unfold runInstance at hrun
  split at hrun
  · cases hrun
  · rename_i ending m r₁ hsteps
    obtain rfl : r₁.vacate k inst.machine (World.conclude m ending).2 = r' :=
      congrArg Prod.snd (Option.some.inj hrun)
    have hminds : Minds (r.occupy k inst) r₁ :=
      Machine.run_induction_of_bodies Minds.refl Minds.trans
        (fun hbody hcall => minds_perform _ _ (hbody _) hcall) hmodest hsteps
    obtain ⟨x, hx⟩ := hminds.world
    have hran := Machine.progress_run hsteps
    refine ⟨(World.conclude m ending).2, x, ?_, ?_⟩
    · cases ending with
      | paused | error => exact hran
      | panic => exact hran.trans (Machine.progress_halt m)
    · rw [← World.setInstance_ran hinst hbusy]
      simp only [vacate, update, note, hminds.trace, hx]
      rfl

theorem run_cases {fuel : Nat} {h : Handle} {inst : Instance (Story δ)} {a : Reply}
    (hfind : r.world.find h = .ok (k, inst)) (hidle : inst.status = .idle)
    (hmodest : inst.machine.Bodies fun body => ∀ args, (body args).IsModest)
    (hexec : exec (fuel + 1) (.run h) r = some (a, r')) :
    ∃ m x r₁ w os, Machine.Progress inst.machine m ∧ (∀ o ∈ os, o.OfRunning k) ∧
      flush (perform (exec fuel)) h k fuel
        ⟨(r.world.setInstance k { inst with machine := m }).withOwn x, r.trace ++ os⟩ = some r₁ ∧
      r₁.world.Logs w ∧
      r' = ⟨w, r₁.trace ++ [.returned (.run h) r.trace.length r.world a w]⟩ := by
  obtain ⟨-, hinst⟩ := World.find_eq_ok hfind
  have hbusy : inst.busy = false := congrArg Status.busy hidle
  have hdispatching : inst.dispatching = false := congrArg Status.dispatching hidle
  rw [exec, Option.map_eq_some_iff] at hexec
  obtain ⟨⟨b, r₂⟩, henact, hexec⟩ := hexec
  cases hexec
  have hdrive : drive (perform (exec fuel)) fuel "run" h (runInstance (perform (exec fuel)) fuel)
      r = some (a, r₂) := henact
  simp only [drive, hfind, hdispatching, hbusy, Bool.false_eq_true, if_false] at hdrive
  split at hdrive
  · cases hdrive
  · rename_i ended r₀ hrun
    obtain ⟨r₁, hflush, hanswer⟩ := Option.map_eq_some_iff.mp hdrive
    obtain rfl : (r₁.answerFlag ended).2 = r₂ := congrArg Prod.snd hanswer
    obtain ⟨m, x, hprogress, rfl⟩ := runInstance_cases hinst hbusy hmodest hrun
    exact ⟨m, x, r₁, _, _, hprogress, ofRunning_additions k _ _, hflush, World.logs_answer _ _, rfl⟩

end Recorded

/-- The conversation shares variables. The store agrees on them with the machine of the
conversation, which is in the instance `k`, and with all others that are told of them. -/
structure World.Shares (w : World (Story δ)) (i k : Nat) (c : Conversation δ)
    (inst : Instance (Story δ)) (store : VariableStore Handle) : Prop where
  conversation : w.host.conversations[i]? = some c
  route : w.host.route? c.handle = some i
  found : w.find c.handle = .ok (k, inst)
  callbacks : inst.callbacks = Story.dispatch
  modest : inst.machine.Bodies fun body => ∀ args, (body args).IsModest
  stored : w.host.store = some store
  bound : ∀ name ∈ c.boundNames,
    (store.get? name).isSome = true ∧ inst.machine.isSubscribed name = true ∧
      ∃ x ∈ store.watches, x.watcher = c.handle ∧ x.name = name
  agree : ∀ x ∈ store.watches, x.name ∈ c.boundNames → ∃ v m, store.get? x.name = some v ∧
    w.machine? x.watcher = some m ∧ m.Keeps store.domains x.name v

/-- What has come of the events of a slice, when `t` is on record of their delivery. -/
structure Echo (k : Nat) (names : List String) (store : VariableStore Handle) (es : List Event)
    (t : List (Occurrence (Story δ))) (w : World (Story δ)) : Prop where
  assigning : Assigning k es (∀ name ∈ names, store.domains.AdmitsBack (changesOf name es)) t
  once : ∀ name ∈ names, store.domains.Staged (changesOf name es) →
    (store.domains.AdmitsBack (changesOf name es) ↔ (changesOf name es).length ≤ 1)
  shared : ∃ store', w.host.store = some store' ∧ ∀ name ∈ names, ∃ v,
    store.get? name = some v ∧ (v :: changesOf name es).IsChain store.domains.Changes ∧
      store'.get? name = some ((changesOf name es).getLastD v) ∧
      ∀ x ∈ store.watches, x.name = name → ∃ m, w.machine? x.watcher = some m ∧
        m.value name = .ok ((changesOf name es).getLastD v)

namespace World.Shares

variable {w : World (Story δ)} {i k : Nat} {c : Conversation δ} {inst : Instance (Story δ)}
  {store : VariableStore Handle} {name : String}

theorem binds_iff (hw : w.Shares i k c inst store) :
    w.host.binds i name = true ↔ name ∈ c.boundNames := by
  rw [Story.binds, hw.conversation]
  simp [Conversation.isBound, Conversation.boundNames]

theorem watches (hw : w.Shares i k c inst store) : w.host.watches = store.watches := by
  rw [Story.watches, hw.stored]
  rfl

abbrev agreed (store : VariableStore Handle) (name : String) : Value := (store.get? name).getD .nil

theorem get?_eq (hw : w.Shares i k c inst store) (hname : name ∈ c.boundNames) :
    store.get? name = some (agreed store name) := by
  obtain ⟨v, hv⟩ := Option.isSome_iff_exists.mp (hw.bound name hname).1
  simp [agreed, hv]

theorem mirroring (hw : w.Shares i k c inst store) (hsettled : w.Settled fun _ => ()) :
    Mirroring w.host i store.domains (agreed store) (fun _ => agreed store) w where
  quiet := hsettled.rest.quiet
  discreet := hsettled.discreet
  ledger := rfl
  shared := by
    refine ⟨store, hw.stored, rfl, fun name hbound => ?_⟩
    exact hw.get?_eq (hw.binds_iff.mp hbound)
  kept x hx hbound := by
    obtain ⟨v, m, hv, hm, hkeeps⟩ := hw.agree x (hw.watches ▸ hx) (hw.binds_iff.mp hbound)
    exact ⟨m, hm, by simpa [agreed, hv] using hkeeps⟩

theorem keeps (hw : w.Shares i k c inst store) (hname : name ∈ c.boundNames) :
    inst.machine.Keeps store.domains name (agreed store name) := by
  obtain ⟨-, -, x, hx, hwatcher, rfl⟩ := hw.bound name hname
  obtain ⟨v, m, hv, hm, hkeeps⟩ := hw.agree x hx hname
  rw [hwatcher, World.machine?_of_find hw.found] at hm
  cases hm
  simpa [agreed, hv] using hkeeps

theorem ran (hw : w.Shares i k c inst store) (hsettled : w.Settled fun _ => ())
    {m : HostMachine (Story δ)} (hprogress : Machine.Progress inst.machine m) (x : δ) :
    Steps w.host i store.domains (agreed store) m.events ∧
      Mirroring w.host i store.domains (agreed store)
        (Function.update (fun _ => agreed store) c.handle (latest m.events (agreed store)))
        (((w.setInstance k { inst with machine := m }).withOwn x).setInstance k
          ({ inst with machine := m } : Instance (Story δ)).drained) := by
  obtain ⟨-, hinst⟩ := World.find_eq_ok hw.found
  have hidle := hsettled.rest.idle inst (List.mem_of_getElem? hinst)
  have hevents : inst.machine.events = [] := congrArg Status.events hidle
  have hdispatching : inst.dispatching = false := congrArg Status.dispatching hidle
  have hran {name : String} (hname : name ∈ c.boundNames) :=
    (hw.keeps hname).progress (hw.bound name hname).2.1 hevents hprogress
  refine ⟨fun name hbound => (hran (hw.binds_iff.mp hbound)).1, ?_⟩
  have hworld : ((w.setInstance k { inst with machine := m }).withOwn x).setInstance k
      ({ inst with machine := m } : Instance (Story δ)).drained =
      (w.modifyMachine c.handle fun _ => World.cleared m).withOwn x := by
    rw [World.modifyMachine_of_find hw.found]
    simp [World.withOwn, World.setInstance, Instance.drained, World.cleared, hdispatching]
  have hreplaced : Mirroring w.host i store.domains (agreed store)
      (Function.update (fun _ => agreed store) c.handle (latest m.events (agreed store)))
      (w.modifyMachine c.handle fun _ => World.cleared m) := by
    apply (hw.mirroring hsettled).replace
    · simp [World.machine?_of_find hw.found]
    · rfl
    · rfl
    · intro y _ hbound _
      rw [Function.update_self]
      exact (hran (hw.binds_iff.mp hbound)).2.congr rfl rfl rfl
    · intro y _ hne
      rw [Function.update_of_ne hne]
  rw [hworld]
  exact hreplaced.restage rfl rfl

theorem accept_iff (hw : w.Shares i k c inst store) {es : List Event}
    (hsteps : Steps w.host i store.domains (agreed store) es) :
    Accept w.host i store.domains
        (Function.update (fun _ => agreed store) c.handle (latest es (agreed store))) es ↔
      ∀ name ∈ c.boundNames, store.domains.AdmitsBack (changesOf name es) := by
  have hchain {name : String} (hname : name ∈ c.boundNames) :
      (agreed store name :: changesOf name es).IsChain store.domains.Admits :=
    (hsteps name (hw.binds_iff.mpr hname)).imp fun _ _ hchange => hchange.1
  constructor
  · intro haccept name hname
    obtain ⟨-, -, x, hx, hwatcher, rfl⟩ := hw.bound name hname
    have hown := haccept x (hw.watches.symm ▸ hx) (hw.binds_iff.mpr hname)
    rw [hwatcher, Function.update_self] at hown
    exact (EnumDomains.isChain_getLastD_iff (hchain hname)).mp hown
  · intro hback x _ hbound
    have hname := hw.binds_iff.mp hbound
    -- The machine itself has gone on to the last change, all others are still where it began.
    by_cases hwatcher : x.watcher = c.handle
    · rw [hwatcher, Function.update_self]
      exact (EnumDomains.isChain_getLastD_iff (hchain hname)).mpr (hback x.name hname)
    · rw [Function.update_of_ne hwatcher]
      exact hchain hname

theorem run (hw : w.Shares i k c inst store) (hsettled : w.Settled fun _ => ()) {fuel : Nat}
    {a : Reply} {r : Recorded (Story δ)}
    (hexec : Recorded.exec fuel (.run c.handle) ⟨w, []⟩ = some (a, r)) :
    ∃ es pre t, r.trace = pre ++ t ++ [.returned (.run c.handle) 0 w a r.world] ∧
      (∀ o ∈ pre, o.OfRunning k) ∧ Echo k c.boundNames store es t r.world := by
  rcases fuel with _ | fuel
  · cases hexec
  obtain ⟨-, hinst⟩ := World.find_eq_ok hw.found
  obtain ⟨hk, -⟩ := List.getElem?_eq_some_iff.mp hinst
  have hidle := hsettled.rest.idle inst (List.mem_of_getElem? hinst)
  obtain ⟨m, x, r₁, w', os, hprogress, hrunning, hflush, hlogs, rfl⟩ :=
    Recorded.run_cases hw.found hidle hw.modest hexec
  obtain ⟨hsteps, hmirroring⟩ := hw.ran hsettled hprogress x
  let ran : Instance (Story δ) := { inst with machine := m }
  have hran : ((w.setInstance k ran).withOwn x).instances[k]? = some ran := by
    simp [World.withOwn, World.setInstance, hk]
  have hbusy : ran.busy = false := congrArg Status.busy hidle
  have hdispatching : ran.dispatching = false := congrArg Status.dispatching hidle
  obtain ⟨t, htrace, hassigning, hdelivered⟩ :=
    Mirroring.flush hran hbusy hdispatching hw.callbacks hmirroring hw.route hsteps hflush
  have hends := hdelivered.logs hlogs
  refine ⟨m.events, os ++ m.diagnostics.map (.reported k), t, ?_, ?_,
    hassigning.congr (hw.accept_iff hsteps), fun name hname => ?_, ?_⟩
  · simp [htrace, ran]
  · refine List.forall_mem_append.mpr ⟨hrunning, ?_⟩
    simp [Occurrence.OfRunning]
  · exact EnumDomains.admitsBack_iff (hsteps name (hw.binds_iff.mpr hname))
  · obtain ⟨store', hstore', -, hget⟩ := hends.shared
    refine ⟨store', hstore', fun name hname => ?_⟩
    have hbound := hw.binds_iff.mpr hname
    have hchain := hsteps name hbound
    refine ⟨agreed store name, hw.get?_eq hname, hchain, hget name hbound, ?_⟩
    rintro y hy rfl
    obtain ⟨m', hm', hkeeps⟩ := hends.kept y (hw.watches.symm ▸ hy) hbound
    refine ⟨m', hm', hkeeps.value.trans (congrArg Except.ok ?_)⟩
    apply EnumDomains.foldl_settle (hchain.imp fun _ _ hchange => hchange.1)
    by_cases hwatcher : y.watcher = c.handle
    · rw [hwatcher, Function.update_self]
      exact .inr rfl
    · rw [Function.update_of_ne hwatcher]
      exact .inl rfl

theorem clearPending (hw : w.Shares i k c inst store) :
    World.Shares { w with host := w.host.clearPending i } i k { c with pending := none } inst
      store where
  conversation := by simp [Story.clearPending, Story.modify, hw.conversation]
  route := hw.route
  found := hw.found
  callbacks := hw.callbacks
  modest := hw.modest
  stored := hw.stored
  bound := hw.bound
  agree := hw.agree

end World.Shares

theorem World.Scene.shares {w : World (Story δ)} {i k : Nat} {c : Conversation δ}
    {inst : Instance (Story δ)} {store : VariableStore Handle} (hs : Scene c.handle i k c inst w)
    (hmodest : inst.machine.Bodies fun body => ∀ args, (body args).IsModest)
    (hstore : w.host.store = some store)
    (hwatches : store.watches.map (fun x => (x.watcher, x.name)) =
      c.boundNames.map (c.handle, ·))
    (hkeeps : ∀ name ∈ c.boundNames, inst.machine.isSubscribed name = true ∧
      ∃ v, store.get? name = some v ∧ inst.machine.Keeps store.domains name v) :
    w.Shares i k c inst store where
  conversation := hs.conversation
  route := hs.route
  found := World.find_eq_of_get? hs.alive hs.found
  callbacks := hs.callbacks
  modest := hmodest
  stored := hstore
  bound name hname := by
    obtain ⟨hsubscribed, v, hv, -⟩ := hkeeps name hname
    have hmem : (c.handle, name) ∈ store.watches.map fun x => (x.watcher, x.name) := by
      rw [hwatches]
      exact List.mem_map_of_mem hname
    obtain ⟨x, hx, heq⟩ := List.mem_map.mp hmem
    exact ⟨by simp [hv], hsubscribed, x, hx, congrArg (·.1) heq, congrArg (·.2) heq⟩
  agree x hx hname := by
    obtain ⟨-, v, hv, hkeeps⟩ := hkeeps x.name hname
    have hmem : (x.watcher, x.name) ∈ c.boundNames.map (c.handle, ·) := by
      rw [← hwatches]
      exact List.mem_map_of_mem hx
    obtain ⟨name, -, heq⟩ := List.mem_map.mp hmem
    have hwatcher : c.handle = x.watcher := congrArg (·.1) heq
    rw [← hwatcher]
    exact ⟨v, _, hv, World.machine?_of_find (World.find_eq_of_get? hs.alive hs.found), hkeeps⟩

namespace Telling

open World

/-- A tick of a conversation that shares variables, whose script and host functions make any changes
that the machine accepts. Of each variable the store and all machines that are told of it end with
the last change. On the way there the machine is told of the others again, one by one, and accepts
them all if and only if it may go back from the last of them to the first: among the stages of a
sequential domain, if and only if it has made no more than one change. -/
theorem echo_of_tick {log : Severity → String → δ → δ} {w w' : World (Story δ)}
    {i k fuel : Nat} {c : Conversation δ} {inst : Instance (Story δ)} {store : VariableStore Handle}
    {r : Except StoryError Slice} (hw : Story.Reachable log w) (hshares : w.Shares i k c inst store)
    (hphase : c.phase ≠ .destroyed) (hrunning : inst.machine.state = .running)
    (hr : (tick fuel i).Yields w r w') :
    ∃ a w₀ w₁ es pre t, Recorded.exec fuel (.run c.handle) ⟨w₀, []⟩ =
        some (a, ⟨w₁, pre ++ t ++ [.returned (.run c.handle) 0 w₀ a w₁]⟩) ∧
      w₀ = { w with host := w.host.clearPending i } ∧ Ran fuel i c.handle a w₁ r w' ∧
      (∀ o ∈ pre, o.OfRunning k) ∧ Echo k c.boundNames store es t w₁ := by
  have hm := World.machine?_of_find hshares.found
  cases tick_cases hw.atRest hshares.conversation hphase hr with
  | ran _ _ hexec hran =>
    have hsettled : World.Settled (fun _ => ()) { w with host := w.host.clearPending i } :=
      (hw.update (·.clearPending i)).settled fun _ _ _ => rfl
    have herase := Recorded.erase_exec fuel (.run c.handle)
      ⟨{ w with host := w.host.clearPending i }, []⟩
    rw [hexec] at herase
    obtain ⟨⟨a, r₁⟩, hrecorded, hsame⟩ := Option.map_eq_some_iff.mp herase
    cases hsame
    obtain ⟨es, pre, t, htrace, hpre, hecho⟩ := hshares.clearPending.run hsettled hrecorded
    exact ⟨a, _, r₁.world, es, pre, t, by rw [hrecorded, ← htrace], rfl, hran, hpre, hecho⟩
  | refused hm' hstate | ended hm' hstate | waiting hm' hstate =>
    cases hm.symm.trans hm'
    simp [hrunning] at hstate
  | lost hm' => cases hm.symm.trans hm'

theorem eq_enum_of_beq {v : Value} {e : EnumValue} (h : (v == .enum e) = true) : v = .enum e := by
  cases v with
  | enum d => exact congrArg Value.enum (eq_of_beq (h : (d == e) = true))
  | nil | bool | number | string | list | set | map => cases h

def acts : List Builder.Call :=
  [.externVariable "act", .bough "main", .set 0 (.enum ⟨"Act", "middle"⟩),
    .set 0 (.enum ⟨"Act", "end"⟩), .line "mara" "Bye." [], .stop]

def playhouse : World (Story Unit) :=
  .create (Story.logging fun _ _ x => x) { Story.create () with
    store := some ((VariableStore.declareEnum {} ⟨"Act", true, ["intro", "middle", "end"]⟩).insert
      "act" (.enum ⟨"Act", "intro"⟩)) }

def raise (data : CompiledData) : Telling Unit Unit := do
  (Act.create .empty data {}).telling 3
  (Act.start 0).telling 3

theorem chronicle_raise {data : CompiledData} {w : World (Story Unit)} (h : Handle)
    (hraise : (raise data).Yields playhouse (.ok ()) w) : ∃ heard, Chronicle h heard w := by
  have hw₀ : Chronicle h (fun _ => []) playhouse := .create (fun _ _ s => .refl h s) rfl rfl
  obtain ⟨_, w₁, hcreate, hstart⟩ := yields_bind_ok.mp hraise
  have hdefers : (Act.create .empty data {} : Act Unit).Defers h := by
    intro name arity body hmem
    cases hmem
  have hroom : (Arena.empty : Arena Nat).HasRoom := show 0 < UInt32.size by decide
  have hw₁ := hw₀.act hdefers hroom hcreate
  exact ⟨_, hw₁.act (by trivial) (by trivial) hstart⟩

/-- The stages are announced together when the script has reached the last of them. -/
theorem echo_acts : ∃ (w w' : World (Story Unit)) (c : Conversation Unit) (k : Nat)
    (inst : Instance (Story Unit)) (store : VariableStore Handle) (r : Except StoryError Slice),
    Story.Reachable (fun _ _ x => x) w ∧ w.Shares 0 k c inst store ∧ c.phase ≠ .destroyed ∧
      inst.machine.state = .running ∧ (tick 9 0).Yields w r w' ∧
      ∃ (a : Reply) (w₀ w₁ : World (Story Unit)) (es : List Event)
        (pre t : List (Occurrence (Story Unit))), Recorded.exec 9 (.run c.handle) ⟨w₀, []⟩ =
          some (a, ⟨w₁, pre ++ t ++ [.returned (.run c.handle) 0 w₀ a w₁]⟩) ∧
        Echo k c.boundNames store es t w₁ ∧ ¬Accepted t := by
  have h : (do
      let bytes ← (Builder.run .offset acts).build.toOption
      let data ← (CompiledData.ofBytes bytes).toOption
      let x ← (raise data).run.run playhouse
      let _ ← (tick 9 0).run.run x.2
      let c ← x.2.host.conversations[0]?
      let f ← (x.2.find c.handle).toOption
      let store ← x.2.host.store
      let u ← store.get? "act"
      let v ← (f.2.machine.value "act").toOption
      let g ← f.2.machine.global? "act"
      let z ← Recorded.exec 9 (.run c.handle)
        ⟨{ x.2 with host := x.2.host.clearPending 0 }, []⟩
      return [decide (x.1 = .ok ()), decide (c.phase ≠ .destroyed),
        decide (f.2.machine.state = .running), decide (c.boundNames = ["act"]),
        decide (store.watches.map (fun x => (x.watcher, x.name)) = [(c.handle, "act")]),
        decide (f.2.machine.domains.entries = store.domains.entries),
        f.2.machine.globals.all (!·.slot.isFunction), g.observed, g.symbol.isExtern,
        u == .enum ⟨"Act", "intro"⟩, v == .enum ⟨"Act", "intro"⟩, z.2.trace.any (·.isRefused)]) =
      some (List.replicate 12 true) := by
    decide +kernel
  obtain ⟨bytes, -, h⟩ := Option.bind_eq_some_iff.mp h
  obtain ⟨data, -, h⟩ := Option.bind_eq_some_iff.mp h
  obtain ⟨⟨r₀, w⟩, hraise, h⟩ := Option.bind_eq_some_iff.mp h
  obtain ⟨⟨r, w'⟩, htick, h⟩ := Option.bind_eq_some_iff.mp h
  obtain ⟨c, hc, h⟩ := Option.bind_eq_some_iff.mp h
  obtain ⟨⟨k, inst⟩, hfind, h⟩ := Option.bind_eq_some_iff.mp h
  obtain ⟨store, hstore, h⟩ := Option.bind_eq_some_iff.mp h
  obtain ⟨u, hu, h⟩ := Option.bind_eq_some_iff.mp h
  obtain ⟨v, hv, h⟩ := Option.bind_eq_some_iff.mp h
  obtain ⟨g, hg, h⟩ := Option.bind_eq_some_iff.mp h
  obtain ⟨⟨a, r₁⟩, hrecorded, h⟩ := Option.bind_eq_some_iff.mp h
  simp only [pure, Option.some.injEq, List.replicate, List.cons.injEq, decide_eq_true_eq,
    and_true] at h
  obtain ⟨rfl, hphase, hrunning, hnames, hwatches, hdomains, hmodest, hobserved, hextern, hu', hv',
    hrefused⟩ := h
  rw [eq_enum_of_beq hu'] at hu
  rw [eq_enum_of_beq hv'] at hv
  obtain ⟨_, w₁, hcreate, hstart⟩ := yields_bind_ok.mp hraise
  have hw₁ := Story.reachable_act 3 _ _ _ _ (.create _) hcreate
  have hw : Story.Reachable (fun _ _ x => x) w := Story.reachable_act 3 _ _ _ _ hw₁ hstart
  obtain ⟨heard, hchronicle⟩ := chronicle_raise c.handle hraise
  obtain ⟨k', inst', hs, -⟩ := hchronicle.inAccord.scene 0 c hc rfl hphase
  have hfound := Except.toOption_eq_some_iff.mp hfind
  cases hfound.symm.trans (World.find_eq_of_get? hs.alive hs.found)
  have hkeeps : inst.machine.Keeps store.domains "act" (.enum ⟨"Act", "intro"⟩) := by
    refine ⟨machine?_isParsed hw.atRest (World.machine?_of_find hfound), fun x y => ?_,
      ⟨g, hg, hextern⟩, Except.toOption_eq_some_iff.mp hv⟩
    rw [show inst.machine.domains = store.domains from (Table.mk.injEq ..).mpr hdomains]
  have hshares : w.Shares 0 k c inst store := by
    refine hs.shares (fun g hg arity body hslot => ?_) hstore (by simpa [hnames] using hwatches) ?_
    · simpa [hslot, Slot.isFunction] using List.all_eq_true.mp hmodest g hg
    · rw [hnames, List.forall_mem_singleton]
      exact ⟨by simp [Machine.isSubscribed, hg, hobserved], _, hu, hkeeps⟩
  obtain ⟨a, w₀, w₁, es, pre, t, hexec, rfl, -, hpre, hecho⟩ :=
    echo_of_tick hw hshares hphase hrunning htick
  refine ⟨w, w', c, k, inst, store, r, hw, hshares, hphase, hrunning, htick, a, _, w₁, es, pre, t,
    hexec, hecho, fun haccepted => ?_⟩
  cases hrecorded.symm.trans hexec
  obtain ⟨o, ho, hrefused⟩ := List.any_eq_true.mp hrefused
  obtain ⟨_, _, _, _, _, _, rfl⟩ := Occurrence.isRefused_iff.mp hrefused
  rw [List.mem_append, List.mem_append, List.mem_singleton] at ho
  rcases ho with (ho | ho) | ho
  · exact hpre _ ho
  · cases (haccepted _ ho).1
  · cases ho

end Telling

end Dialogue
