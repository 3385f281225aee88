import Dialogue.Proofs.Host.Assignment
import Dialogue.Proofs.Machine.Admission
import Dialogue.Proofs.Story.Ledger

/-!
The delivery of changes to the variables that a conversation shares. Each change goes to the store
and from there to all machines that are told of it, that of the conversation included, which has
gone on to the last change meanwhile.
-/

namespace Dialogue

open Trace (Assigning)

variable {δ : Type}

def Story.binds (s : Story δ) (i : Nat) (name : String) : Bool :=
  (s.conversations[i]?).any (·.isBound name)

def latest (es : List Event) (values : String → Value) (name : String) : Value :=
  (changesOf name es).getLastD (values name)

def EnumDomains.heed (ds : EnumDomains) (es : List Event) (held : Handle → String → Value)
    (h : Handle) (name : String) : Value :=
  (changesOf name es).foldl ds.settle (held h name)

theorem latest_append (es es' : List Event) (values : String → Value) :
    latest (es ++ es') values = latest es' (latest es values) := by
  funext name
  simp only [latest, changesOf_append, getLastD_append]

theorem EnumDomains.heed_append (ds : EnumDomains) (es es' : List Event)
    (held : Handle → String → Value) :
    ds.heed (es ++ es') held = ds.heed es' (ds.heed es held) := by
  funext h name
  simp only [heed, changesOf_append, List.foldl_append]

namespace Story

variable {s t : Story δ} {i : Nat} {h : Handle} {name : String}

theorem binds_of_ledger (hledger : t.ledger = s.ledger) (i : Nat) (name : String) :
    t.binds i name = s.binds i name := by
  have hentries : t.conversations.map Conversation.entry = s.conversations.map Conversation.entry :=
    congrArg (·.2.1) hledger
  have hentry := congrArg (·[i]?) hentries
  simp only [List.getElem?_map] at hentry
  have hbinds (s : Story δ) : s.binds i name =
      ((s.conversations[i]?).map Conversation.entry).any (·.2.2.any (·.1 == name)) := by
    rw [Story.binds, Option.any_map]
    rfl
  rw [hbinds, hbinds, hentry]

theorem route?_of_ledger (hledger : t.ledger = s.ledger) (h : Handle) :
    t.route? h = s.route? h := by
  have hroutes : t.routes = s.routes := congrArg (·.1) hledger
  rw [route?, hroutes, route?]

theorem watches_of_ledger (hledger : t.ledger = s.ledger) : t.watches = s.watches := by
  have h := congrArg (fun l => (l.2.2.map (·.1)).getD []) hledger
  simp only [ledger, Option.map_map] at h
  exact h

theorem store_hear (s : Story δ) (i : Nat) (e : Event) : (s.hear i e).store = s.store := by
  have hstop (s : Story δ) : (s.stopSpeaker i).store = s.store := by
    unfold stopSpeaker
    split <;> rfl
  cases e with
  | line l => exact hstop s
  | choices cs => rfl
  | changed name v => rfl

end Story

/-- While changes of the conversation are delivered: the store has `values` of the variables that
the conversation is bound to, and the machines that are told of them hold `held`. -/
structure Mirroring (s : Story δ) (i : Nat) (ds : EnumDomains) (values : String → Value)
    (held : Handle → String → Value) (w : World (Story δ)) : Prop where
  quiet : w.Quiet
  discreet : Discreet (fun _ => ()) w.channel.handler
  ledger : w.host.ledger = s.ledger
  shared : ∃ store, w.host.store = some store ∧ store.domains = ds ∧
    ∀ name, s.binds i name = true → store.get? name = some (values name)
  kept : ∀ x ∈ s.watches, s.binds i x.name = true →
    ∃ m, w.machine? x.watcher = some m ∧ m.Keeps ds x.name (held x.watcher x.name)

namespace Mirroring

variable {s : Story δ} {i k : Nat} {ds : EnumDomains} {values values' : String → Value}
  {held held' : Handle → String → Value} {w w' : World (Story δ)} {h : Handle} {name : String}
  {v : Value} {m : HostMachine (Story δ)}

theorem congr (hw : Mirroring s i ds values held w)
    (hvalues : ∀ name, s.binds i name = true → values' name = values name)
    (hheld : ∀ x ∈ s.watches, s.binds i x.name = true →
      held' x.watcher x.name = held x.watcher x.name) : Mirroring s i ds values' held' w := by
  refine ⟨hw.quiet, hw.discreet, hw.ledger, ?_, fun x hx hbound => ?_⟩
  · obtain ⟨store, hstore, hdomains, hget⟩ := hw.shared
    refine ⟨store, hstore, hdomains, fun name hbound => ?_⟩
    rw [hvalues name hbound, hget name hbound]
  · rw [hheld x hx hbound]
    exact hw.kept x hx hbound

theorem restage (hw : Mirroring s i ds values held w) {t : Story δ}
    (hledger : t.ledger = w.host.ledger) (hstore : t.store = w.host.store) :
    Mirroring s i ds values held { w with host := t } where
  quiet := hw.quiet.congr rfl rfl
  discreet := hw.discreet
  ledger := hledger.trans hw.ledger
  shared := by
    simp only [hstore]
    exact hw.shared
  kept := hw.kept

theorem logs (hw : Mirroring s i ds values held w) (hlogs : w.Logs w') :
    Mirroring s i ds values held w' := by
  obtain ⟨x, -, rfl⟩ := World.same_of_logs hw.discreet hlogs
  exact hw.restage rfl rfl

theorem replace (hw : Mirroring s i ds values held w) (hm : (w.machine? h).isSome = true)
    (hevents : m.events = []) (hdiagnostics : m.diagnostics = [])
    (hkeeps : ∀ x ∈ s.watches, s.binds i x.name = true → x.watcher = h →
      m.Keeps ds x.name (held' h x.name))
    (hothers : ∀ x ∈ s.watches, x.watcher ≠ h → held' x.watcher x.name = held x.watcher x.name) :
    Mirroring s i ds values held' (w.modifyMachine h fun _ => m) := by
  have hhost := World.host_modifyMachine w h fun _ => m
  refine ⟨hw.quiet.modifyMachine h hevents hdiagnostics, ?_, hhost ▸ hw.ledger, ?_, ?_⟩
  · rw [World.channel_modifyMachine]
    exact hw.discreet
  · rw [hhost]
    exact hw.shared
  · intro x hx hbound
    rw [World.machine?_modifyMachine hw.quiet.sound]
    by_cases hsame : x.watcher = h
    · subst hsame
      obtain ⟨m₀, hm₀⟩ := Option.isSome_iff_exists.mp hm
      rw [if_pos rfl, hm₀]
      exact ⟨m, rfl, hkeeps x hx hbound rfl⟩
    · rw [if_neg hsame, hothers x hx hsame]
      exact hw.kept x hx hbound

theorem insert (hw : Mirroring s i ds values held w) {store : VariableStore Handle}
    (hstore : w.host.store = some store) (name : String) (v : Value) :
    Mirroring s i ds (Function.update values name v) held
      { w with host := { w.host with store := some (store.insert name v) } } where
  quiet := hw.quiet.congr rfl rfl
  discreet := hw.discreet
  ledger := by
    rw [← hw.ledger]
    simp [Story.ledger, hstore, VariableStore.insert]
  shared := by
    obtain ⟨store', hstore', hdomains, hget⟩ := hw.shared
    cases hstore.symm.trans hstore'
    refine ⟨_, rfl, hdomains, fun n hbound => ?_⟩
    by_cases hn : n = name
    · subst hn
      rw [Function.update_self]
      exact Table.get?_insert_self ..
    · rw [Function.update_of_ne hn, ← hget n hbound]
      exact Table.get?_insert_of_ne _ hn _
  kept := hw.kept

def told (ds : EnumDomains) (hs : List Handle) (name : String) (v : Value)
    (held : Handle → String → Value) (h : Handle) (n : String) : Value :=
  if h ∈ hs ∧ n = name then ds.settle (held h n) v else held h n

theorem assign {r : Reply} (hw : Mirroring s i ds values held w)
    (hbound : s.binds i name = true) (hwatch : ∃ x ∈ s.watches, x.watcher = h ∧ x.name = name)
    (hm : w.machine? h = some m) (hassigns : World.Assigns h name v m w r w') :
    Mirroring s i ds values (told ds [h] name v held) w' ∧
      (r = .flag true ∧ w'.host = w.host ↔ ds.Admits (held h name) v) := by
  obtain ⟨x, hx, rfl, rfl⟩ := hwatch
  obtain ⟨m₀, hm₀, hkeeps⟩ := hw.kept x hx hbound
  cases hm.symm.trans hm₀
  cases hassigns with
  | refused hset =>
    have hrefused : ¬ds.Admits (held x.watcher x.name) v := by
      rw [← hkeeps.exists_setExtern_iff, hset]
      exact nofun
    refine ⟨(hw.logs (World.logs_report ..)).congr (fun _ _ => rfl) fun y _ _ => ?_,
      by simp [hrefused]⟩
    by_cases hy : y.watcher = x.watcher ∧ y.name = x.name
    · simp [told, hy.1, hy.2, EnumDomains.settle, hrefused]
    · rw [told, if_neg (by simpa using hy)]
  | accepted hset =>
    have hadmits : ds.Admits (held x.watcher x.name) v := hkeeps.exists_setExtern_iff.mp ⟨_, hset⟩
    obtain ⟨_, _, _, -, -, hevents, hdiagnostics⟩ := hw.quiet.exists_find hm
    have hkept := Machine.diagnostics_setExtern hset
    refine ⟨hw.replace (by simp [hm]) ((Machine.adjusts_setExtern hset).events.trans hevents)
      (hkept.trans hdiagnostics) (fun y hy hboundy hsame => ?_) fun y _ hne => ?_, ?_⟩
    · obtain ⟨m₁, hm₁, hkeepsy⟩ := hw.kept y hy hboundy
      cases hm.symm.trans (hsame ▸ hm₁)
      have hnow := hkeepsy.setExtern hset
      rw [hsame] at hnow
      by_cases hname : y.name = x.name
      · rw [if_pos hname] at hnow
        rwa [told, if_pos (by simp [hname]), hname, EnumDomains.settle_of_admits hadmits, ← hname]
      · rw [if_neg hname] at hnow
        rwa [told, if_neg (by simp [hname])]
    · rw [told, if_neg (by simp [hne])]
    · simp [hadmits, World.host_modifyMachine]

theorem told_cons (ds : EnumDomains) (h : Handle) (hs : List Handle) (name : String) (v : Value)
    (held : Handle → String → Value) :
    told ds hs name v (told ds [h] name v held) = told ds (h :: hs) name v held := by
  funext h' n
  simp only [told, List.mem_cons]
  by_cases hn : n = name
  · by_cases hfirst : h' = h <;> by_cases hlater : h' ∈ hs <;>
      simp [hn, hfirst, hlater, EnumDomains.settle_settle]
  · simp [hn]

theorem tell {fuel : Nat} {hs : List Handle} {last : Reaction (Story δ)} {y : HostResult}
    {r r' : Recorded (Story δ)} (hw : Mirroring s i ds values held r.world)
    (hbound : s.binds i name = true)
    (hwatches : ∀ h ∈ hs, ∃ x ∈ s.watches, x.watcher = h ∧ x.name = name)
    (hperform : Recorded.perform (Recorded.exec fuel) (Story.tell name v hs last) r =
      some (y, r')) :
    ∃ r₁ os, Recorded.perform (Recorded.exec fuel) last r₁ = some (y, r') ∧
      r₁.trace = r.trace ++ os ∧ Assigning k [] (∀ h ∈ hs, ds.Admits (held h name) v) os ∧
      Mirroring s i ds values (told ds hs name v held) r₁.world := by
  induction hs generalizing r held with
  | nil =>
    refine ⟨r, [], hperform, by simp, (Trace.assigning_nil k).congr (by simp), ?_⟩
    exact hw.congr (fun _ _ => rfl) fun x _ _ => by simp [told]
  | cons h hs ih =>
    rw [Story.tell, List.map_cons, Reaction.sequence, List.foldr_cons, Recorded.perform] at hperform
    obtain ⟨hwatch, hlater⟩ := List.forall_mem_cons.mp hwatches
    split at hperform
    · rename_i a r₁ hexec
      obtain ⟨x, hx, rfl, rfl⟩ := id hwatch
      obtain ⟨m, hm, -⟩ := hw.kept x hx hbound
      obtain ⟨w₁, hassigns, rfl⟩ := Recorded.exec_setExtern hw.quiet hm hexec
      obtain ⟨hw₁, haccepted⟩ := hw.assign hbound hwatch hm hassigns
      obtain ⟨r₂, os, hlast, htrace, hassigning, hw₂⟩ := ih hw₁ hlater hperform
      have hreturned := Trace.assigning_returned k x.watcher x.name v r.trace.length r.world w₁ a
      have hboth := (hreturned.congr haccepted).append hassigning
      refine ⟨r₂, _ :: os, hlast, ?_, hboth.congr ?_, told_cons .. ▸ hw₂⟩
      · rw [htrace, List.append_assoc]
        rfl
      · rw [List.forall_mem_cons]
        refine and_congr_right fun hadmits => forall₂_congr fun h' _ => ?_
        -- A machine in the list twice accepts what it has accepted.
        by_cases hsame : h' = x.watcher
        · subst hsame
          simp [told, EnumDomains.settle_of_admits hadmits, hadmits, hadmits.self]
        · simp [told, hsame]
    · cases hperform

def Steps (s : Story δ) (i : Nat) (ds : EnumDomains) (values : String → Value) (es : List Event) :
    Prop :=
  ∀ name, s.binds i name = true →
    (values name :: changesOf name es).IsChain ds.Changes

def Accept (s : Story δ) (i : Nat) (ds : EnumDomains) (held : Handle → String → Value)
    (es : List Event) : Prop :=
  ∀ x ∈ s.watches, s.binds i x.name = true →
    (held x.watcher x.name :: changesOf x.name es).IsChain ds.Admits

theorem steps_append {es es' : List Event} : Steps s i ds values (es ++ es') ↔
    Steps s i ds values es ∧ Steps s i ds (latest es values) es' := by
  simp only [Steps, changesOf_append, isChain_append_iff, imp_and, forall_and]
  rfl

theorem accept_append {es es' : List Event} : Accept s i ds held (es ++ es') ↔
    Accept s i ds held es ∧ Accept s i ds (ds.heed es held) es' := by
  simp only [Accept, changesOf_append, isChain_append_iff, ← forall_and]
  refine forall₂_congr fun x _ => forall_congr' fun _ => and_congr_right fun hchain => ?_
  rw [EnumDomains.heed, EnumDomains.foldl_settle hchain (.inl rfl)]

theorem perform_last {fuel : Nat} {e : Event} {y : HostResult} {r r' : Recorded (Story δ)}
    (hw : Mirroring s i ds values held r.world)
    (hperform : Recorded.perform (Recorded.exec fuel) (.update (·.hear i e) (.done .nil)) r =
      some (y, r')) :
    y = .value .nil ∧ r'.trace = r.trace ∧ Mirroring s i ds values held r'.world := by
  cases hperform
  exact ⟨rfl, rfl, hw.restage (Story.ledger_hear ..) (Story.store_hear ..)⟩

theorem share_eq (hw : Mirroring s i ds values held w) (hbound : s.binds i name = true)
    (hadmits : ds.Admits (values name) v) (hfresh : (values name == v) = false) :
    ∃ store, w.host.store = some store ∧ w.host.share name v =
      .ok (some (store.insert name v, (s.watches.filter (·.name == name)).map (·.watcher))) := by
  obtain ⟨store, hstore, rfl, hget⟩ := hw.shared
  have hwatches : store.watches = s.watches := by
    rw [← Story.watches_of_ledger hw.ledger, Story.watches, hstore]
    rfl
  have hcheck : store.domains.checkAssignment (values name) v = .ok () := hadmits
  have hset : store.set name v =
      .ok (some (store.insert name v, s.watches.filter (·.name == name))) := by
    rw [VariableStore.set, hget name hbound, hwatches]
    simp [hcheck, hfresh, bind, Except.bind, pure, Except.pure]
  refine ⟨store, hstore, ?_⟩
  simp only [Story.share, hstore, hset]
  rfl

theorem accept_single : Accept s i ds held [.changed name v] ↔ s.binds i name = true →
    ∀ h ∈ (s.watches.filter (·.name == name)).map (·.watcher), ds.Admits (held h name) v := by
  simp only [Accept, changesOf_changed, List.forall_mem_map, List.mem_filter, beq_iff_eq]
  constructor
  · rintro haccept hbound x ⟨hx, rfl⟩
    simpa using haccept x hx hbound
  · intro haccept x hx hbound
    by_cases hname : name = x.name
    · subst hname
      simpa using haccept hbound x ⟨hx, rfl⟩
    · simp [hname]

def Mirrors (s : Story δ) (i k : Nat) (ds : EnumDomains) (values : String → Value)
    (held : Handle → String → Value) (es delivered : List Event) (r r' : Recorded (Story δ)) :
    Prop :=
  ∃ os, r'.trace = r.trace ++ os ∧ Assigning k delivered (Accept s i ds held es) os ∧
    Mirroring s i ds (latest es values) (ds.heed es held) r'.world

theorem hear {fuel : Nat} {e : Event} {y : HostResult} {r r' : Recorded (Story δ)}
    (hw : Mirroring s i ds values held r.world)
    (hnone : ∀ name, s.binds i name = true → changesOf name [e] = [])
    (hperform : Recorded.perform (Recorded.exec fuel) (.update (·.hear i e) (.done .nil)) r =
      some (y, r')) : y = .value .nil ∧ Mirrors s i k ds values held [e] [] r r' := by
  obtain ⟨rfl, htrace, hw'⟩ := hw.perform_last hperform
  refine ⟨rfl, [], by simpa using htrace, (Trace.assigning_nil k).congr ?_, hw'.congr ?_ ?_⟩
  · simp +contextual [Accept, hnone]
  · intro name hbound
    simp [latest, hnone name hbound]
  · intro x _ hbound
    simp [EnumDomains.heed, hnone x.name hbound]

theorem told_watching {x : Watch Handle} (hx : x ∈ s.watches) (name : String) (v : Value) :
    told ds ((s.watches.filter (·.name == name)).map (·.watcher)) name v held x.watcher x.name =
      ds.heed [.changed name v] held x.watcher x.name := by
  by_cases hn : x.name = name
  · have hmem : x.watcher ∈ (s.watches.filter (·.name == name)).map (·.watcher) :=
      List.mem_map_of_mem (List.mem_filter.mpr ⟨hx, by simpa using hn⟩)
    rw [told, if_pos ⟨hmem, hn⟩]
    simp [EnumDomains.heed, hn]
  · simp [EnumDomains.heed, told, hn, Ne.symm hn]

theorem changed {fuel : Nat} {y : HostResult} {r r' : Recorded (Story δ)}
    (hw : Mirroring s i ds values held r.world) (hbound : s.binds i name = true)
    (hchange : ds.Changes (values name) v)
    (hperform : Recorded.perform (Recorded.exec fuel) (r.world.host.changed i name v) r =
      some (y, r')) :
    y = .value .nil ∧ Mirrors s i k ds values held [.changed name v] [] r r' := by
  obtain ⟨store, hstore, hshare⟩ := hw.share_eq hbound hchange.1 hchange.2
  have hbinds := (Story.binds_of_ledger hw.ledger i name).trans hbound
  rw [Story.binds] at hbinds
  simp only [Story.changed, hbinds, hshare, if_true] at hperform
  rw [Recorded.perform] at hperform
  have hwatching : ∀ h ∈ (s.watches.filter (·.name == name)).map (·.watcher),
      ∃ x ∈ s.watches, x.watcher = h ∧ x.name = name := by
    intro h hh
    obtain ⟨x, hx, rfl⟩ := List.mem_map.mp hh
    obtain ⟨hx, hname⟩ := List.mem_filter.mp hx
    exact ⟨x, hx, rfl, by simpa using hname⟩
  obtain ⟨r₁, os, hlast, htrace, hassigning, hw₁⟩ :=
    (hw.insert hstore name v).tell hbound hwatching hperform
  obtain ⟨rfl, htrace', hw'⟩ := hw₁.perform_last (e := .changed name v) hlast
  refine ⟨rfl, os, htrace'.trans htrace, hassigning.congr ?_, hw'.congr ?_ ?_⟩
  · rw [accept_single, forall_prop_of_true hbound]
  · intro n _
    by_cases hn : n = name
    · simp [latest, hn]
    · simp [latest, hn, Ne.symm hn]
  · intro x hx _
    exact (told_watching hx name v).symm

theorem dispatch {fuel : Nat} {e : Event} {y : HostResult} {r r' : Recorded (Story δ)}
    (hw : Mirroring s i ds values held r.world) (hroute : s.route? h = some i)
    (hsteps : Steps s i ds values [e])
    (hperform : Recorded.perform (Recorded.exec fuel) (Story.dispatch h e) r = some (y, r')) :
    y = .value .nil ∧ Mirrors s i k ds values held [e] [] r r' := by
  have hhost : r.world.host.route? h = some i := (Story.route?_of_ledger hw.ledger h).trans hroute
  rw [Story.dispatch, Recorded.perform, hhost] at hperform
  cases e with
  | line l => exact hw.hear (e := .line l) (fun _ _ => rfl) hperform
  | choices cs => exact hw.hear (e := .choices cs) (fun _ _ => rfl) hperform
  | changed name v =>
    cases hbound : s.binds i name with
    | false =>
      have hbinds := (Story.binds_of_ledger hw.ledger i name).trans hbound
      rw [Story.binds] at hbinds
      simp only [Story.changed, hbinds, Bool.false_eq_true, if_false] at hperform
      refine hw.hear (e := .changed name v) (fun n hn => ?_) hperform
      rw [changesOf_changed, if_neg]
      rintro rfl
      rw [hbound] at hn
      cases hn
    | true =>
      have hchange : ds.Changes (values name) v := by simpa using hsteps name hbound
      exact hw.changed hbound hchange hperform

theorem deliver {fuel : Nat} {es : List Event} {y : Option (Option String)}
    {r r' : Recorded (Story δ)} (hw : Mirroring s i ds values held r.world)
    (hroute : s.route? h = some i) (hsteps : Steps s i ds values es)
    (hdeliver : Recorded.deliver (Recorded.perform (Recorded.exec fuel)) k h (Story.dispatch h) es
      r = some (y, r')) :
    y = none ∧ Mirrors s i k ds values held es es r r' := by
  induction es generalizing r values held with
  | nil =>
    cases hdeliver
    refine ⟨rfl, [], by simp, (Trace.assigning_nil k).congr ?_, hw⟩
    simp [Accept]
  | cons e es ih =>
    have hsplit : e :: es = [e] ++ es := rfl
    rw [hsplit, steps_append] at hsteps
    rw [Recorded.deliver] at hdeliver
    split at hdeliver
    · rename_i r₁ hperform
      obtain ⟨-, os, htrace, hassigning, hw₁⟩ :=
        dispatch (k := k) (r := r.note [.entered k h e]) hw hroute hsteps.1 hperform
      obtain ⟨rfl, os', htrace', hassigning', hw'⟩ :=
        ih (r := r₁.note [.left k]) hw₁ hsteps.2 hdeliver
      refine ⟨rfl, [.entered k h e] ++ (os ++ ([.left k] ++ os')), ?_, ?_, ?_⟩
      · simp [htrace', htrace, Recorded.note]
      · refine ((Trace.assigning_entered k h e).append
          (hassigning.append ((Trace.assigning_left k).append hassigning'))).congr ?_
        rw [hsplit, accept_append]
        simp
      · rwa [hsplit, latest_append, EnumDomains.heed_append]
    · rename_i hperform
      cases (dispatch (k := k) (r := r.note [.entered k h e]) hw hroute hsteps.1 hperform).1
    · cases hdeliver

theorem stage (hw : Mirroring s i ds values held w) (k : Nat) (b : Bool) :
    Mirroring s i ds values held (w.dispatch k b) where
  quiet := hw.quiet.dispatch k b
  discreet := hw.discreet
  ledger := hw.ledger
  shared := hw.shared
  kept := by
    simp only [World.machine?_dispatch]
    exact hw.kept

theorem flush {fuel rounds : Nat} {inst : Instance (Story δ)} {r r' : Recorded (Story δ)}
    (hinst : r.world.instances[k]? = some inst) (hbusy : inst.busy = false)
    (hdispatching : inst.dispatching = false) (hcallbacks : inst.callbacks = Story.dispatch)
    (hw : Mirroring s i ds values held (r.world.setInstance k inst.drained))
    (hroute : s.route? h = some i) (hsteps : Steps s i ds values inst.machine.events)
    (hflush : Recorded.flush (Recorded.perform (Recorded.exec fuel)) h k rounds r = some r') :
    ∃ os, r'.trace = r.trace ++ inst.machine.diagnostics.map (.reported k) ++ os ∧
      Assigning k inst.machine.events (Accept s i ds held inst.machine.events) os ∧
      Mirroring s i ds (latest inst.machine.events values) (ds.heed inst.machine.events held)
        r'.world := by
  rcases rounds with _ | rounds
  · cases hflush
  have hevents : (r.collect k inst).1 = inst.machine.events := by
    rw [Recorded.events_collect, hdispatching]
    rfl
  have htrace := Recorded.trace_collect r k inst
  have hcollected : Mirroring s i ds values held (r.collect k inst).2.world := by
    rw [Recorded.world_collect, World.collect_snd]
    exact hw.logs (World.logs_reports ..)
  rcases Recorded.flush_cases hflush with ⟨-, hrunning⟩ | ⟨inst', hinst', -, hround⟩
  · rw [hrunning inst hinst] at hbusy
    cases hbusy
  · cases hinst.symm.trans hinst'
    rw [hevents] at hround
    rcases hround with ⟨hnone, rfl⟩ | ⟨-, x, r₁, hdeliver, hends⟩
    · rw [hnone]
      refine ⟨[], by simp [htrace], (Trace.assigning_nil k).congr (by simp [Accept]), hcollected⟩
    · rw [hcallbacks] at hdeliver
      obtain ⟨rfl, os, htrace', hassigning, hw₁⟩ :=
        (hcollected.stage k true).deliver (r := (r.collect k inst).2.update (·.dispatch k true))
          hroute hsteps hdeliver
      have hw' := hw₁.stage k false
      rcases hends with ⟨-, hflush⟩ | ⟨message, hpanic, -⟩
      · rcases rounds with _ | rounds
        · cases hflush
        -- Assignments queue nothing, so that one round is enough.
        rw [Recorded.flush_quiet (s := r₁.update (·.dispatch k false)) hw'.quiet] at hflush
        cases hflush
        refine ⟨os, ?_, hassigning, hw'⟩
        rw [← htrace]
        exact htrace'
      · cases hpanic

end Mirroring

end Dialogue
