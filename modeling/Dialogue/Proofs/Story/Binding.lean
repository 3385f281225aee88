import Dialogue.Proofs.Machine.Sharing
import Dialogue.Proofs.Story.Start

namespace Dialogue

variable {δ : Type} {w w' : World (Story δ)} {i : Nat} {h : Handle}
  {m m' : HostMachine (Story δ)}

namespace Story

theorem mem_unbound {s : Story δ} {store : VariableStore Handle} (hstore : s.store = some store)
    {c : Conversation δ} {e : String × Value} :
    e ∈ s.unbound c ↔ store.get? e.1 = some e.2 ∧ e.1 ∈ c.externs ∧ c.isBound e.1 = false := by
  rw [unbound, hstore, List.mem_filter, Conversation.lacks, Bool.and_eq_true,
    List.contains_iff_mem, Bool.not_eq_true']
  refine and_congr_left fun _ => ⟨Table.get?_of_mem, fun h => ?_⟩
  exact Table.mem_of_get? h

theorem nodup_unbound (s : Story δ) (c : Conversation δ) : ((s.unbound c).map (·.1)).Nodup := by
  unfold unbound
  split
  · exact List.nodup_nil
  · rename_i store _
    exact store.values.nodup_keys.sublist (List.filter_sublist.map _)

end Story

namespace World

theorem machine?_affect (op : Operation (Story δ)) {c : Change (Story δ)} (hs : w.arena.Sound)
    (hc : op.change? = some c) (hm : w.machine? c.handle = some m) :
    (w.affect op).machine? c.handle = some (c.effect m) := by
  have haffect : w.affect op = w.modifyMachine c.handle c.effect := by
    rw [affect, hc]
  rw [haffect, machine?_modifyMachine hs, if_pos rfl, hm, Option.map_some]

theorem machine?_affect_of_ok (op : Operation (Story δ)) {c : Change (Story δ)}
    (hs : w.arena.Sound) (hc : op.change? = some c) (hm : w.machine? c.handle = some m) {r : Reply}
    (happly : c.apply m = .ok (r, m')) :
    (w.affect op).machine? c.handle = some { m' with diagnostics := [] } := by
  rw [machine?_affect op hs hc hm, Change.effect, happly]

theorem machine?_inject (hs : w.arena.Sound) (hm : w.machine? h = some m) :
    (w.inject h).machine? h = some (m.resumed w.host.state) := by
  unfold inject Machine.resumed
  split
  · exact hm
  · exact machine?_affect (.load h w.host.state) hs rfl hm

/-- What a machine holds when shared variables have been bound: their values, and all others as
before. -/
structure Binds (es : List (String × Value)) (m m' : HostMachine (Story δ)) : Prop where
  parsed : m'.IsParsed
  container : m'.container = m.container
  domains : m'.domains = m.domains
  bound : ∀ e ∈ es, m'.value e.1 = .ok e.2
  others : ∀ n, n ∉ es.map (·.1) → m'.value n = m.value n

theorem Binds.nil (hm : m.IsParsed) : Binds [] m m := ⟨hm, rfl, rfl, nofun, fun _ _ => rfl⟩

theorem Binds.cons {e : String × Value} {es : List (String × Value)}
    {m₁ : HostMachine (Story δ)} (hfirst : Binds [e] m m₁) (hrest : Binds es m₁ m')
    (hfresh : e.1 ∉ es.map (·.1)) : Binds (e :: es) m m' := by
  refine ⟨hrest.parsed, hrest.container.trans hfirst.container,
    hrest.domains.trans hfirst.domains, fun e' he' => ?_, fun n hn => ?_⟩
  · rcases List.mem_cons.mp he' with rfl | he'
    · rw [hrest.others _ hfresh]
      exact hfirst.bound _ List.mem_cons_self
    · exact hrest.bound e' he'
  · rw [List.map_cons, List.mem_cons, not_or] at hn
    rw [hrest.others n hn.2]
    exact hfirst.others n (by simpa using hn.1)

theorem Primes.sound {writes observes : String → Prop} (hw : Primes h writes observes w w')
    (hs : w.arena.Sound) : w'.arena.Sound :=
  hw.arena.symm ▸ hs

theorem machine?_bind (hs : w.arena.Sound) (hm : w.machine? h = some m) (hparsed : m.IsParsed)
    (hempty : m.domains.isEmpty = true) {name : String} (hprovided : m.IsExtern name) (i : Nat)
    (v : Value) : ∃ m', (w.bind i h name v).machine? h = some m' ∧ Binds [(name, v)] m m' := by
  obtain ⟨m₁, hset⟩ := Machine.setExtern_of_isExtern hprovided hempty v
  obtain ⟨m₂, hsubscribe⟩ := Machine.subscribe_of_value (m := { m₁ with diagnostics := [] })
    ((Machine.value_setExtern hparsed hset name).trans (if_pos rfl))
  have hadjusts := Machine.adjusts_setExtern hset
  have hadjusts' := Machine.adjusts_subscribe hsubscribe
  have hparsed₁ : Machine.IsParsed { m₁ with diagnostics := [] } :=
    hparsed.congr hadjusts.container hadjusts.symbols
  have hw₁ : (w.affect (.setExtern h name v)).machine? h = some { m₁ with diagnostics := [] } := by
    refine machine?_affect_of_ok (.setExtern h name v) (r := .flag true) hs rfl hm ?_
    simp only [hset, Except.map]
  have hs₁ : (w.affect (.setExtern h name v)).arena.Sound :=
    (primes_affect (.setExtern h name v) hs rfl rfl).sound hs
  refine ⟨{ m₂ with diagnostics := [] }, ?_, ⟨?_, ?_, ?_, ?_, ?_⟩⟩
  · change ((w.affect (.setExtern h name v)).affect (.subscribe h name)).machine? h = _
    refine machine?_affect_of_ok (.subscribe h name) (r := .flag true) hs₁ rfl hw₁ ?_
    simp only [hsubscribe, Except.map]
  · exact hparsed₁.congr hadjusts'.container hadjusts'.symbols
  · exact hadjusts'.container.trans hadjusts.container
  · have hdomains : m₁.domains = m.domains := Machine.domains_setExtern hset
    exact (Machine.domains_subscribe hsubscribe).trans hdomains
  · intro e he
    obtain rfl := List.mem_singleton.mp he
    refine (Machine.value_subscribe hparsed₁ hsubscribe name).trans ?_
    exact (Machine.value_setExtern hparsed hset name).trans (if_pos rfl)
  · intro n hn
    refine (Machine.value_subscribe hparsed₁ hsubscribe n).trans ?_
    exact (Machine.value_setExtern hparsed hset n).trans (if_neg (by simpa using hn))

theorem machine?_binds {es : List (String × Value)} (hs : w.arena.Sound)
    (hm : w.machine? h = some m) (hparsed : m.IsParsed) (hempty : m.domains.isEmpty = true)
    (hexterns : ∀ e ∈ es, e.1 ∈ m.container.externs) (hnodup : (es.map (·.1)).Nodup) (i : Nat) :
    ∃ m', (es.foldl (fun w e => w.bind i h e.1 e.2) w).machine? h = some m' ∧ Binds es m m' := by
  induction es generalizing w m with
  | nil => exact ⟨m, hm, .nil hparsed⟩
  | cons e es ih =>
    obtain ⟨hfresh, hnodup⟩ := List.nodup_cons.mp hnodup
    have hprovided := hparsed.isExtern (hexterns e List.mem_cons_self)
    obtain ⟨m₁, hm₁, hfirst⟩ := machine?_bind hs hm hparsed hempty hprovided i e.2
    have hs₁ := (primes_bind hs i h e.1 e.2).sound hs
    obtain ⟨m', hm', hrest⟩ := ih hs₁ hm₁ hfirst.parsed (hfirst.domains ▸ hempty)
      (fun e' he' => hfirst.container ▸ hexterns e' (List.mem_cons_of_mem _ he')) hnodup
    exact ⟨m', hm', hfirst.cons hrest hfresh⟩

theorem declareEnums_of_isEmpty {store : VariableStore Handle} (hstore : w.host.store = some store)
    (hempty : store.domains.isEmpty = true) (h : Handle) : w.declareEnums h = w := by
  unfold declareEnums
  rw [hstore]
  simp only [Table.values, List.isEmpty_iff.mp hempty]
  rfl

theorem machine?_prepared (hs : w.arena.Sound) {c : Conversation δ}
    {store : VariableStore Handle} (hstore : w.host.store = some store)
    (hm : w.machine? c.handle = some m) (hparsed : m.IsParsed)
    (hundeclared : store.domains.isEmpty = true ∧ m.domains.isEmpty = true)
    (hexterns : c.externs = m.container.externs) (i : Nat) :
    ∃ m', (w.prepared i c).machine? c.handle = some m' ∧
      Binds (w.host.unbound c) (m.resumed w.host.state) m' := by
  have hinject : Primes c.handle _ (fun _ => False) w (w.inject c.handle) := primes_inject hs c.handle
  have hs₁ := hinject.sound hs
  unfold prepared
  have hstore₁ : (w.inject c.handle).host.store = some store := by rw [host_inject, hstore]
  rw [declareEnums_of_isEmpty hstore₁ hundeclared.1]
  refine machine?_binds hs₁ (machine?_inject hs hm) (hparsed.resumed _) ?_ ?_ ?_ i
  · rw [Machine.domains_resumed]
    exact hundeclared.2
  · intro e he
    rw [Machine.container_resumed, ← hexterns]
    exact ((Story.mem_unbound hstore).mp he).2.1
  · exact Story.nodup_unbound ..

end World

namespace Story

theorem bindNames_store {s : Story δ} {store : VariableStore Handle} (hstore : s.store = some store)
    (i : Nat) (h : Handle) (names : List String) : ∃ store',
      (s.bindNames i h names).store = some store' ∧ store'.values = store.values := by
  rw [bindNames, hstore]
  exact ⟨_, rfl, rfl⟩

theorem bindNames_conversation {s : Story δ} {store : VariableStore Handle}
    (hstore : s.store = some store) {c : Conversation δ} (hc : s.conversations[i]? = some c)
    (h : Handle) (names : List String) : (s.bindNames i h names).conversations[i]? =
      some { c with bindings := c.bindings ++ names.zipIdx store.nextId } := by
  rw [bindNames, hstore]
  simp [Story.modify, hc]

end Story

theorem Conversation.isBound_iff {c : Conversation δ} {name : String} :
    c.isBound name = true ↔ name ∈ c.boundNames := by
  simp [isBound, boundNames]

theorem Conversation.isBound_append (c : Conversation δ) (names : List String) (first : Nat)
    (name : String) :
    Conversation.isBound { c with bindings := c.bindings ++ names.zipIdx first } name = true ↔
      c.isBound name = true ∨ name ∈ names := by
  rw [isBound_iff, isBound_iff, boundNames, List.map_append, List.mem_append]
  simp [boundNames]

theorem World.machine?_begun (hs : w.arena.Sound) (hm : w.machine? h = some m) (i : Nat)
    (m' : HostMachine (Story δ)) (bough : String) :
    (w.begun i h m' bough).machine? h = some m' := by
  refine (machine?_modifyMachine hs _ h h).trans ?_
  rw [if_pos rfl, hm, Option.map_some]

theorem World.conversation_begun {c : Conversation δ} (hc : w.host.conversations[i]? = some c)
    (h : Handle) (m : HostMachine (Story δ)) (bough : String) :
    (w.begun i h m bough).host.conversations[i]? = some { c with
      pending := none, phase := .started, events := c.events ++ [.started bough] } := by
  simp [begun, Story.emit, Story.modify, Story.clearPending, hc, Conversation.emit]

/-- What a start makes of the variables that its conversation is bound to. Those that it binds get
the values of the store. Those that were bound before are not written again, so that the saved state
has the last word on them. -/
structure World.Started (i : Nat) (c : Conversation δ) (m : HostMachine (Story δ))
    (store : VariableStore Handle) (saved : Snapshot) (w' : World (Story δ)) : Prop where
  conversation : ∃ c', w'.host.conversations[i]? = some c' ∧ c'.handle = c.handle ∧
    ∀ name, c'.isBound name = true ↔
      c.isBound name = true ∨ name ∈ c.externs ∧ (store.get? name).isSome = true
  shared : ∃ store', w'.host.store = some store' ∧ store'.values = store.values
  machine : ∃ m', w'.machine? c.handle = some m' ∧
    (∀ name v, name ∈ c.externs → c.isBound name = false → store.get? name = some v →
      m'.value name = .ok v) ∧
    ∀ name, c.isBound name = true →
      m'.value name = Machine.restore m.domains (m.value name) (saved.value? name)

namespace Telling

open World

variable {log : Severity → String → δ → δ}

theorem started_of_ok {fuel : Nat} {bough : String} {c : Conversation δ}
    {store : VariableStore Handle} (hw : Story.Reachable log w)
    (hc : w.host.conversations[i]? = some c) (hm : w.machine? c.handle = some m)
    (hstore : w.host.store = some store)
    (hundeclared : store.domains.isEmpty = true ∧ m.domains.isEmpty = true)
    (hexterns : c.externs = m.container.externs)
    (hr : (startBough fuel i bough).Yields w (.ok ()) w') :
    Started i c m store w.host.state w' := by
  have hsettled : w.Settled fun _ => () := hw.settled fun _ _ _ => rfl
  have hparsed := machine?_isParsed hw.atRest hm
  rcases startBough_cases hsettled hr with ⟨-, ⟨h, herror⟩, -⟩ | ⟨c₁, hc₁, -, hstarted⟩
  · cases herror
  cases hc.symm.trans hc₁
  rcases hstarted with ⟨herror, -⟩ | ⟨m₁, m₂, hm₁, hstart, -, hsame⟩
  · cases herror
  obtain ⟨m₁', hm₁', hbinds⟩ :=
    machine?_prepared hw.atRest.sound hstore hm hparsed hundeclared hexterns i
  cases hm₁.symm.trans hm₁'
  obtain ⟨b, -, rfl⟩ := Machine.start_eq_ok hstart
  have hs := (primes_prepared hw.atRest.sound i c).sound hw.atRest.sound
  obtain ⟨store', hstore', hvalues⟩ :=
    Story.bindNames_store hstore i c.handle ((w.host.unbound c).map (·.1))
  have hc' := Story.bindNames_conversation hstore hc c.handle ((w.host.unbound c).map (·.1))
  rw [← host_prepared] at hstore' hc'
  have hbound := conversation_begun hc' c.handle
    { m₁ with ip := b.entry.toNat, pending := [], state := .running } bough
  have hmachine := machine?_begun hs hm₁ i
    { m₁ with ip := b.entry.toNat, pending := [], state := .running } bough
  obtain ⟨x, -, rfl⟩ := hsame
  refine ⟨⟨_, hbound, rfl, fun name => ?_⟩, ⟨store', hstore', hvalues⟩, ⟨_, hmachine,
    fun name v hname hlacks hv => ?_, fun name hbound => ?_⟩⟩
  · refine (c.isBound_append _ store.nextId name).trans ?_
    constructor
    · rintro (hbound | hmem)
      · exact .inl hbound
      · obtain ⟨e, he, rfl⟩ := List.mem_map.mp hmem
        obtain ⟨hv, hname, -⟩ := (Story.mem_unbound hstore).mp he
        exact .inr ⟨hname, by rw [hv, Option.isSome_some]⟩
    · rintro (hbound | ⟨hname, hshared⟩)
      · exact .inl hbound
      · obtain ⟨v, hv⟩ := Option.isSome_iff_exists.mp hshared
        cases hlacks : c.isBound name with
        | true => exact .inl rfl
        | false =>
          have hmem := (Story.mem_unbound (e := (name, v)) hstore).mpr ⟨hv, hname, hlacks⟩
          exact .inr (List.mem_map_of_mem hmem)
  · exact hbinds.bound (name, v) ((Story.mem_unbound hstore).mpr ⟨hv, hname, hlacks⟩)
  · refine (hbinds.others name fun hmem => ?_).trans (hparsed.value_resumed _ name)
    obtain ⟨e, he, rfl⟩ := List.mem_map.mp hmem
    have hfresh := ((Story.mem_unbound hstore).mp he).2.2
    rw [hbound] at hfresh
    cases hfresh

theorem eq_bool_of_beq {v : Value} {b : Bool} (h : (v == .bool b) = true) : v = .bool b := by
  cases v with
  | bool a => exact congrArg Value.bool (eq_of_beq (h : (a == b) = true))
  | nil | number | string | list | set | map | enum => cases h

def lamp : List Builder.Call :=
  [.externVariable "lit", .bough "main", .line "mara" "Come in." [], .stop]

/-- The start that fails binds the lamp, which is not lit. The next one loads the saved state, in which
it is, and the script sees it lit. -/
theorem started_lamp : ∃ (w w' : World (Story Unit)) (c : Conversation Unit)
    (m m' : HostMachine (Story Unit)) (store : VariableStore Handle),
    Story.Reachable (fun _ _ x => x) w ∧ (startBough 3 0 "main").Yields w (.ok ()) w' ∧
      Started 0 c m store w.host.state w' ∧ w'.machine? c.handle = some m' ∧
        store.get? "lit" = some (.bool false) ∧ m'.value "lit" = .ok (.bool true) := by
  let w₀ : World (Story Unit) := .create (Story.logging fun _ _ x => x)
    { Story.create () with
      state := Table.empty.insert "lit" (.bool true)
      store := some (VariableStore.insert {} "lit" (.bool false)) }
  have h : (do
      let bytes ← (Builder.run .offset lamp).build.toOption
      let data ← (CompiledData.ofBytes bytes).toOption
      let x ← (create 3 .empty data {}).run.run w₀
      let y ← (startBough 3 0 "elsewhere").run.run x.2
      let z ← (startBough 3 0 "main").run.run y.2
      let c ← y.2.host.conversations[0]?
      let m ← y.2.machine? c.handle
      let store ← y.2.host.store
      let m' ← z.2.machine? c.handle
      let lit ← store.get? "lit"
      let lit' ← (m'.value "lit").toOption
      return (decide (z.1 = .ok ()), store.domains.isEmpty && m.domains.isEmpty,
        decide (c.externs = m.container.externs), (lit == .bool false) && (lit' == .bool true))) =
      some (true, true, true, true) := by
    decide +kernel
  obtain ⟨bytes, -, h⟩ := Option.bind_eq_some_iff.mp h
  obtain ⟨data, -, h⟩ := Option.bind_eq_some_iff.mp h
  obtain ⟨⟨r₁, w₁⟩, hcreate, h⟩ := Option.bind_eq_some_iff.mp h
  obtain ⟨⟨r₂, w⟩, hfailed, h⟩ := Option.bind_eq_some_iff.mp h
  obtain ⟨⟨r, w'⟩, hstart, h⟩ := Option.bind_eq_some_iff.mp h
  obtain ⟨c, hc, h⟩ := Option.bind_eq_some_iff.mp h
  obtain ⟨m, hm, h⟩ := Option.bind_eq_some_iff.mp h
  obtain ⟨store, hstore, h⟩ := Option.bind_eq_some_iff.mp h
  obtain ⟨m', hm', h⟩ := Option.bind_eq_some_iff.mp h
  obtain ⟨lit, hlit, h⟩ := Option.bind_eq_some_iff.mp h
  obtain ⟨lit', hlit', h⟩ := Option.bind_eq_some_iff.mp h
  simp only [pure, Option.some.injEq, Prod.mk.injEq, decide_eq_true_eq, Bool.and_eq_true] at h
  obtain ⟨rfl, hundeclared, hexterns, hfalse, htrue⟩ := h
  rw [eq_bool_of_beq hfalse] at hlit
  rw [eq_bool_of_beq htrue] at hlit'
  have hw₁ := Story.reachable_create 3 .empty data {} w₀ r₁ w₁ (.create _) hcreate
  have hw := Story.reachable_act 3 (.startBough 0 "elsewhere") w₁ r₂ w hw₁ hfailed
  refine ⟨w, w', c, m, m', store, hw, hstart,
    started_of_ok hw hc hm hstore hundeclared hexterns hstart, hm', hlit,
    Except.toOption_eq_some_iff.mp hlit'⟩

end Telling

end Dialogue
