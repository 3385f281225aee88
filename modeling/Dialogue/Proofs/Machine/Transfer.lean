import Dialogue.Proofs.Machine.Holdings
import Dialogue.Proofs.Machine.Moves
import Dialogue.Proofs.Machine.Sharing
import Dialogue.Proofs.Value.Exchange

namespace Dialogue

def Global.refusal? {φ : Type} (g : Global φ) : Option (String × ValueError) :=
  match g.slot with
  | .function .. => none
  | .value v =>
    match v.toJson with
    | .ok _ => none
    | .error cause => some (g.symbol.name, cause)

theorem Global.refusal?_eq_some_iff {φ : Type} {g : Global φ} {r : String × ValueError} :
    g.refusal? = some r ↔
      g.symbol.name = r.1 ∧ ∃ v, g.slot = .value v ∧ v.toJson = .error r.2 := by
  obtain ⟨name, cause⟩ := r
  unfold refusal?
  cases g.slot with
  | function arity body => simp
  | value v => cases hj : v.toJson <;> simp [hj]

theorem Value.not_finite_iff {v : Value} : ¬ v.Finite ↔ ∃ cause, v.toJson = .error cause := by
  cases hj : v.toJson with
  | ok j => simp [finite_of_toJson hj]
  | error cause =>
    simp only [Except.error.injEq, exists_eq', iff_true]
    intro hfinite
    obtain ⟨j, hj'⟩ := exists_toJson hfinite
    rw [hj'] at hj
    cases hj

namespace Machine

variable {φ ψ σ : Type} {c : Container} {m m' : Machine φ} {g : Global φ} {name : String}
  {v : Value} {j : Json}

def Act.Supplies : Act φ → Prop
  | .setExtern _ v => v.Proper
  | _ => True

theorem Proper.act {host : φ → List Value → σ → Option (HostResult × σ)} {fuel : Nat} {s s' : σ}
    {a : Act φ} {ended : RunEnd} (ha : a.Supplies)
    (hhost : Provides host (fun _ => True) fun _ => True) (hm : m.Proper)
    (h : a.perform host fuel m s = some (ended, m', s')) : m'.Proper := by
  cases a with
  | start bough =>
    exact of_returns hm (fun _ h => hm.congr (sameData_start h).globals (sameQueues_start h).1) h
  | run => exact (hm.run hhost (fun _ _ _ _ _ => trivial) trivial h).1
  | selectContinue =>
    exact of_returns hm (fun _ h =>
      hm.congr (sameData_selectContinue h).globals (adjusts_selectContinue h).events) h
  | selectChoice index =>
    exact of_returns hm (fun _ h =>
      hm.congr (sameData_selectChoice h).globals (sameQueues_selectChoice h).1) h
  | setExtern name v => exact of_returns hm (fun _ h => hm.setExtern ha h) h
  | setFunction name arity body =>
    refine of_returns hm (fun _ h => ?_) h
    obtain ⟨g, -, rfl⟩ := setFunction_eq_ok h
    exact hm.update fun _ _ hslot => by cases hslot
  | subscribe name =>
    refine of_returns hm (fun _ h => ?_) h
    obtain ⟨g, -, -, rfl⟩ := subscribe_eq_ok h
    exact hm.update fun _ _ hslot => .inl hslot
  | unsubscribe name =>
    cases h
    rcases unsubscribe_cases m name with heq | ⟨g, -, heq⟩ <;> rw [heq]
    · exact hm
    · exact hm.update fun _ _ hslot => .inl hslot
  | value name =>
    refine of_returns hm (fun _ h => ?_) h
    obtain ⟨_, -, rfl⟩ := Except.map_eq_ok_iff.mp h
    exact hm
  | load saved =>
    cases h
    exact hm.loadEntries saved.entries
  | takeEvents =>
    cases h
    exact ⟨hm.values, nofun⟩
  | halt | declareEnum | save | takeDiagnostics =>
    cases h
    exact hm.congr rfl rfl

inductive Served (c : Container) : Machine φ → Prop
  | create : Served c (create c)
  | act {σ : Type} {host : φ → List Value → σ → Option (HostResult × σ)} {fuel : Nat}
    {m m' : Machine φ} {s s' : σ} {a : Act φ} {ended : RunEnd} :
    Served c m → a.Supplies → Provides host (fun _ => True) (fun _ => True) →
      a.perform host fuel m s = some (ended, m', s') → Served c m'

theorem Served.proper (h : Served c m) : m.Proper := by
  induction h with
  | create => exact proper_create c
  | act _ ha hhost h hm => exact hm.act ha hhost h

theorem Served.isParsed {bytes : Bytes} (hparse : Container.parse bytes = .ok c)
    (h : Served c m) : m.container = c ∧ m.IsParsed := by
  have hcourse : Course (fun _ => True) (Machine.create c) m := by
    induction h with
    | create => exact .refl
    | act _ _ _ h ih => exact ih.trans (course_perform (fun _ _ => trivial) h)
  have hframe := Course.sameFrame hcourse
  exact ⟨hframe.container, hframe.isParsed (isParsed_create hparse)⟩

theorem saveGlobals_problems (gs : List (Global φ)) (saved : Snapshot)
    (problems : List MachineError) : (saveGlobals gs saved problems).2 =
      problems ++ (gs.filterMap Global.refusal?).map fun r => .snapshotEntry r.1 r.2 := by
  induction gs generalizing saved problems with
  | nil => simp [saveGlobals]
  | cons g gs ih =>
    rw [saveGlobals, List.filterMap_cons, Global.refusal?]
    cases g.slot with
    | function arity body => exact ih saved problems
    | value v =>
      simp only [Snapshot.save]
      cases v.toJson with
      | ok j => exact ih (saved.insert g.symbol.name j) problems
      | error cause => simp [Except.map, ih]

theorem IsParsed.mem_refusals (hm : m.IsParsed) {r : String × ValueError} :
    r ∈ m.globals.filterMap Global.refusal? ↔
      ∃ v, m.value r.1 = .ok v ∧ v.toJson = .error r.2 := by
  rw [List.mem_filterMap]
  constructor
  · rintro ⟨g, hg, hr⟩
    obtain ⟨hname, v, hslot, hv⟩ := Global.refusal?_eq_some_iff.mp hr
    exact ⟨v, value_of_global? (hname ▸ hm.global?_of_mem hg) hslot, hv⟩
  · rintro ⟨v, hvalue, hv⟩
    obtain ⟨g, hg, hslot⟩ := value_eq_ok hvalue
    obtain ⟨hmem, hname⟩ := global?_mem hg
    exact ⟨g, hmem, Global.refusal?_eq_some_iff.mpr ⟨hname, v, hslot, hv⟩⟩

theorem IsParsed.nodup_refusals (hm : m.IsParsed) :
    ((m.globals.filterMap Global.refusal?).map (·.1)).Nodup := by
  have hnames : m.globals.Pairwise fun g g' => g.symbol.name ≠ g'.symbol.name :=
    List.pairwise_map.mp hm.nodup.1
  refine List.Pairwise.map (R := fun r r' => r.1 ≠ r'.1) _ (fun _ _ hne => hne) ?_
  refine hnames.filterMap _ fun g g' hne r hr r' hr' => ?_
  rw [← (Global.refusal?_eq_some_iff.mp hr).1, ← (Global.refusal?_eq_some_iff.mp hr').1]
  exact hne

theorem IsParsed.mem_keys_save (hm : m.IsParsed) :
    name ∈ m.save.1.keys ↔ ∃ v, m.value name = .ok v ∧ v.Finite := by
  constructor
  · intro h
    obtain ⟨e, he, rfl⟩ := List.mem_map.mp h
    obtain ⟨v, hv, hj⟩ := hm.value_of_save (Table.get?_of_mem he)
    exact ⟨v, hv, Value.finite_of_toJson hj⟩
  · rintro ⟨v, hv, hfinite⟩
    obtain ⟨j, hj⟩ := Value.exists_toJson hfinite
    exact List.mem_map.mpr ⟨(name, j), Table.mem_of_get? (hm.save_value hv hj), rfl⟩

theorem IsParsed.read_of_save (hm : m.IsParsed) (hproper : m.Proper) {e : String × Json}
    (he : e ∈ m.save.1.entries) : ∃ v, m.value e.1 = .ok v ∧ Value.ofJson e.2 = .ok v := by
  obtain ⟨v, hv, hj⟩ := hm.value_of_save (Table.get?_of_mem he)
  exact ⟨v, hv, Value.ofJson_toJson (hproper.of_value hv) hj⟩

theorem loadEntry_of_read (hempty : m.domains.isEmpty = true) (hg : m.global? name = some g)
    (hdata : g.slot.isFunction = false) (hj : Value.ofJson j = .ok v) :
    m.loadEntry name j = (m.write g.symbol.index (.value v), true) := by
  simp only [loadEntry, hg, hdata, hj, bind, Except.bind, Bool.false_eq_true, if_false,
    EnumDomains.checkAssignment_of_isEmpty hempty]
  rfl

def Takes (m : Machine φ) (e : String × Json) : Prop :=
  (∃ g, m.global? e.1 = some g ∧ g.slot.isFunction = false) ∧ ∃ v, Value.ofJson e.2 = .ok v

theorem IsParsed.takes_write (hm : m.IsParsed) (hg : m.global? name = some g)
    {e : String × Json} (h : m.Takes e) : (m.write g.symbol.index (.value v)).Takes e := by
  obtain ⟨⟨g', hg', hdata⟩, hread⟩ := h
  refine ⟨?_, hread⟩
  rw [hm.global?_write hg]
  split
  · exact ⟨_, rfl, rfl⟩
  · exact ⟨g', hg', hdata⟩

theorem IsParsed.loadEntries_of_takes {entries : List (String × Json)} (hm : m.IsParsed)
    (hempty : m.domains.isEmpty = true) (h : ∀ e ∈ entries, m.Takes e) :
    (m.loadEntries entries).2 = entries.length ∧
      (m.loadEntries entries).1.diagnostics = m.diagnostics := by
  induction entries generalizing m with
  | nil => exact ⟨rfl, rfl⟩
  | cons e entries ih =>
    obtain ⟨name, j⟩ := e
    obtain ⟨⟨⟨g, hg, hdata⟩, v, hj⟩, hrest⟩ := List.forall_mem_cons.mp h
    have hwritten : (m.write g.symbol.index (.value v)).IsParsed :=
      (adjusts_write m _ _).sameFrame.isParsed hm
    obtain ⟨hcount, hdiagnostics⟩ := ih hwritten hempty fun e he => hm.takes_write hg (hrest e he)
    simp only [loadEntries, loadEntry_of_read hempty hg hdata hj, hcount, hdiagnostics,
      List.length_cons, if_true]
    exact ⟨Nat.add_comm .., rfl⟩

theorem IsParsed.write_self (hm : m.IsParsed) (hg : g ∈ m.globals) :
    m.write g.symbol.index g.slot = m := by
  have hglobals : m.globals.map (fun g' => if g'.symbol.index == g.symbol.index then
      { g' with slot := g.slot } else g') = m.globals := by
    refine (List.map_congr_left fun g' hg' => ?_).trans (List.map_id _)
    split
    · rename_i hindex
      rw [hm.eq_of_index hg' hg (beq_iff_eq.mp hindex)]
      rfl
    · rfl
  rw [write, update, hglobals]

theorem IsParsed.loadEntry_of_held (hm : m.IsParsed) (hempty : m.domains.isEmpty = true)
    (hv : m.value name = .ok v) (hj : Value.ofJson j = .ok v) :
    m.loadEntry name j = (m, true) := by
  obtain ⟨g, hg, hslot⟩ := value_eq_ok hv
  rw [loadEntry_of_read hempty hg (by rw [hslot]; rfl) hj, ← hslot,
    hm.write_self (global?_mem hg).1]

theorem IsParsed.loadEntries_of_held {entries : List (String × Json)} (hm : m.IsParsed)
    (hempty : m.domains.isEmpty = true)
    (h : ∀ e ∈ entries, ∃ v, m.value e.1 = .ok v ∧ Value.ofJson e.2 = .ok v) :
    m.loadEntries entries = (m, entries.length) := by
  induction entries with
  | nil => rfl
  | cons e entries ih =>
    obtain ⟨⟨v, hv, hj⟩, hrest⟩ := List.forall_mem_cons.mp h
    simp only [loadEntries, hm.loadEntry_of_held hempty hv hj, ih hrest, if_true,
      List.length_cons, Nat.add_comm]

theorem global?_create {bytes : Bytes} (hparse : Container.parse bytes = .ok c)
    (h : name ∈ c.globals.map (·.name)) : ∃ g, (create c : Machine ψ).global? name = some g ∧
      g.slot = .value .nil := by
  obtain ⟨symbol, hsymbol, rfl⟩ := List.mem_map.mp h
  have hmem : (⟨symbol, .value .nil, false⟩ : Global ψ) ∈ (create c : Machine ψ).globals :=
    List.mem_map_of_mem hsymbol
  exact ⟨_, (isParsed_create hparse).global?_of_mem hmem, rfl⟩

theorem IsParsed.mem_names (hm : m.IsParsed) (h : m.value name = .ok v) :
    name ∈ m.container.globals.map (·.name) := by
  obtain ⟨g, hg, -⟩ := value_eq_ok h
  obtain ⟨hmem, rfl⟩ := global?_mem hg
  rw [← hm.symbols, List.map_map]
  exact List.mem_map_of_mem hmem

/-- What a machine saves: `kept` are the variables whose numbers are finite, `lost` those with
others, for each of which a problem is reported. -/
structure Saves (m : Machine φ) (kept lost : List String) : Prop where
  nodup : kept.Nodup ∧ lost.Nodup
  mem_kept : ∀ name, name ∈ kept ↔ ∃ v, m.value name = .ok v ∧ v.Finite
  mem_lost : ∀ name, name ∈ lost ↔ ∃ v, m.value name = .ok v ∧ ¬ v.Finite
  problems : ∃ problems, m.save.2 = { m with diagnostics := m.diagnostics ++ problems } ∧
    List.Forall₂ (fun name e => ∃ v cause, m.value name = .ok v ∧ v.toJson = .error cause ∧
      e = .snapshotEntry name cause) lost problems

/-- What becomes of a new machine that loads what `m` has saved: it has taken over the variables of
`kept` and no others, without a problem, and keeps all when it loads the same once more. -/
structure Takeover (c : Container) (m : Machine φ) (kept : List String) (m' : Machine ψ) :
    Prop where
  load : (create c : Machine ψ).load m.save.1 = (m', kept.length)
  diagnostics : m'.diagnostics = []
  taken : ∀ name v, name ∈ kept → m.value name = .ok v → m'.value name = .ok v
  others : ∀ name ∈ c.globals.map (·.name), name ∉ kept → m'.value name = .ok .nil
  again : m'.load m.save.1 = (m', kept.length)

theorem IsParsed.saves (hm : m.IsParsed) :
    m.Saves m.save.1.keys ((m.globals.filterMap Global.refusal?).map (·.1)) := by
  refine ⟨⟨m.save.1.nodup_keys, hm.nodup_refusals⟩, fun name => hm.mem_keys_save, fun name => ?_,
    _, congrArg (fun es => { m with diagnostics := m.diagnostics ++ es })
      (saveGlobals_problems m.globals .empty []), ?_⟩
  · rw [List.mem_map]
    constructor
    · rintro ⟨r, hr, rfl⟩
      obtain ⟨v, hv, hcause⟩ := hm.mem_refusals.mp hr
      exact ⟨v, hv, Value.not_finite_iff.mpr ⟨r.2, hcause⟩⟩
    · rintro ⟨v, hv, hinfinite⟩
      obtain ⟨cause, hcause⟩ := Value.not_finite_iff.mp hinfinite
      exact ⟨(name, cause), hm.mem_refusals.mpr ⟨v, hv, hcause⟩, rfl⟩
  · rw [List.nil_append, List.forall₂_map_left_iff, List.forall₂_map_right_iff, List.forall₂_same]
    intro r hr
    obtain ⟨v, hv, hcause⟩ := hm.mem_refusals.mp hr
    exact ⟨v, r.2, hv, hcause, rfl⟩

theorem IsParsed.takes_create {bytes : Bytes} (hparse : Container.parse bytes = .ok m.container)
    (hm : m.IsParsed) (hproper : m.Proper) :
    ∀ e ∈ m.save.1.entries, (create m.container : Machine ψ).Takes e := by
  intro e he
  obtain ⟨v, hv, hj⟩ := hm.read_of_save hproper he
  obtain ⟨g, hg, hslot⟩ := global?_create hparse (hm.mem_names hv)
  exact ⟨⟨g, hg, by rw [hslot]; rfl⟩, v, hj⟩

theorem IsParsed.value_load_create {bytes : Bytes}
    (hparse : Container.parse bytes = .ok m.container) (hm : m.IsParsed) (hproper : m.Proper) :
    ∀ e ∈ m.save.1.entries, ∃ v, m.value e.1 = .ok v ∧ Value.ofJson e.2 = .ok v ∧
      ((create m.container : Machine ψ).load m.save.1).1.value e.1 = .ok v := by
  intro e he
  obtain ⟨v, hv, hj⟩ := hm.read_of_save hproper he
  obtain ⟨g, hg, hslot⟩ := global?_create (ψ := ψ) hparse (hm.mem_names hv)
  have hget : Entries.find? e.1 m.save.1.entries = some e.2 := Table.get?_of_mem he
  refine ⟨v, hv, hj, ((isParsed_create hparse).value_loadEntries m.save.1.nodup_keys e.1).trans ?_⟩
  rw [value_of_global? hg hslot, hget, Option.map_some, hj, restore,
    EnumDomains.checkAssignment_of_isEmpty rfl, if_pos rfl]

theorem IsParsed.takeover {bytes : Bytes} (hparse : Container.parse bytes = .ok m.container)
    (hm : m.IsParsed) (hproper : m.Proper) : Takeover m.container m m.save.1.keys
      ((create m.container : Machine ψ).load m.save.1).1 := by
  have hnew : (create m.container : Machine ψ).IsParsed := isParsed_create hparse
  have hlength : m.save.1.keys.length = m.save.1.entries.length := List.length_map ..
  obtain ⟨hcount, hdiagnostics⟩ := hnew.loadEntries_of_takes rfl (hm.takes_create hparse hproper)
  refine ⟨?_, hdiagnostics, fun name v hname hv => ?_, fun name hname hnot => ?_, ?_⟩
  · rw [hlength, ← hcount]
    rfl
  · obtain ⟨e, he, rfl⟩ := List.mem_map.mp hname
    obtain ⟨v', hv', -, hload⟩ := hm.value_load_create hparse hproper e he
    rw [hv] at hv'
    cases hv'
    exact hload
  · obtain ⟨g, hg, hslot⟩ := global?_create (ψ := ψ) hparse hname
    refine (hnew.value_loadEntries m.save.1.nodup_keys name).trans ?_
    rw [Entries.find?_eq_none hnot, Option.map_none, restore_none, value_of_global? hg hslot]
  · have hadjusts := adjusts_loadEntries (create m.container : Machine ψ) m.save.1.entries
    rw [hlength]
    refine (hadjusts.sameFrame.isParsed hnew).loadEntries_of_held ?_ fun e he => ?_
    · rw [domains_loadEntries]
      rfl
    · obtain ⟨v, -, hj, hload⟩ := hm.value_load_create hparse hproper e he
      exact ⟨v, hload, hj⟩

/-- A new machine over the same container takes over every variable whose numbers are finite, with
exactly the value that was saved, and none else. Nothing is reported but the variables that could
not be saved, and loading once more makes no difference. -/
theorem takeover_of_served {bytes : Bytes} (hparse : Container.parse bytes = .ok c)
    (hm : Served c m) : ∃ (kept lost : List String) (m' : Machine ψ),
      m.Saves kept lost ∧ Takeover c m kept m' := by
  obtain ⟨rfl, hparsed⟩ := hm.isParsed hparse
  exact ⟨_, _, _, hparsed.saves, hparsed.takeover hparse hm.proper⟩

def purse : List Builder.Call :=
  [.externVariable "coins", .externVariable "odds", .externVariable "roll", .scriptVariable "met",
    .bough "main", .stop]

theorem takeover_purse : ∃ (c : Container) (m m' : Machine Unit) (kept lost : List String),
    Served c m ∧ m.Saves kept lost ∧ Takeover c m kept m' ∧ kept.length = 2 ∧ lost.length = 1 := by
  have hbuild : ((Builder.run .offset purse).build.map Array.size) = .ok 103 := by decide +kernel
  obtain ⟨bytes, hbuild, hsize⟩ := Except.map_eq_ok_iff.mp hbuild
  have hparse := Builder.parse_run (by decide) (by decide) (by decide +kernel) (by decide)
    (by rw [← hsize]; decide) hbuild
  rw [← hsize] at hparse
  let c := Builder.assembled .offset purse 103
  let coins : Value := .list [.number ⟨0x4024000000000000⟩]
  let odds : Value := .number ⟨0x7ff8000000000000⟩
  let host : Unit → List Value → Unit → Option (HostResult × Unit) := fun _ _ _ => none
  have hhost : Provides host (fun _ => True) fun _ => True := nofun
  have hplay : ((create c : Machine Unit).setExtern "coins" coins).bind (fun m =>
      (m.setExtern "odds" odds).bind fun m => (m.setFunction "roll" 0 ()).map fun m =>
        (m.diagnostics.length, m.save.2.diagnostics.length,
          ((create c : Machine Unit).load m.save.1).2)) = .ok (0, 1, 2) := by
    decide +kernel
  obtain ⟨m₁, hcoins, hplay⟩ := Except.bind_eq_ok_iff.mp hplay
  obtain ⟨m₂, hodds, hplay⟩ := Except.bind_eq_ok_iff.mp hplay
  obtain ⟨m, hroll, hplay⟩ := Except.map_eq_ok_iff.mp hplay
  simp only [Prod.mk.injEq] at hplay
  obtain ⟨hnone, hone, htwo⟩ := hplay
  have act {m m' : Machine Unit} (a : Act Unit) (hm : Served c m) (ha : a.Supplies)
      (h : a.perform host 0 m () = some (.paused, m', ())) : Served c m' := .act hm ha hhost h
  have hserved₁ : Served c m₁ := by
    refine act (.setExtern "coins" coins) .create ?_ ?_
    · exact Value.proper_list.mpr (by simpa using Value.proper_of_leaf (by decide))
    · rw [Act.perform, hcoins, returns]
  have hserved₂ : Served c m₂ := by
    refine act (.setExtern "odds" odds) hserved₁ (Value.proper_of_leaf (by decide)) ?_
    rw [Act.perform, hodds, returns]
  have hserved : Served c m := by
    refine act (.setFunction "roll" 0 ()) hserved₂ trivial ?_
    rw [Act.perform, hroll, returns]
  obtain ⟨kept, lost, m', hsaves, htakeover⟩ := takeover_of_served (ψ := Unit) hparse hserved
  refine ⟨c, m, m', kept, lost, hserved, hsaves, htakeover, ?_, ?_⟩
  · rw [htakeover.load] at htwo
    exact htwo.symm
  · obtain ⟨problems, hsave, hproblems⟩ := hsaves.problems
    rw [hproblems.length_eq]
    rw [hsave] at hone
    simpa [← hnone] using hone.symm

end Machine

end Dialogue
