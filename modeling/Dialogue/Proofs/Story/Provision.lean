import Dialogue.Proofs.Container.Assembly
import Dialogue.Proofs.Container.Grammar
import Dialogue.Proofs.Machine.Sharing
import Dialogue.Proofs.Story.Creation

namespace Dialogue

variable {ε : Type}

def Extern.slot : Extern ε → Slot (List Value → Reaction ε)
  | .value v => .value v
  | .function arity body => .function arity body

namespace Machine

variable {c : Container} {bytes : Bytes} {provide : String → Option (Extern ε)}
  {g : Global (List Value → Reaction ε)} {name : String}

/-- What a symbol stands for when nothing but the externs has been provided for. -/
def provision (provide : String → Option (Extern ε)) (symbol : GlobalSymbol) :
    Slot (List Value → Reaction ε) :=
  match provide symbol.name with
  | some e => if symbol.isExtern then e.slot else .value .nil
  | none => .value .nil

theorem provision_update_self {symbol : GlobalSymbol} (hexternal : symbol.isExtern = true)
    (provide : String → Option (Extern ε)) (e : Extern ε) :
    provision (Function.update provide symbol.name (some e)) symbol = e.slot := by
  simp only [provision, Function.update_self, if_pos hexternal]

theorem provision_update_of_ne {symbol : GlobalSymbol} (hname : symbol.name ≠ name)
    (provide : String → Option (Extern ε)) (e : Extern ε) :
    provision (Function.update provide name (some e)) symbol = provision provide symbol := by
  simp only [provision, Function.update_of_ne hname]

def provided (c : Container) (provide : String → Option (Extern ε)) : HostMachine ε :=
  { (create c : HostMachine ε) with
    globals := c.globals.map fun symbol => ⟨symbol, provision provide symbol, false⟩ }

theorem isParsed_provided (hparse : Container.parse bytes = .ok c) :
    (provided c provide).IsParsed :=
  ⟨⟨bytes, hparse⟩, by simp [provided, create, Function.comp_def]⟩

theorem provided_congr {provide' : String → Option (Extern ε)}
    (hparse : Container.parse bytes = .ok c)
    (h : ∀ name ∈ c.externs, provide name = provide' name) :
    provided c provide = provided c provide' := by
  have hindexed := (Container.parse_iff_formed.mp hparse).distinct.indexed
  simp only [provided]
  congr 1
  refine List.map_congr_left fun symbol hsymbol => ?_
  unfold provision
  cases hexternal : symbol.isExtern with
  | false => cases provide symbol.name <;> cases provide' symbol.name <;> rfl
  | true =>
    have hname : symbol.name ∈ c.externs := hindexed.externs_perm.mem_iff.mpr
      (List.mem_map_of_mem (List.mem_filter.mpr ⟨hsymbol, hexternal⟩))
    rw [h _ hname]

theorem update_provided (hparse : Container.parse bytes = .ok c)
    (hg : (provided c provide).global? name = some g) (hexternal : g.symbol.isExtern = true)
    (e : Extern ε) {f : Global (List Value → Reaction ε) → Global (List Value → Reaction ε)}
    (hf : ∀ g, g.observed = false → f g = ⟨g.symbol, e.slot, false⟩) :
    (provided c provide).update g.symbol.index f =
      provided c (Function.update provide name (some e)) := by
  have hparsed : (provided c provide).IsParsed := isParsed_provided hparse
  obtain ⟨hmem, rfl⟩ := global?_mem hg
  unfold update
  simp only [provided, List.map_map]
  congr 1
  refine List.map_congr_left fun symbol hsymbol => ?_
  let g' : Global (List Value → Reaction ε) := ⟨symbol, provision provide symbol, false⟩
  have hmem' : g' ∈ (provided c provide).globals := List.mem_map_of_mem hsymbol
  simp only [Function.comp_apply, beq_iff_eq]
  split
  · rename_i hindex
    obtain rfl : g' = g := hparsed.eq_of_index hmem' hmem hindex
    rw [hf g' rfl, provision_update_self hexternal]
  · rename_i hindex
    have hname : symbol.name ≠ g.symbol.name := by
      intro hname
      rw [← List.inj_on_of_nodup_map hparsed.nodup.1 hmem' hmem hname] at hindex
      exact hindex rfl
    rw [provision_update_of_ne hname]

theorem apply_bindChange (hparse : Container.parse bytes = .ok c) (hname : name ∈ c.externs)
    (h : Handle) (e : Extern ε) : (Externs.bindChange h name e).apply (provided c provide) =
      .ok (.flag true, provided c (Function.update provide name (some e))) := by
  have hparsed : (provided c provide).IsParsed := isParsed_provided hparse
  obtain ⟨g, hg, hexternal⟩ := hparsed.isExtern hname
  cases e with
  | value v =>
    have hset : (provided c provide).setExtern name v =
        .ok ((provided c provide).write g.symbol.index (.value v)) := by
      rw [setExtern, hg]
      simp only [hexternal, if_true, EnumDomains.checkAssignment_of_isEmpty
        (show (provided c provide).domains.isEmpty = true from rfl)]
    have hwrite : (provided c provide).write g.symbol.index (.value v) = _ :=
      update_provided hparse hg hexternal (.value v) fun g hobserved => by rw [hobserved, Extern.slot]
    simp only [Externs.bindChange, hset, hwrite, Except.map]
  | function arity body =>
    have hset : (provided c provide).setFunction name arity body =
        .ok (provided c (Function.update provide name (some (.function arity body)))) := by
      rw [setFunction, hg,
        ← update_provided hparse hg hexternal (.function arity body) fun g _ => rfl]
      exact if_pos hexternal
    simp only [Externs.bindChange, hset, Except.map]

end Machine

namespace World

variable {w : World ε} {h : Handle} {i : Nat} {inst inst' : Instance ε}

theorem setInstance_setInstance (w : World ε) (i : Nat) (inst inst' : Instance ε) :
    (w.setInstance i inst).setInstance i inst' = w.setInstance i inst' := by
  simp [setInstance]

theorem setInstance_report (w : World ε) (severity : Severity) (message : String) :
    (w.report severity message).setInstance i inst =
      (w.setInstance i inst).report severity message := by
  unfold report
  by_cases hlow : severity.rank < w.channel.threshold.rank <;> simp [setInstance, hlow]

theorem find_setInstance_self (hfind : w.find h = .ok (i, inst)) :
    (w.setInstance i inst').find h = .ok (i, inst') := by
  obtain ⟨hget, hinst⟩ := find_eq_ok hfind
  obtain ⟨hi, -⟩ := List.getElem?_eq_some_iff.mp hinst
  exact find_eq_of_get? hget (List.getElem?_set_self hi)

theorem find_report (w : World ε) (severity : Severity) (message : String) :
    (w.report severity message).find h = w.find h := by
  unfold report
  split <;> rfl

theorem find_reports (w : World ε) (severity : Severity) (message : String → String)
    (names : List String) :
    (names.foldl (fun w name => w.report severity (message name)) w).find h = w.find h := by
  induction names generalizing w with
  | nil => rfl
  | cons name names ih => exact (ih _).trans (find_report w severity (message name))

theorem find_created {c : Container} {bytes : Bytes} {callbacks : Handle → Event → Reaction ε}
    {w' : World ε} {fuel : Nat} (hs : w.arena.Sound) (hroom : w.arena.HasRoom)
    (hparse : Container.parse bytes = .ok c)
    (hexec : exec fuel (.create bytes callbacks) w = some (.created (.ok h), w')) :
    w'.find h = .ok (w.instances.length, ⟨.create c, callbacks, false, false⟩) := by
  rcases fuel with _ | fuel
  · cases hexec
  simp only [exec, open?, hparse] at hexec
  cases hexec
  exact find_eq_of_get? (Arena.get?_insert_self hs hroom) (by simp)

end World

namespace Externs

open World Machine

variable {w : World ε} {h : Handle} {i : Nat} {c : Container} {bytes : Bytes} {name : String}
  {callbacks : Handle → Event → Reaction ε} {provide : String → Option (Extern ε)}
  {entries : List (String × Extern ε)}

theorem exec_bindOperation (hparse : Container.parse bytes = .ok c) (hname : name ∈ c.externs)
    (hfind : w.find h = .ok (i, ⟨provided c provide, callbacks, false, false⟩)) (e : Extern ε)
    (fuel : Nat) : exec (fuel + 2) (bindOperation h name e) w = some (.flag true, w.setInstance i
      ⟨provided c (Function.update provide name (some e)), callbacks, false, false⟩) := by
  obtain ⟨-, hinst⟩ := find_eq_ok hfind
  rw [exec_change (change?_bindOperation h name e), handle_bindChange,
    change_of_find hfind rfl]
  have hevents : (provided c (Function.update provide name (some e))).events = [] := rfl
  simp only [apply_bindChange hparse hname, flush_after hinst rfl hevents]
  rfl

def skipping (h : Handle) (name : String) : String :=
  "Container of " ++ h.text ++ " declares no extern `" ++ name ++ "`, skipping binding"

theorem bindEntries_provided (hparse : Container.parse bytes = .ok c)
    (hnodup : (entries.map (·.1)).Nodup)
    (hfind : w.find h = .ok (i, ⟨provided c provide, callbacks, false, false⟩)) (fuel : Nat) :
    bindEntries (exec (fuel + 2)) h c.externs entries w =
      some (entries.countP (c.externs.contains ·.1),
        (entries.filter (!c.externs.contains ·.1)).foldl
          (fun w e => w.report .warn (skipping h e.1))
          (w.setInstance i
            ⟨provided c fun name => (Entries.find? name entries).or (provide name), callbacks,
              false, false⟩)) := by
  induction entries generalizing w provide with
  | nil => simp [bindEntries, Entries.find?, setInstance_self (find_eq_ok hfind).2]
  | cons entry entries ih =>
    obtain ⟨name, e⟩ := entry
    obtain ⟨hfresh, hnodup⟩ := List.nodup_cons.mp hnodup
    by_cases hname : name ∈ c.externs
    · have hset : (w.setInstance i
          ⟨provided c (Function.update provide name (some e)), callbacks, false, false⟩).find h =
          .ok (i, ⟨provided c (Function.update provide name (some e)), callbacks, false, false⟩) :=
        find_setInstance_self hfind
      have hrest := ih hnodup hset
      have hprovide : (fun n => (Entries.find? n entries).or
          (Function.update provide name (some e) n)) =
          fun n => (Entries.find? n ((name, e) :: entries)).or (provide n) := by
        funext n
        by_cases hn : n = name
        · subst hn
          simp [Entries.find?, Entries.find?_eq_none hfresh]
        · simp [Entries.find?, hn]
      rw [hprovide, setInstance_setInstance] at hrest
      rw [bindEntries, if_pos (by simpa using hname), exec_bindOperation hparse hname hfind]
      simp only [hrest, Option.map_some]
      simp [hname]
    · have hrest := ih hnodup ((find_report w .warn (skipping h name)).trans hfind)
      have hprovided : provided c (fun n => (Entries.find? n entries).or (provide n)) =
          provided c fun n => (Entries.find? n ((name, e) :: entries)).or (provide n) := by
        refine provided_congr hparse fun n hn => ?_
        have hne : n ≠ name := fun heq => hname (heq ▸ hn)
        simp [Entries.find?, hne]
      rw [hprovided, setInstance_report] at hrest
      have hskip : bindEntries (exec (fuel + 2)) h c.externs ((name, e) :: entries) w =
          bindEntries (exec (fuel + 2)) h c.externs entries (w.report .warn (skipping h name)) := by
        rw [bindEntries, if_neg (by simpa using hname)]
        rfl
      rw [hskip, hrest]
      simp [hname]

/-- A registry is bound to a new machine. Whatever the order in which its entries are visited, the
externs get what is registered under their names and all other globals stay nil; the other entries
are reported, each once, and nothing else happens. -/
theorem binds_new_machine (hparse : Container.parse bytes = .ok c)
    (hfind : w.find h = .ok (i, ⟨.create c, callbacks, false, false⟩)) (es : Externs ε) :
    c.externs.Perm ((c.globals.filter (·.isExtern)).map (·.name)) ∧
    (∀ symbol ∈ c.globals, (provided c es.get?).global? symbol.name =
      some ⟨symbol, provision es.get? symbol, false⟩) ∧
    ∀ entries, entries.Perm es.entries → ∀ fuel, ∃ (skipped : List String) (w' : World ε),
      bindEntries (exec (fuel + 2)) h c.externs entries w =
        some (es.keys.countP (c.externs.contains ·), w') ∧
      skipped.Perm (es.keys.filter (!c.externs.contains ·)) ∧
      w' = skipped.foldl (fun w name => w.report .warn (skipping h name))
        (w.setInstance i ⟨provided c es.get?, callbacks, false, false⟩) ∧
      w'.find h = .ok (i, ⟨provided c es.get?, callbacks, false, false⟩) := by
  have hindexed := (Container.parse_iff_formed.mp hparse).distinct.indexed
  have hparsed : (provided c es.get?).IsParsed := isParsed_provided hparse
  refine ⟨hindexed.externs_perm, fun symbol hsymbol => ?_, fun entries hvisit fuel => ?_⟩
  · exact hparsed.global?_of_mem (g := ⟨symbol, provision es.get? symbol, false⟩)
      (List.mem_map_of_mem hsymbol)
  · have hkeys : (entries.map (·.1)).Perm es.keys := hvisit.map _
    have hnodup : (entries.map (·.1)).Nodup := hkeys.nodup_iff.mpr es.nodup_keys
    have hprovide : (fun name => (Entries.find? name entries).or none) = es.get? := by
      funext name
      rw [Option.or_none, Entries.find?_of_perm hvisit hnodup]
      rfl
    have hnew : w.find h = .ok (i, ⟨provided c fun _ => none, callbacks, false, false⟩) := hfind
    have hbind := bindEntries_provided hparse hnodup hnew fuel
    rw [hprovide] at hbind
    refine ⟨(entries.map (·.1)).filter (!c.externs.contains ·), _, ?_, hkeys.filter _, rfl, ?_⟩
    · rw [hbind, ← hkeys.countP_eq, List.countP_map, List.filter_map, List.foldl_map]
      rfl
    · rw [find_reports, find_setInstance_self hfind]

def tavern : List Builder.Call :=
  [.externVariable "player", .externVariable "roll", .externVariable "lamp",
    .scriptVariable "score", .bough "main", .stop]

def croupier : Externs ε :=
  .ofList [("player", .value (.string "Ada")),
    ("roll", .function 1 fun args => .done (args.headD .nil)),
    ("score", .value (.bool true)), ("weather", .value (.string "rain"))]

/-- It is bound from the last name to the first. The die is there, the lamp and the score are nil,
and two messages tell of the weather and the score. -/
theorem binds_croupier : ∃ (c : Container) (h : Handle) (w w' : World (List String))
    (m : HostMachine (List String)),
    bindEntries (exec 2) h c.externs croupier.entries.reverse w = some (2, w') ∧
      w'.host = [skipping h "weather", skipping h "score"] ∧ w'.machine? h = some m ∧
        m.value "player" = .ok (.string "Ada") ∧ m.value "lamp" = .ok .nil ∧
          m.value "score" = .ok .nil ∧ (m.global? "roll").map (·.slot.isFunction) = some true := by
  let w₀ : World (List String) :=
    { World.create (fun _ _ log => log) [] with
      channel := ⟨.warn, fun _ message log => log ++ [message]⟩ }
  let h : Handle := (w₀.arena.insert 0).1
  have hrun : (do
      let bytes ← (Builder.run .offset tavern).build.toOption
      let c ← (Container.parse bytes).toOption
      let x ← exec 1 (.create bytes fun _ _ => .done .nil) w₀
      let y ← bindEntries (exec 2) h c.externs croupier.entries.reverse x.2
      return (y.1, decide (y.2.host = [skipping h "weather", skipping h "score"]), c.globals)) =
      some (2, true, [⟨"player", 0, true, true⟩, ⟨"roll", 1, true, true⟩, ⟨"lamp", 2, true, true⟩,
        ⟨"score", 3, false, true⟩]) := by
    decide +kernel
  obtain ⟨bytes, -, hrun⟩ := Option.bind_eq_some_iff.mp hrun
  obtain ⟨c, hparse, hrun⟩ := Option.bind_eq_some_iff.mp hrun
  obtain ⟨⟨r, w⟩, hcreate, hrun⟩ := Option.bind_eq_some_iff.mp hrun
  obtain ⟨⟨n, w'⟩, hbind, hrun⟩ := Option.bind_eq_some_iff.mp hrun
  rw [Except.toOption_eq_some_iff] at hparse
  simp only [pure, Option.some.injEq, Prod.mk.injEq, decide_eq_true_eq] at hrun
  obtain ⟨rfl, hhost, hsymbols⟩ := hrun
  obtain rfl : .created (.ok h) = r := by
    simp only [exec, open?, hparse, Option.some.injEq, Prod.mk.injEq] at hcreate
    exact hcreate.1
  have hroom : (Arena.empty : Arena Nat).HasRoom := show 0 < UInt32.size by decide
  have hfind := find_created (w := w₀) Arena.sound_empty hroom hparse hcreate
  obtain ⟨-, hglobals, hvisits⟩ := binds_new_machine hparse hfind croupier
  obtain ⟨skipped, w'', hbind', -, -, hfind'⟩ := hvisits _ croupier.entries.reverse_perm 0
  obtain rfl : w'' = w' := (Prod.mk.inj (Option.some.inj (hbind'.symm.trans hbind))).2
  rw [hsymbols] at hglobals
  refine ⟨c, h, w, w'', _, hbind, hhost, machine?_of_find hfind', ?_, ?_, ?_, ?_⟩
  · exact value_of_global? (hglobals ⟨"player", 0, true, true⟩ (by decide)) rfl
  · exact value_of_global? (hglobals ⟨"lamp", 2, true, true⟩ (by decide)) rfl
  · exact value_of_global? (hglobals ⟨"score", 3, false, true⟩ (by decide)) rfl
  · rw [hglobals ⟨"roll", 1, true, true⟩ (by decide)]
    rfl

end Externs

end Dialogue
