import Dialogue.Proofs.Machine.History
import Dialogue.Proofs.Machine.Sequence

namespace Dialogue.Machine

variable {φ σ : Type} {c : Container} {m m' m'' : Machine φ} {g : Global φ} {index : UInt32}
  {v : Value} {name : String} {symbol : GlobalSymbol}

def slot? (m : Machine φ) (name : String) : Option (Slot φ) := (m.global? name).map (·.slot)

abbrev HoldsValue (m : Machine φ) (name : String) : Prop := (m.held name).isNil = false

theorem held_of_slot? (h : m'.slot? name = m.slot? name) : m'.held name = m.held name := by
  rw [held, held, value_of_slots h]

theorem slot?_of_globals (h : m'.globals = m.globals) (name : String) :
    m'.slot? name = m.slot? name := by
  rw [slot?, global?, h, slot?, global?]

def Move.writes (name : String) : Move φ → Bool
  | .act (.setExtern n _) | .act (.setFunction n _ _) => n == name
  | .act (.load saved) => saved.entries.any (·.1 == name)
  | _ => false

def Entry.Writes (name : String) (e : Entry φ) : Prop :=
  e.move.writes name = true ∧ e.after.slot? name ≠ e.before.slot? name

def Entry.Takes (name : String) (e : Entry φ) : Prop :=
  e.move.isScript = true ∧ e.after.HoldsValue name ∧ e.after.slot? name ≠ e.before.slot? name

theorem IsParsed.mem_assign (hm : m.IsParsed) (hg : g ∈ m.globals) (hasks : ¬Asks g)
    (h : m.assign index v = .ok m') : g ∈ m'.globals := by
  rcases assign_cases h with rfl | ⟨e, rfl⟩ | ⟨g', hg', -, -, rfl⟩
  · exact hg
  · exact hg
  · have hne : g.symbol.index ≠ index := by
      intro hindex
      rw [assign_of_not_asks (hm.slotAt?_of_mem hg hindex) hasks] at h
      cases h
    refine List.mem_map.mpr ⟨g, hg, ?_⟩
    rw [if_neg (by simpa using hne)]

theorem IsParsed.mem_receive {ip : Nat} {dest : Option UInt32} (hm : m.IsParsed)
    (hg : g ∈ m.globals) (hasks : ¬Asks g) (h : m.receive ip dest v = .ok m') :
    g ∈ m'.globals := by
  rcases receive_cases h with rfl | ⟨index, hassign⟩
  · exact hg
  · exact hm.mem_assign hg hasks hassign

theorem Settles.mem {s : Step φ} (h : Settles m s) (hm : m.IsParsed) (hg : g ∈ m.globals)
    (hasks : ¬Asks g) : g ∈ s.machine.globals := by
  cases h with
  | skip | fault => exact hg
  | assign h => exact hm.mem_assign hg hasks h

theorem Performs.mem {s : Step φ} (h : Performs m s) (hm : m.IsParsed) (hg : g ∈ m.globals)
    (hasks : ¬Asks g) : g ∈ s.machine.globals := by
  cases h with
  | settle h => exact h.mem hm hg hasks
  | report h => exact h.mem (hm.congr rfl rfl) hg hasks
  | stop | line | offer | jump | call => exact hg

theorem IsParsed.mem_step (hm : m.IsParsed) (hg : g ∈ m.globals) (hasks : ¬Asks g) :
    g ∈ m.step.machine.globals := by
  rcases step_cases m with h | ⟨i, next, -, h⟩
  · exact h.mem hm hg hasks
  · exact h.mem (hm.congr rfl rfl) hg hasks

theorem IsParsed.mem_script {move : Move φ} (hm : m.IsParsed) (hscript : move.isScript = true)
    (h : move.Leads m m') (hg : g ∈ m.globals) (hasks : ¬Asks g) : g ∈ m'.globals := by
  cases move with
  | act a => cases hscript
  | step =>
    obtain ⟨-, rfl⟩ := h
    exact hm.mem_step hg hasks
  | answer v =>
    obtain ⟨-, m₁, k, hcall, hresult⟩ := h
    obtain ⟨ip, rfl⟩ := exists_of_step_call hcall
    have hbehind : ({ m with ip := ip } : Machine φ).IsParsed := hm.congr rfl rfl
    exact hbehind.mem_receive hg hasks hresult

theorem IsParsed.exists_constant (hm : m.IsParsed) (hsymbol : symbol ∈ m.container.globals)
    (himmutable : symbol.isMutable = false) (hheld : m.HoldsValue symbol.name) :
    ∃ g ∈ m.globals, g.symbol = symbol ∧ m.global? symbol.name = some g ∧ ¬Asks g := by
  rw [← hm.symbols] at hsymbol
  obtain ⟨g, hg, rfl⟩ := List.mem_map.mp hsymbol
  have hglobal := hm.global?_of_mem hg
  have hcurrent : g.slot.current.isNil = false := held_of_global? hglobal ▸ hheld
  exact ⟨g, hg, rfl, hglobal, by simp [Asks, himmutable, hcurrent]⟩

theorem Move.Leads.isParsed {move : Move φ} (h : move.Leads m m') (hm : m.IsParsed) :
    m'.container = m.container ∧ m'.IsParsed :=
  ⟨h.course.sameFrame.container, h.course.sameFrame.isParsed hm⟩

theorem IsParsed.slot?_script {move : Move φ} (hm : m.IsParsed)
    (hsymbol : symbol ∈ m.container.globals) (himmutable : symbol.isMutable = false)
    (hheld : m.HoldsValue symbol.name) (hscript : move.isScript = true) (h : move.Leads m m') :
    m'.slot? symbol.name = m.slot? symbol.name := by
  obtain ⟨g, hg, rfl, hglobal, hasks⟩ := hm.exists_constant hsymbol himmutable hheld
  have hglobal' := (h.isParsed hm).2.global?_of_mem (hm.mem_script hscript h hg hasks)
  rw [slot?, hglobal', slot?, hglobal]

theorem IsParsed.slot?_update (hm : m.IsParsed) {f : Global φ → Global φ}
    (hf : ∀ g, (f g).symbol = g.symbol) {n : String} (hg : m.global? n = some g)
    (hslot : n = name → (f g).slot = g.slot) :
    (m.update g.symbol.index f).slot? name = m.slot? name := by
  rw [slot?, hm.global?_update hf hg name]
  split
  · rename_i heq
    rw [slot?, heq, hg, Option.map_some, Option.map_some, hslot heq.symm]
  · rfl

theorem IsParsed.slot?_act {a : Act φ} (hm : m.IsParsed)
    (hwrites : (Move.act a).writes name = false) (h : (Move.act a).Leads m m') :
    m'.slot? name = m.slot? name := by
  obtain ⟨ended, h⟩ := h
  have hreturns {r : Except MachineError (Machine φ)}
      (hok : ∀ m', r = .ok m' → m'.slot? name = m.slot? name)
      (h : m.returns () r = some (ended, m', ())) : m'.slot? name = m.slot? name :=
    of_returns (P := fun m' => m'.slot? name = m.slot? name) rfl hok h
  cases a with
  | start bough =>
    exact hreturns (fun _ h => slot?_of_globals (sameData_start h).globals name) h
  | run =>
    have hleads : (Move.act .run).Leads m m' := ⟨ended, h⟩
    rw [hleads.eq_of_run]
  | selectContinue =>
    exact hreturns (fun _ h => slot?_of_globals (sameData_selectContinue h).globals name) h
  | selectChoice index =>
    exact hreturns (fun _ h => slot?_of_globals (sameData_selectChoice h).globals name) h
  | setExtern n v =>
    have hne : n ≠ name := beq_eq_false_iff_ne.mp hwrites
    refine hreturns (fun m' h => ?_) h
    have hprimed : Primed (· = n) (fun _ => True) m m' := primed_setExtern hm h
    exact hprimed.slot name (Ne.symm hne)
  | setFunction n arity body =>
    have hne : n ≠ name := beq_eq_false_iff_ne.mp hwrites
    refine hreturns (fun m' h => ?_) h
    obtain ⟨g, hg, rfl⟩ := setFunction_eq_ok h
    exact hm.slot?_update (f := fun g => { g with slot := .function arity body, observed := false })
      (fun _ => rfl) hg fun heq => absurd heq hne
  | subscribe n =>
    refine hreturns (fun m' h => ?_) h
    have hprimed : Primed (fun _ => False) (· = n) m m' := primed_subscribe hm h
    exact hprimed.slot name id
  | unsubscribe n =>
    cases h
    rcases unsubscribe_cases m n with hsame | ⟨g, hg, hupdate⟩
    · rw [hsame]
    · rw [hupdate]
      exact hm.slot?_update (f := fun g => { g with observed := false }) (fun _ => rfl) hg
        fun _ => rfl
  | value n =>
    refine hreturns (fun m' h => ?_) h
    obtain ⟨_, -, rfl⟩ := Except.map_eq_ok_iff.mp h
    rfl
  | load saved =>
    cases h
    have hnot : name ∉ saved.entries.map (·.1) := by
      intro hmem
      obtain ⟨entry, hentry, rfl⟩ := List.mem_map.mp hmem
      simp only [Move.writes, List.any_eq_false, beq_iff_eq] at hwrites
      exact hwrites entry hentry rfl
    have hprimed : Primed (· ∈ saved.entries.map (·.1)) (fun _ => True) m (m.load saved).1 :=
      primed_loadEntries hm saved.entries
    exact hprimed.slot name hnot
  | halt | declareEnum | save | takeEvents | takeDiagnostics =>
    cases h
    rfl

variable {es : List (Entry φ)} {e : Entry φ}

theorem IsParsed.slot?_entry (hm : m.IsParsed) (hsymbol : symbol ∈ m.container.globals)
    (himmutable : symbol.isMutable = false) (hheld : m.HoldsValue symbol.name) {move : Move φ}
    (h : move.Leads m m') (hwrites : ¬Entry.Writes symbol.name ⟨m, move, m'⟩) :
    m'.slot? symbol.name = m.slot? symbol.name := by
  cases hscript : move.isScript with
  | true => exact hm.slot?_script hsymbol himmutable hheld hscript h
  | false =>
    cases move with
    | step | answer => cases hscript
    | act a =>
      cases hact : (Move.act a).writes symbol.name with
      | false => exact hm.slot?_act hact h
      | true => exact not_not.mp fun hne => hwrites ⟨hact, hne⟩

theorem IsParsed.slot?_history (hm : m.IsParsed) (hsymbol : symbol ∈ m.container.globals)
    (himmutable : symbol.isMutable = false) (hheld : m.HoldsValue symbol.name)
    (h : History m es m') (hwrites : ∀ e ∈ es, ¬e.Writes symbol.name) :
    m'.slot? symbol.name = m.slot? symbol.name ∧ ∀ e ∈ es, ¬e.Takes symbol.name := by
  induction es generalizing m with
  | nil =>
    cases h.of_nil
    exact ⟨rfl, List.forall_mem_nil _⟩
  | cons e es ih =>
    obtain ⟨rfl, hleads, hrest⟩ := h.of_cons
    obtain ⟨hfirst, hwrites⟩ := List.forall_mem_cons.mp hwrites
    obtain ⟨hcontainer, hparsed⟩ := hleads.isParsed hm
    have hslot := hm.slot?_entry hsymbol himmutable hheld hleads hfirst
    have hafter : e.after.HoldsValue symbol.name := by
      rwa [HoldsValue, held_of_slot? hslot]
    obtain ⟨hslots, htakes⟩ := ih hparsed (hcontainer ▸ hsymbol) hafter hrest hwrites
    exact ⟨hslots.trans hslot, List.forall_mem_cons.mpr ⟨fun h => h.2.2 hslot, htakes⟩⟩

theorem IsParsed.takes_once (hm : m.IsParsed) (hsymbol : symbol ∈ m.container.globals)
    (himmutable : symbol.isMutable = false) (h : History m es m')
    (hwrites : ∀ e ∈ es, ¬e.Writes symbol.name) :
    es.Pairwise fun e e' => ¬(e.Takes symbol.name ∧ e'.Takes symbol.name) := by
  induction es generalizing m with
  | nil => exact .nil
  | cons e es ih =>
    obtain ⟨rfl, hleads, hrest⟩ := h.of_cons
    have hlater := (List.forall_mem_cons.mp hwrites).2
    obtain ⟨hcontainer, hparsed⟩ := hleads.isParsed hm
    rw [← hcontainer] at hsymbol
    refine .cons (fun e' he' htakes => ?_) (ih hparsed hsymbol hrest hlater)
    have hkept := (hparsed.slot?_history hsymbol himmutable htakes.1.2.1 hrest hlater).2
    exact hkept e' he' htakes.2

/-- The instruction at which the machine stands comes to assign the value to the global: it sets it,
or it calls a function that there is not, which gives nil, or it calls a function of the host that
answers so. -/
inductive Attempts (host : φ → List Value → σ → Option (HostResult × σ)) (index : UInt32)
    (m : Machine φ) (s : σ) : Value → σ → Prop
  | set {v : Value} {next : Nat} (inside : m.ip < m.container.code.size)
    (instruction : m.container.instruction m.ip = .ok (.set index v, next)) :
    Attempts host index m s v s
  | unanswered {f : UInt32} {args : List Value} {next : Nat} {g : Global φ}
    (inside : m.ip < m.container.code.size)
    (instruction : m.container.instruction m.ip = .ok (.call f args (some index), next))
    (found : m.slotAt? f = some g) (slot : ∀ body, g.slot ≠ .function args.length body) :
    Attempts host index m s .nil s
  | answered {f : UInt32} {args : List Value} {next : Nat} {g : Global φ} {body : φ} {v : Value}
    {s' : σ} (inside : m.ip < m.container.code.size)
    (instruction : m.container.instruction m.ip = .ok (.call f args (some index), next))
    (found : m.slotAt? f = some g) (slot : g.slot = .function args.length body)
    (answer : host body args s = some (.value v, s')) : Attempts host index m s v s'

variable {host : φ → List Value → σ → Option (HostResult × σ)} {s s' : σ}

theorem receive_of_not_asks (hg : m.slotAt? index = some g) (hasks : ¬Asks g) (ip : Nat)
    (v : Value) : m.receive ip (some index) v = .error (.fault ip (.immutable g.symbol.name)) := by
  rw [receive, assign_of_not_asks hg hasks]
  rfl

theorem settle_of_not_asks (hg : m.slotAt? index = some g) (hasks : ¬Asks g) (ip : Nat)
    (v : Value) : m.settle ip (some index) v = .fault m (.fault ip (.immutable g.symbol.name)) := by
  rw [settle, receive_of_not_asks hg hasks]

theorem perform_unanswered {f : UInt32} {args : List Value} (hg : m.slotAt? f = some g)
    (hslot : ∀ body, g.slot ≠ .function args.length body) (ip : Nat) (dest : Option UInt32) :
    ∃ e, m.perform ip (.call f args dest) = (m.diagnose e).settle ip dest .nil := by
  simp only [perform, hg]
  cases hcase : g.slot with
  | value u => exact ⟨_, rfl⟩
  | function arity body =>
    have harity : args.length ≠ arity := by
      rintro rfl
      exact hslot body hcase
    exact ⟨.arityMismatch g.symbol.name arity args.length, if_neg harity⟩

theorem perform_answered {f : UInt32} {args : List Value} {body : φ} (hg : m.slotAt? f = some g)
    (hslot : g.slot = .function args.length body) (ip : Nat) (dest : Option UInt32) :
    m.perform ip (.call f args dest) = .call m ⟨body, args, ip, dest⟩ := by
  rw [perform, hg]
  simp only [hslot, if_true]

structure Unchanged (m m' : Machine φ) : Prop where
  state : m'.state = .faulted
  globals : m'.globals = m.globals
  events : m'.events = m.events

theorem run_of_step_fault {e : MachineError} (hstate : m.state = .running)
    (hstep : m.step = .fault m' e) (fuel : Nat) :
    m.run host (fuel + 1) s = some (.error e, m'.halt, s) := by
  rw [run_of_running hstate, steps, if_pos hstate, hstep]

theorem Attempts.run (h : Attempts host index m s v s') (hstate : m.state = .running)
    (hg : m.slotAt? index = some g) (hasks : ¬Asks g) (fuel : Nat) :
    ∃ m', m.run host (fuel + 1) s =
      some (.error (.fault m.ip (.immutable g.symbol.name)), m', s') ∧ m.Unchanged m' := by
  cases h with
  | set inside instruction =>
    have hstep := step_of_not_asks inside instruction hg hasks
    exact ⟨_, run_of_step_fault hstate hstep fuel, rfl, rfl, rfl⟩
  | @unanswered f args next callee inside instruction found slot =>
    obtain ⟨e, hperform⟩ :=
      perform_unanswered (m := { m with ip := next }) found slot m.ip (some index)
    have hsettle :=
      settle_of_not_asks (m := Machine.diagnose { m with ip := next } e) hg hasks m.ip .nil
    have hstep := (step_of_instruction inside instruction).trans (hperform.trans hsettle)
    exact ⟨_, run_of_step_fault hstate hstep fuel, rfl, rfl, rfl⟩
  | @answered f args next callee body v s' inside instruction found slot answer =>
    have hstep := (step_of_instruction inside instruction).trans
      (perform_answered (m := { m with ip := next }) found slot m.ip (some index))
    have hreceive := receive_of_not_asks (m := { m with ip := next }) hg hasks m.ip v
    refine ⟨Machine.halt { m with ip := next }, ?_, rfl, rfl, rfl⟩
    rw [run_of_running hstate, steps, if_pos hstate, hstep]
    simp only [answer, hreceive]

/-- What being immutable means for a global of a machine. -/
structure Constant (symbol : GlobalSymbol) (m : Machine φ) : Prop where
  keeps : ∀ {move : Move φ} {m'}, move.isScript = true → move.Leads m m' →
    m.HoldsValue symbol.name → m'.slot? symbol.name = m.slot? symbol.name
  /-- Whatever the value is that the script would assign. -/
  faults : ∀ {σ : Type} {host : φ → List Value → σ → Option (HostResult × σ)} {s s' : σ}
    {v : Value}, m.state = .running → m.HoldsValue symbol.name →
    Attempts host symbol.index m s v s' → ∀ fuel, ∃ m', m.run host (fuel + 1) s =
      some (.error (.fault m.ip (.immutable symbol.name)), m', s') ∧ m.Unchanged m'
  stays : ∀ {es m'}, History m es m' → (∀ e ∈ es, ¬e.Writes symbol.name) →
    m.HoldsValue symbol.name →
    m'.slot? symbol.name = m.slot? symbol.name ∧ ∀ e ∈ es, ¬e.Takes symbol.name
  once : ∀ {es m'}, History m es m' → (∀ e ∈ es, ¬e.Writes symbol.name) →
    es.Pairwise fun e e' => ¬(e.Takes symbol.name ∧ e'.Takes symbol.name)
  /-- No other act of the host is a write. -/
  others : ∀ {a : Act φ} {m'}, (Move.act a).Leads m m' → (Move.act a).writes symbol.name = false →
    m'.slot? symbol.name = m.slot? symbol.name
  /-- All that is done with a machine are such moves. -/
  acts : ∀ {σ : Type} {host : φ → List Value → σ → Option (HostResult × σ)} {fuel : Nat} {s s' : σ}
    {a : Act φ} {ended : RunEnd} {m'}, a.perform host fuel m s = some (ended, m', s') →
    (Move.act a).Leads m m' ∨
      a = .run ∧ m.state = .running ∧ ∃ es, History m es m' ∧ ∀ e ∈ es, e.move.ofRun

theorem constant_of_reachable {bytes : Bytes} (hparse : Container.parse bytes = .ok c)
    (hm : Reachable c m) (hsymbol : symbol ∈ c.globals) (himmutable : symbol.isMutable = false) :
    Constant symbol m := by
  obtain ⟨rfl, hparsed⟩ := isParsed_of_reachable hparse hm
  refine ⟨fun hscript h hheld => hparsed.slot?_script hsymbol himmutable hheld hscript h, ?_,
    fun h hwrites hheld => hparsed.slot?_history hsymbol himmutable hheld h hwrites,
    hparsed.takes_once hsymbol himmutable, fun h hwrites => hparsed.slot?_act hwrites h,
    exists_history_perform⟩
  intro σ host s s' v hstate hheld hattempt fuel
  obtain ⟨g, hg, rfl, -, hasks⟩ := hparsed.exists_constant hsymbol himmutable hheld
  exact hattempt.run hstate (hparsed.slotAt?_of_mem hg rfl) hasks fuel

def oath : List Builder.Call :=
  [.constant "sworn", .externVariable "swear", .bough "main", .call 1 [] (some 0), .stop,
    .bough "again", .set 0 (.bool true), .stop]

theorem constant_oath : ∃ (c : Container) (symbol : GlobalSymbol) (m : Machine Unit),
    Reachable c m ∧ symbol ∈ c.globals ∧ symbol.isMutable = false ∧ Constant symbol m ∧
      m.HoldsValue symbol.name ∧
      ∀ fuel, ∃ m', m.run (fun _ _ _ => none) (fuel + 1) () =
        some (.error (.fault m.ip (.immutable symbol.name)), m', ()) ∧ m.Unchanged m' := by
  have hbuild : ((Builder.run .offset oath).build.map Array.size) = .ok 112 := by decide +kernel
  obtain ⟨bytes, hbuild, hsize⟩ := Except.map_eq_ok_iff.mp hbuild
  have hparse := Builder.parse_run (by decide) (by decide) (by decide +kernel) (by decide)
    (by rw [← hsize]; decide) hbuild
  rw [← hsize] at hparse
  let c := Builder.assembled .offset oath 112
  let host : Unit → List Value → Unit → Option (HostResult × Unit) :=
    fun _ _ s => some (.value (.bool true), s)
  have hplay : ((create c : Machine Unit).setFunction "swear" 0 ()).bind (fun m =>
      (m.start "main").map fun m => (m.run host 4 ()).map fun r =>
        (r.2.1.start "again").map fun m => (m.ip, m.state, (m.held "sworn").isNil)) =
          .ok (some (.ok (11, .running, false))) := by
    decide +kernel
  obtain ⟨m₀, hset, hplay⟩ := Except.bind_eq_ok_iff.mp hplay
  obtain ⟨m₁, hstart, hplay⟩ := Except.map_eq_ok_iff.mp hplay
  obtain ⟨⟨ended, m₂, s⟩, hrun, hplay⟩ := Option.map_eq_some_iff.mp hplay.symm
  obtain ⟨m, hagain, hends⟩ := Except.map_eq_ok_iff.mp hplay
  simp only [Prod.mk.injEq] at hends
  obtain ⟨hip, hstate, hheld⟩ := hends
  have hm : Reachable c m := .start (.run (.start (.setFunction .create hset) hstart) hrun) hagain
  have hcontainer : m.container = c := (course_of_reachable hm).sameFrame.container
  let symbol : GlobalSymbol := ⟨"sworn", 0, false, false⟩
  have hsymbol : symbol ∈ c.globals := by decide +kernel
  have hconstant := constant_of_reachable hparse hm hsymbol rfl
  have hattempt : Attempts (fun _ _ _ => none) symbol.index m () (.bool true) () := by
    have hinstruction : m.container.instruction m.ip = .ok (.set 0 (.bool true), 18) := by
      rw [hcontainer, ← hip]
      rfl
    refine .set ?_ hinstruction
    rw [hcontainer, ← hip]
    decide +kernel
  have hholds : m.HoldsValue symbol.name := hheld.symm
  have hfaults := hconstant.faults hstate.symm hholds hattempt
  exact ⟨c, symbol, m, hm, hsymbol, rfl, hconstant, hholds, hfaults⟩

end Dialogue.Machine
