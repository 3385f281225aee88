import Dialogue.Proofs.Machine.Moves

/-!
Sequential domains over a whole history. Whoever assigns, the script or the host, the domains are
asked with the value that is replaced; so a global moves on along the stages of a domain and not
back, as long as it holds nothing else in between and the domain is not declared again.
-/

namespace Dialogue

theorem EnumDomain.index?_isSome_iff {d : EnumDomain} {member : String} :
    (d.index? member).isSome = true ↔ member ∈ d.members := by
  simp [index?]

theorem EnumDomain.mem_of_index? {d : EnumDomain} {member : String} {i : Nat}
    (h : d.index? member = some i) : member ∈ d.members := by
  rw [← index?_isSome_iff, h]
  rfl

theorem EnumDomain.check_eq (d : EnumDomain) (member : String) : d.check ⟨d.name, member⟩ =
    match d.index? member with
    | some i => .ok i
    | none => .error (.notInDomain d.name member) := by
  cases hi : d.index? member <;> simp [check, hi]

theorem EnumDomain.checkTransition_eq_ok_iff {d : EnumDomain} (hsequential : d.sequential = true)
    {current : Option EnumValue} {member : String} :
    d.checkTransition current ⟨d.name, member⟩ = .ok () ↔ ∃ j, d.index? member = some j ∧
      ∀ a, current = some ⟨d.name, a⟩ → ∀ i, d.index? a = some i → i ≤ j := by
  rw [checkTransition, check_eq, hsequential]
  cases hj : d.index? member with
  | none => simp [bind, Except.bind]
  | some j =>
    simp only [bind, Except.bind, if_true, Option.some.injEq, exists_eq_left']
    cases current with
    | none => simp [pure, Except.pure]
    | some e =>
      obtain ⟨type, a⟩ := e
      by_cases htype : type = d.name
      · subst htype
        cases hi : d.index? a with
        | none => simp [hi, pure, Except.pure]
        | some i =>
          by_cases hback : j < i
          · simp [hi, hback]
          · simp [hi, hback, pure, Except.pure]
            omega
      · simp [htype, pure, Except.pure]

theorem EnumDomains.checkAssignment_eq_ok_iff {ds : EnumDomains} {d : EnumDomain}
    (hd : ds.get? d.name = some d) (hsequential : d.sequential = true) {current : Value}
    {member : String} : ds.checkAssignment current (.enum ⟨d.name, member⟩) = .ok () ↔
      ∃ j, d.index? member = some j ∧
        ∀ a, current = .enum ⟨d.name, a⟩ → ∀ i, d.index? a = some i → i ≤ j := by
  simp only [checkAssignment, hd, EnumDomain.checkTransition_eq_ok_iff hsequential]
  cases current <;> simp

namespace Machine

variable {φ σ : Type} {allowed : EnumDomain → Prop} {c : Container} {m m' m'' : Machine φ}
  {name n : String} {v : Value}

/-- At most one global takes a value, which the domains have admitted in place of that it held. -/
inductive Stores (m m' : Machine φ) : Prop
  | none (globals : m'.globals = m.globals)
  | one (g : Global φ) (mem : g ∈ m.globals) (v : Value)
    (admitted : m.domains.checkAssignment g.slot.current v = .ok ())
    (globals : m'.globals = (m.write g.symbol.index (.value v)).globals)

theorem Stores.of_sameData (h : SameData m m') (h' : Stores m' m'') : Stores m m'' := by
  obtain ⟨-, hglobals, hdomains⟩ := h
  cases h' with
  | none globals => exact .none (globals.trans hglobals)
  | one g mem v admitted globals =>
    refine .one g (hglobals ▸ mem) v (hdomains ▸ admitted) (globals.trans ?_)
    rw [write, update, hglobals, write, update]

theorem stores_assign {index : UInt32} (h : m.assign index v = .ok m') : Stores m m' := by
  rcases assign_cases h with rfl | ⟨e, rfl⟩ | ⟨g, hg, hadmitted, -, rfl⟩
  · exact .none rfl
  · exact .none rfl
  · obtain ⟨hmem, rfl⟩ := slotAt?_mem hg
    exact .one g hmem v hadmitted rfl

theorem stores_receive {ip : Nat} {dest : Option UInt32} (h : m.receive ip dest v = .ok m') :
    Stores m m' := by
  rcases receive_cases h with rfl | ⟨index, hassign⟩
  · exact .none rfl
  · exact stores_assign hassign

theorem Settles.stores {s : Step φ} (h : Settles m s) : Stores m s.machine := by
  cases h with
  | skip | fault => exact .none rfl
  | assign h => exact stores_assign h

theorem Performs.stores {s : Step φ} (h : Performs m s) : Stores m s.machine := by
  cases h with
  | settle h => exact h.stores
  | report h =>
    have hdiagnose (e : MachineError) : SameData m (m.diagnose e) := ⟨rfl, rfl, rfl⟩
    exact .of_sameData (hdiagnose _) h.stores
  | stop | line | offer | jump | call => exact .none rfl

theorem stores_step (m : Machine φ) : Stores m m.step.machine := by
  rcases step_cases m with h | ⟨i, next, -, h⟩
  · exact h.stores
  · have hbehind : SameData m { m with ip := next } := ⟨rfl, rfl, rfl⟩
    exact .of_sameData hbehind h.stores

theorem Performs.call_eq {k : HostCall φ} (h : Performs m (.call m' k)) : m' = m := by
  cases h with
  | settle h | report h => cases h
  | call => rfl

theorem exists_of_step_call {k : HostCall φ} (h : m.step = .call m' k) :
    ∃ ip, m' = { m with ip := ip } := by
  rcases step_cases m with hstep | ⟨i, next, -, hstep⟩
  · rw [h] at hstep
    exact ⟨m.ip, hstep.call_eq⟩
  · rw [h] at hstep
    exact ⟨next, hstep.call_eq⟩

theorem stores_answer {k : HostCall φ} (hcall : m.step = .call m' k)
    (hresult : m'.receive k.ip k.dest v = .ok m'') : Stores m m'' := by
  obtain ⟨next, rfl⟩ := exists_of_step_call hcall
  have hbehind : SameData m { m with ip := next } := ⟨rfl, rfl, rfl⟩
  exact .of_sameData hbehind (stores_receive hresult)

theorem stores_setExtern (h : m.setExtern name v = .ok m') : Stores m m' := by
  obtain ⟨g, hg, hadmitted, rfl⟩ := setExtern_eq_ok h
  exact .one g (global?_mem hg).1 v hadmitted rfl

theorem stores_loadEntry (m : Machine φ) (name : String) (j : Json) :
    Stores m (m.loadEntry name j).1 := by
  rcases loadEntry_cases m name j with h | ⟨e, h⟩ | ⟨g, v, hg, hadmitted, h⟩ <;> rw [h]
  · exact .none rfl
  · exact .none rfl
  · exact .one g (global?_mem hg).1 v hadmitted rfl

def held (m : Machine φ) (name : String) : Value :=
  match m.value name with
  | .ok v => v
  | .error _ => .nil

theorem held_of_value (h : m.value name = .ok v) : m.held name = v := by
  rw [held, h]

theorem held_of_global? {g : Global φ} (h : m.global? name = some g) :
    m.held name = g.slot.current := by
  simp only [held, value, h]
  cases g.slot <;> rfl

theorem value_of_globals (h : m'.globals = m.globals) (n : String) : m'.value n = m.value n := by
  rw [value, global?, h, value, global?]

theorem Stores.admits (hm : m.IsParsed) (h : Stores m m') (hv : m'.value n = .ok v) :
    m.value n = .ok v ∨ m.domains.checkAssignment (m.held n) v = .ok () := by
  cases h with
  | none globals => exact .inl (value_of_globals globals n ▸ hv)
  | one g mem w admitted globals =>
    have hg := hm.global?_of_mem mem
    have hglobal? := hm.global?_write hg (.value w) n
    rw [value_of_globals globals n] at hv
    by_cases hn : n = g.symbol.name
    · subst hn
      rw [if_pos rfl] at hglobal?
      rw [value_of_global? hglobal? rfl] at hv
      cases hv
      exact .inr (held_of_global? hg ▸ admitted)
    · rw [if_neg hn] at hglobal?
      left
      rwa [← value_of_slots (congrArg _ hglobal?)]

theorem IsParsed.value_setFunction {arity : Nat} {body : φ} (hm : m.IsParsed)
    (h : m.setFunction name arity body = .ok m') (hv : m'.value n = .ok v) :
    m.value n = .ok v := by
  obtain ⟨g, hg, rfl⟩ := setFunction_eq_ok h
  have hglobal? := hm.global?_update (f := fun g =>
    { g with slot := .function arity body, observed := false }) (fun _ => rfl) hg n
  by_cases hn : n = name
  · rw [if_pos hn] at hglobal?
    simp [value, hglobal?] at hv
  · rw [if_neg hn] at hglobal?
    rwa [← value_of_slots (congrArg _ hglobal?)]

theorem IsParsed.value_unsubscribe (hm : m.IsParsed) (name n : String) :
    (m.unsubscribe name).value n = m.value n := by
  rcases unsubscribe_cases m name with h | ⟨g, hg, h⟩ <;> rw [h]
  refine value_of_slots ?_
  rw [hm.global?_update (f := fun g => { g with observed := false }) (fun _ => rfl) hg n]
  split
  · rename_i hn
    rw [hn, hg]
    rfl
  · rfl

theorem Moves.admits (hm : m.IsParsed) (h : Moves allowed m m') (hv : m'.value n = .ok v) :
    m.value n = .ok v ∨ m.domains.checkAssignment (m.held n) v = .ok () := by
  have hsame (h : SameData m m') : m.value n = .ok v := value_of_globals h.globals n ▸ hv
  cases h with
  | start h => exact .inl (hsame (sameData_start h))
  | step => exact (stores_step m).admits hm hv
  | answer _ hcall hresult => exact (stores_answer hcall hresult).admits hm hv
  | selectContinue h => exact .inl (hsame (sameData_selectContinue h))
  | selectChoice h => exact .inl (hsame (sameData_selectChoice h))
  | setExtern h => exact (stores_setExtern h).admits hm hv
  | setFunction h => exact .inl (hm.value_setFunction h hv)
  | subscribe h => exact .inl (value_subscribe hm h n ▸ hv)
  | unsubscribe => exact .inl (hm.value_unsubscribe _ n ▸ hv)
  | loadEntry => exact (stores_loadEntry m _ _).admits hm hv
  | halt | declareEnum | save | takeEvents | takeDiagnostics => exact .inl hv

theorem domains_setFunction {arity : Nat} {body : φ} (h : m.setFunction name arity body = .ok m') :
    m'.domains = m.domains := by
  obtain ⟨g, -, rfl⟩ := setFunction_eq_ok h
  rfl

theorem domains_unsubscribe (m : Machine φ) (name : String) :
    (m.unsubscribe name).domains = m.domains := by
  rcases unsubscribe_cases m name with h | ⟨g, -, h⟩
  · rw [h]
  · rw [h]
    rfl

theorem Moves.domains (h : Moves allowed m m') :
    m'.domains = m.domains ∨ ∃ d, allowed d ∧ m'.domains = m.domains.declare d := by
  cases h with
  | start h => exact .inl (sameData_start h).domains
  | step => exact .inl (progress_step m).domains
  | answer _ hcall hresult => exact .inl (progress_answer hcall hresult).domains
  | selectContinue h => exact .inl (sameData_selectContinue h).domains
  | selectChoice h => exact .inl (sameData_selectChoice h).domains
  | setExtern h => exact .inl (domains_setExtern h)
  | setFunction h => exact .inl (domains_setFunction h)
  | subscribe h => exact .inl (domains_subscribe h)
  | unsubscribe => exact .inl (domains_unsubscribe m _)
  | @declareEnum d h => exact .inr ⟨d, h, rfl⟩
  | loadEntry => exact .inl (domains_loadEntry m _ _)
  | halt | save | takeEvents | takeDiagnostics => exact .inl rfl

/-- Moves that do not declare the domain again. -/
abbrev Later (d : EnumDomain) : Machine φ → Machine φ → Prop := Moves (·.name ≠ d.name)

variable {d : EnumDomain} {m₀ : Machine φ}

theorem Moves.declared (h : Later d m m') (hd : m.domains.get? d.name = some d) :
    m'.domains.get? d.name = some d := by
  rcases h.domains with hsame | ⟨d', hne, hdeclare⟩
  · rw [hsame, hd]
  · rw [hdeclare, EnumDomains.declare, Table.get?_insert_of_ne _ (Ne.symm hne), hd]

theorem course_declared (h : Relation.ReflTransGen (Later d) m m')
    (hd : m.domains.get? d.name = some d) : m'.domains.get? d.name = some d := by
  induction h with
  | refl => exact hd
  | tail _ hmove ih => exact hmove.declared ih

theorem Moves.stage {b : String} (hm : m.IsParsed) (hd : m.domains.get? d.name = some d)
    (hsequential : d.sequential = true) (h : Moves allowed m m')
    (hv : m'.value n = .ok (.enum ⟨d.name, b⟩)) :
    m.value n = .ok (.enum ⟨d.name, b⟩) ∨ ∃ j, d.index? b = some j ∧
      ∀ a, m.value n = .ok (.enum ⟨d.name, a⟩) → ∀ i, d.index? a = some i → i ≤ j := by
  refine (h.admits hm hv).imp_right fun hadmitted => ?_
  obtain ⟨j, hj, hle⟩ := (EnumDomains.checkAssignment_eq_ok_iff hd hsequential).mp hadmitted
  exact ⟨j, hj, fun a ha => hle a (held_of_value ha)⟩

abbrev Stretch (d : EnumDomain) (n : String) : Machine φ → Machine φ → Prop :=
  Relation.ReflTransGen fun m m' => Later d m m' ∧ ∃ b, m'.value n = .ok (.enum ⟨d.name, b⟩)

theorem stretch_stage {a : String} {i : Nat} (hm : m.IsParsed)
    (hd : m.domains.get? d.name = some d) (hsequential : d.sequential = true)
    (h : Stretch d n m m') (ha : m.value n = .ok (.enum ⟨d.name, a⟩)) (hi : d.index? a = some i) :
    ∃ b j, m'.value n = .ok (.enum ⟨d.name, b⟩) ∧ d.index? b = some j ∧ i ≤ j := by
  have hcourse {m' : Machine φ} (h : Stretch d n m m') : Relation.ReflTransGen (Later d) m m' :=
    Relation.ReflTransGen.mono (fun _ _ hmove => hmove.1) _ _ h
  -- The stage that is held is always a member and not before the first.
  induction h with
  | refl => exact ⟨a, i, ha, hi, Nat.le_refl i⟩
  | @tail m₁ m₂ hstretch hmove ih =>
    obtain ⟨b, j, hb, hj, hle⟩ := ih
    obtain ⟨hlater, b', hb'⟩ := hmove
    have hm₁ := (Course.sameFrame (hcourse hstretch)).isParsed hm
    have hd₁ := course_declared (hcourse hstretch) hd
    rcases hlater.stage hm₁ hd₁ hsequential hb' with hsame | ⟨j', hj', hforward⟩
    · rw [hb] at hsame
      cases hsame
      exact ⟨b, j, hb', hj, hle⟩
    · exact ⟨b', j', hb', hj', Nat.le_trans hle (hforward b hb j hj)⟩

theorem course_member {b : String} (hm₀ : m₀.IsParsed) (hd : m₀.domains.get? d.name = some d)
    (hsequential : d.sequential = true) (h : Relation.ReflTransGen (Later d) m₀ m)
    (hb : m.value n = .ok (.enum ⟨d.name, b⟩)) : b ∈ d.members ∨
      Relation.ReflTransGen (fun m m' => Later d m m' ∧ m'.value n = m.value n) m₀ m := by
  induction h with
  | refl => exact .inr .refl
  | tail hcourse hmove ih =>
    have hm₁ := (Course.sameFrame hcourse).isParsed hm₀
    have hd₁ := course_declared hcourse hd
    rcases hmove.stage hm₁ hd₁ hsequential hb with hsame | ⟨j, hj, -⟩
    · exact (ih hsame).imp_right fun hheld => hheld.tail ⟨hmove, hb.trans hsame.symm⟩
    · exact .inl (EnumDomain.mem_of_index? hj)

/-- Whether the domains are asked about an assignment of the script: a constant that holds a value
takes no other, whatever it is. -/
def Asks (g : Global φ) : Prop := g.symbol.isMutable = true ∨ g.slot.current.isNil = true

variable {index : UInt32} {g : Global φ} {cause : ValueError}

theorem assign_of_refused (hg : m.slotAt? index = some g) (hasks : Asks g)
    (hrefused : m.domains.checkAssignment g.slot.current v = .error cause) :
    m.assign index v = .ok (m.diagnose (.value g.symbol.name cause)) := by
  have hopen : ¬(!g.symbol.isMutable && !g.slot.current.isNil) = true := by
    rcases hasks with h | h <;> simp [h]
  unfold assign
  rw [hg]
  simp only [hopen, hrefused]
  rfl

theorem assign_of_not_asks (hg : m.slotAt? index = some g) (hasks : ¬Asks g) :
    m.assign index v = .error (.immutable g.symbol.name) := by
  simp only [Asks, not_or, Bool.not_eq_true] at hasks
  unfold assign
  rw [hg]
  simp [hasks.1, hasks.2]

theorem step_of_instruction {i : Instruction} {next : Nat} (hip : m.ip < m.container.code.size)
    (hi : m.container.instruction m.ip = .ok (i, next)) :
    m.step = { m with ip := next }.perform m.ip i := by
  rw [step, if_neg (Nat.not_le.mpr hip), hi]

theorem step_of_refused {next : Nat} (hip : m.ip < m.container.code.size)
    (hi : m.container.instruction m.ip = .ok (.set index v, next))
    (hg : m.slotAt? index = some g) (hasks : Asks g)
    (hrefused : m.domains.checkAssignment g.slot.current v = .error cause) :
    m.step = .next ({ m with ip := next }.diagnose (.value g.symbol.name cause)) := by
  have hassign := assign_of_refused (m := { m with ip := next }) hg hasks hrefused
  rw [step_of_instruction hip hi, perform, settle, receive, hassign]
  rfl

theorem step_of_not_asks {next : Nat} (hip : m.ip < m.container.code.size)
    (hi : m.container.instruction m.ip = .ok (.set index v, next))
    (hg : m.slotAt? index = some g) (hasks : ¬Asks g) :
    m.step = .fault { m with ip := next } (.fault m.ip (.immutable g.symbol.name)) := by
  have hassign := assign_of_not_asks (m := { m with ip := next }) (v := v) hg hasks
  rw [step_of_instruction hip hi, perform, settle, receive, hassign]
  rfl

theorem answer_of_refused {k : HostCall φ} (hcall : m.step = .call m' k)
    (hdest : k.dest = some index) (hg : m.slotAt? index = some g) (hasks : Asks g)
    (hrefused : m.domains.checkAssignment g.slot.current v = .error cause) :
    ∃ next, m' = { m with ip := next } ∧
      m'.receive k.ip k.dest v = .ok (m'.diagnose (.value g.symbol.name cause)) := by
  obtain ⟨next, rfl⟩ := exists_of_step_call hcall
  have hassign := assign_of_refused (m := { m with ip := next }) hg hasks hrefused
  refine ⟨next, rfl, ?_⟩
  rw [hdest, receive, hassign]
  rfl

theorem setExtern_of_refused (hg : m.global? name = some g) (hprovided : g.symbol.isExtern = true)
    (hrefused : m.domains.checkAssignment g.slot.current v = .error cause) :
    m.setExtern name v = .error (.value name cause) := by
  simp only [setExtern, hg, hprovided, if_true, hrefused]

theorem loadEntry_of_refused {j : Json} (hg : m.global? name = some g)
    (hvalue : g.slot.isFunction = false) (hj : Value.ofJson j = .ok v)
    (hrefused : m.domains.checkAssignment g.slot.current v = .error cause) :
    m.loadEntry name j = (m.diagnose (.snapshotEntry name cause), false) := by
  simp only [loadEntry, hg, hvalue, hj, bind, Except.bind, hrefused]
  rfl

/-- What becomes of a value that the domains refuse. The global keeps its value, one error tells
why, and the script goes on: with the next instruction, or with what follows the call. -/
structure Refuses (m : Machine φ) : Prop where
  set : ∀ {index g v cause next}, m.ip < m.container.code.size →
    m.container.instruction m.ip = .ok (.set index v, next) → m.slotAt? index = some g → Asks g →
    m.domains.checkAssignment g.slot.current v = .error cause →
    m.step = .next ({ m with ip := next }.diagnose (.value g.symbol.name cause))
  answer : ∀ {m' k index g v cause}, m.step = .call m' k → k.dest = some index →
    m.slotAt? index = some g → Asks g →
    m.domains.checkAssignment g.slot.current v = .error cause →
    ∃ next, m' = { m with ip := next } ∧
      m'.receive k.ip k.dest v = .ok (m'.diagnose (.value g.symbol.name cause))
  setExtern : ∀ {name g v cause}, m.global? name = some g → g.symbol.isExtern = true →
    m.domains.checkAssignment g.slot.current v = .error cause →
    m.setExtern name v = .error (.value name cause)
  load : ∀ {name j g v cause}, m.global? name = some g → g.slot.isFunction = false →
    Value.ofJson j = .ok v → m.domains.checkAssignment g.slot.current v = .error cause →
    m.loadEntry name j = (m.diagnose (.snapshotEntry name cause), false)
  /-- The domains are not asked. -/
  constant : ∀ {index g v next}, m.ip < m.container.code.size →
    m.container.instruction m.ip = .ok (.set index v, next) → m.slotAt? index = some g → ¬Asks g →
    m.step = .fault { m with ip := next } (.fault m.ip (.immutable g.symbol.name))

theorem refuses (m : Machine φ) : m.Refuses :=
  ⟨step_of_refused, answer_of_refused, setExtern_of_refused, loadEntry_of_refused, step_of_not_asks⟩

/-- What a sequential domain does for a machine on which it was declared and is not declared again:
how it judges values, what it means for a single move, for a stretch of moves and for the whole
history, and what becomes of values that are refused. -/
structure Sequenced (d : EnumDomain) (m₀ m : Machine φ) : Prop where
  admits : ∀ current b, m.domains.checkAssignment current (.enum ⟨d.name, b⟩) = .ok () ↔
    ∃ j, d.index? b = some j ∧
      ∀ a, current = .enum ⟨d.name, a⟩ → ∀ i, d.index? a = some i → i ≤ j
  move : ∀ {m' n a b}, Later d m m' → m.value n = .ok (.enum ⟨d.name, a⟩) →
    m'.value n = .ok (.enum ⟨d.name, b⟩) → a ≠ b →
    ∃ j, d.index? b = some j ∧ ∀ i, d.index? a = some i → i ≤ j
  stretch : ∀ {m' n a i}, Stretch d n m m' → m.value n = .ok (.enum ⟨d.name, a⟩) →
    d.index? a = some i →
    ∃ b j, m'.value n = .ok (.enum ⟨d.name, b⟩) ∧ d.index? b = some j ∧ i ≤ j
  stored : ∀ {m' n b}, Later d m m' → m'.value n = .ok (.enum ⟨d.name, b⟩) →
    m.value n ≠ m'.value n → b ∈ d.members
  /-- A value that is no member is as old as the declaration. -/
  member : ∀ {n b}, m.value n = .ok (.enum ⟨d.name, b⟩) → b ∈ d.members ∨
    Relation.ReflTransGen (fun m m' => Later d m m' ∧ m'.value n = m.value n) m₀ m
  refuses : m.Refuses
  /-- Acts are such moves. -/
  act : ∀ {σ : Type} {a : Act φ} {host : φ → List Value → σ → Option (HostResult × σ)} {fuel : Nat}
    {s s' : σ} {ended : RunEnd} {m' : Machine φ},
    (∀ d', a = .declareEnum d' → d'.name ≠ d.name) →
    a.perform host fuel m s = some (ended, m', s') → Relation.ReflTransGen (Later d) m m'

theorem sequenced_of_later {bytes : Bytes} (hparse : Container.parse bytes = .ok c)
    (hm₀ : Reachable c m₀) (hsequential : d.sequential = true)
    (hd : m₀.domains.get? d.name = some d) (h : Relation.ReflTransGen (Later d) m₀ m) :
    Sequenced d m₀ m := by
  have hparsed₀ := (isParsed_of_reachable hparse hm₀).2
  have hparsed := (Course.sameFrame h).isParsed hparsed₀
  have hdeclared := course_declared h hd
  have hstage {m' : Machine φ} {n b : String} (hmove : Later d m m')
      (hb : m'.value n = .ok (.enum ⟨d.name, b⟩)) := hmove.stage hparsed hdeclared hsequential hb
  refine ⟨fun _ _ => EnumDomains.checkAssignment_eq_ok_iff hdeclared hsequential, ?_,
    stretch_stage hparsed hdeclared hsequential, ?_, course_member hparsed₀ hd hsequential h,
    refuses m, course_perform⟩
  · intro m' n a b hmove ha hb hne
    rcases hstage hmove hb with hsame | ⟨j, hj, hle⟩
    · rw [ha] at hsame
      cases hsame
      exact absurd rfl hne
    · exact ⟨j, hj, hle a ha⟩
  · intro m' n b hmove hb hne
    rcases hstage hmove hb with hsame | ⟨j, hj, -⟩
    · exact absurd (hsame.trans hb.symm) hne
    · exact EnumDomain.mem_of_index? hj

def stage? (m : Machine φ) (n : String) : Option EnumValue :=
  match m.value n with
  | .ok (.enum e) => some e
  | _ => none

theorem value_of_stage? {e : EnumValue} (h : m.stage? n = some e) : m.value n = .ok (.enum e) := by
  unfold stage? at h
  split at h
  · rename_i hvalue
    cases h
    exact hvalue
  · cases h

def stages : List Builder.Call :=
  [.externVariable "act", .bough "main", .set 0 (.enum ⟨"Act", "end"⟩),
    .set 0 (.enum ⟨"Act", "intro"⟩), .stop]

theorem sequenced_stages : ∃ (d : EnumDomain) (m₀ m : Machine Unit), Sequenced d m₀ m ∧
    m.value "act" = .ok (.enum ⟨"Act", "middle"⟩) ∧
      m.step.machine.step.machine.state = .running ∧
        m.step.machine.step.machine.diagnostics.length = 1 ∧
          ∃ b j, m.step.machine.step.machine.value "act" = .ok (.enum ⟨d.name, b⟩) ∧
            d.index? b = some j ∧ 1 ≤ j := by
  let d : EnumDomain := ⟨"Act", true, ["intro", "middle", "end"]⟩
  have hbuild : ((Builder.run .offset stages).build.map Array.size) = .ok 111 := by decide +kernel
  obtain ⟨bytes, hbuild, hsize⟩ := Except.map_eq_ok_iff.mp hbuild
  have hparse := Builder.parse_run (by decide) (by decide) (by decide +kernel) (by decide)
    (by rw [← hsize]; decide) hbuild
  rw [← hsize] at hparse
  let m₀ : Machine Unit := (create (Builder.assembled .offset stages 111)).declareEnum d
  have hplay : (m₀.setExtern "act" (.enum ⟨"Act", "middle"⟩)).bind (fun m =>
      (m.start "main").map fun m => [m, m.step.machine, m.step.machine.step.machine].map fun m =>
        (m.stage? "act", m.state, m.diagnostics.length)) =
          .ok [(some ⟨"Act", "middle"⟩, .running, 0), (some ⟨"Act", "end"⟩, .running, 0),
            (some ⟨"Act", "end"⟩, .running, 1)] := by
    decide +kernel
  obtain ⟨m₁, hset, hplay⟩ := Except.bind_eq_ok_iff.mp hplay
  obtain ⟨m, hstart, hplay⟩ := Except.map_eq_ok_iff.mp hplay
  simp only [List.map_cons, List.map_nil, List.cons.injEq, Prod.mk.injEq, and_true] at hplay
  obtain ⟨⟨hm, hrunning, -⟩, ⟨hm', hrunning', -⟩, hm'', hrunning'', hdiagnostics⟩ := hplay
  have hlater : Relation.ReflTransGen (Later d) m₀ m :=
    .tail (.single (.setExtern hset)) (.start hstart)
  have hsequenced : Sequenced d m₀ m :=
    sequenced_of_later hparse (.declareEnum .create) rfl rfl hlater
  have hstretch : Stretch d "act" m m.step.machine.step.machine :=
    .tail (.single ⟨.step hrunning.symm, _, value_of_stage? hm'.symm⟩)
      ⟨.step hrunning'.symm, _, value_of_stage? hm''.symm⟩
  exact ⟨d, m₀, m, hsequenced, value_of_stage? hm.symm, hrunning''.symm, hdiagnostics.symm,
    hsequenced.stretch hstretch (value_of_stage? hm.symm) rfl⟩

end Machine

end Dialogue
