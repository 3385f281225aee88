import Dialogue.Proofs.Container.Decoding
import Dialogue.Proofs.Machine.Transition

/-!
Runs that come to an end. An instruction that is no jump leaves the machine further on in the code.
Where all jumps lead forward, too, a script goes back only when the player has chosen to, so that no
run executes more instructions than the code has bytes, but for the step that finds its end. All
this holds of less than 4 GiB of code, where offsets are words.
-/

namespace Dialogue

def Instruction.jumps : Instruction → List UInt32
  | jump target | jumpIfFalse _ target => [target]
  | _ => []

namespace Machine

variable {φ σ : Type} {c : Container} {m m' : Machine φ}
  {host : φ → List Value → σ → Option (HostResult × σ)} {s : σ}

def Forward (φ : Type) (c : Container) : Prop :=
  ∀ m : Machine φ, Reachable c m → m.state = .running →
    ∀ i next, c.instruction m.ip = .ok (i, next) → ∀ target ∈ i.jumps, m.ip < target.toNat

theorem ip_settle (m : Machine φ) (ip : Nat) (dest : Option UInt32) (v : Value) :
    (m.settle ip dest v).machine.ip = m.ip :=
  (settles m ip dest v).stays.ip

theorem lt_ip_perform {k ip : Nat} {i : Instruction} (hip : k < m.ip)
    (hjumps : ∀ target ∈ i.jumps, k < target.toNat) : k < (m.perform ip i).machine.ip := by
  cases i with
  | stop => exact hip
  | line speaker content tags => exact hip
  | choices options =>
    rw [perform]
    split
    · exact hip
    · split <;> exact hip
  | jump target =>
    have htarget : k < target.toNat := hjumps target (List.mem_singleton.mpr rfl)
    rw [perform]
    split
    · exact htarget
    · exact hip
  | jumpIfFalse index target =>
    have htarget : k < target.toNat := hjumps target (List.mem_singleton.mpr rfl)
    rw [perform]
    split
    · split
      · simp only [Step.machine]
        split
        · exact hip
        · exact htarget
      · exact hip
    · exact hip
  | set index v =>
    rw [perform, ip_settle]
    exact hip
  | call index args dest =>
    rw [perform]
    split
    · exact hip
    · split
      · rw [ip_settle]
        exact hip
      · split
        · exact hip
        · rw [ip_settle]
          exact hip

theorem Forward.lt_ip_step (hc : Forward φ c) (hcode : c.code.size < UInt32.size)
    (hm : Reachable c m) (hstate : m.state = .running) (hip : m.ip < c.code.size)
    (hfault : ∀ m₁ e, m.step ≠ .fault m₁ e) : m.ip < m.step.machine.ip := by
  have hcontainer : m.container = c := (course_of_reachable hm).sameFrame.container
  have hsize : m.ip < m.container.code.size := hcontainer ▸ hip
  cases hi : m.container.instruction m.ip with
  | error cause =>
    have hstep : m.step = .fault m (.fault m.ip (.undecodable cause)) := by
      rw [step, if_neg (Nat.not_le.mpr hsize), hi]
    exact absurd hstep (hfault _ _)
  | ok r =>
    obtain ⟨i, next⟩ := r
    rw [step, if_neg (Nat.not_le.mpr hsize), hi]
    apply lt_ip_perform
    · exact Instruction.lt_next_of_decode (hcontainer ▸ hcode) hi
    · exact hc m hm hstate i next (hcontainer ▸ hi)

/-- Runs with the number of steps that they take. To find the end of the code is a step, too. -/
inductive Executes (host : φ → List Value → σ → Option (HostResult × σ)) :
    Nat → Machine φ → σ → RunEnd × Machine φ × σ → Prop
  | pause {m : Machine φ} {s : σ} (state : m.state ≠ .running) : Executes host 0 m s (.paused, m, s)
  | next {n : Nat} {m m₁ : Machine φ} {s : σ} {r : RunEnd × Machine φ × σ}
    (state : m.state = .running) (step : m.step = .next m₁) (rest : Executes host n m₁ s r) :
    Executes host (n + 1) m s r
  | fault {m m₁ : Machine φ} {e : MachineError} {s : σ} (state : m.state = .running)
    (step : m.step = .fault m₁ e) : Executes host 1 m s (.error e, m₁.halt, s)
  | panic {m m₁ : Machine φ} {k : HostCall φ} {message : Option String} {s s₁ : σ}
    (state : m.state = .running) (step : m.step = .call m₁ k)
    (result : host k.body k.args s = some (.panic message, s₁)) :
    Executes host 1 m s (.panic message, m₁, s₁)
  | answer {n : Nat} {m m₁ m₂ : Machine φ} {k : HostCall φ} {v : Value} {s s₁ : σ}
    {r : RunEnd × Machine φ × σ} (state : m.state = .running) (step : m.step = .call m₁ k)
    (result : host k.body k.args s = some (.value v, s₁))
    (received : m₁.receive k.ip k.dest v = .ok m₂) (rest : Executes host n m₂ s₁ r) :
    Executes host (n + 1) m s r
  | refuse {m m₁ : Machine φ} {k : HostCall φ} {v : Value} {e : MachineError} {s s₁ : σ}
    (state : m.state = .running) (step : m.step = .call m₁ k)
    (result : host k.body k.args s = some (.value v, s₁))
    (received : m₁.receive k.ip k.dest v = .error e) : Executes host 1 m s (.error e, m₁.halt, s₁)

theorem Executes.steps {n : Nat} {r : RunEnd × Machine φ × σ} (h : Executes host n m s r) :
    ∀ fuel, n ≤ fuel → steps host (fuel + 1) m s = some r := by
  induction h with
  | pause state =>
    intro fuel _
    rw [Machine.steps, if_neg state]
  | next state step rest ih =>
    intro fuel hfuel
    obtain ⟨fuel, rfl⟩ := Nat.exists_eq_add_of_le' hfuel
    rw [Machine.steps, if_pos state, step]
    exact ih _ (Nat.le_add_left _ _)
  | fault state step =>
    intro fuel _
    rw [Machine.steps, if_pos state, step]
  | panic state step result =>
    intro fuel _
    rw [Machine.steps, if_pos state, step]
    simp only [result]
  | answer state step result received rest ih =>
    intro fuel hfuel
    obtain ⟨fuel, rfl⟩ := Nat.exists_eq_add_of_le' hfuel
    rw [Machine.steps, if_pos state, step]
    simp only [result, received]
    exact ih _ (Nat.le_add_left _ _)
  | refuse state step result received =>
    intro fuel _
    rw [Machine.steps, if_pos state, step]
    simp only [result, received]

def Returns (host : φ → List Value → σ → Option (HostResult × σ)) (body : φ) : Prop :=
  ∀ args s, ∃ r, host body args s = some r

theorem Forward.executes (hc : Forward φ c) (hcode : c.code.size < UInt32.size)
    (hm : Reachable c m) (hstate : m.state = .running) (hhost : m.Bodies (Returns host)) (s : σ) :
    ∃ n ≤ c.code.size - m.ip + 1, ∃ r, Executes host n m s r := by
  -- What is left of the code gets less with every step.
  induction hleft : c.code.size - m.ip using Nat.strong_induction_on generalizing m s with
  | _ left ih =>
    by_cases hend : c.code.size ≤ m.ip
    · have hcontainer : m.container = c := (course_of_reachable hm).sameFrame.container
      have hstep : m.step = .next { m with state := .finished } := by
        rw [step, hcontainer, if_pos hend]
      have hfinished : ({ m with state := .finished } : Machine φ).state ≠ .running := by simp
      exact ⟨1, Nat.le_add_left _ _, _, .next hstate hstep (.pause hfinished)⟩
    · have hip : m.ip < c.code.size := Nat.lt_of_not_le hend
      have hbodies : m.step.machine.Bodies (Returns host) := (progress_step m).bodies hhost
      have hon (hfault : ∀ m₁ e, m.step ≠ .fault m₁ e) := hc.lt_ip_step hcode hm hstate hip hfault
      have hrest {m₂ : Machine φ} (s₂ : σ) (hm₂ : Reachable c m₂)
          (hbodies₂ : m₂.Bodies (Returns host)) (hlt : m.ip < m₂.ip) :
          ∃ n < left + 1, ∃ r, Executes host n m₂ s₂ r := by
        by_cases hstate₂ : m₂.state = .running
        · have hless : c.code.size - m₂.ip < left := by omega
          obtain ⟨n, hn, hr⟩ := ih _ hless hm₂ hstate₂ hbodies₂ s₂ rfl
          exact ⟨n, by omega, hr⟩
        · exact ⟨0, Nat.succ_pos _, _, .pause hstate₂⟩
      cases hs : m.step with
      | next m₁ =>
        rw [hs] at hbodies hon
        have hlt : m.ip < m₁.ip := hon fun _ _ h => by cases h
        obtain ⟨n, hn, r, hr⟩ := hrest s (.next hm hstate hs) hbodies hlt
        exact ⟨n + 1, hn, r, .next hstate hs hr⟩
      | fault m₁ e => exact ⟨1, Nat.le_add_left _ _, _, .fault hstate hs⟩
      | call m₁ k =>
        have hbody : Returns host k.body := body_of_step hhost hs
        rw [hs] at hbodies hon
        obtain ⟨⟨result, s₁⟩, hresult⟩ := hbody k.args s
        cases result with
        | panic message => exact ⟨1, Nat.le_add_left _ _, _, .panic hstate hs hresult⟩
        | value v =>
          cases hreceived : m₁.receive k.ip k.dest v with
          | error e => exact ⟨1, Nat.le_add_left _ _, _, .refuse hstate hs hresult hreceived⟩
          | ok m₂ =>
            have hlt : m.ip < m₂.ip := by
              rw [(stays_receive hreceived).ip]
              exact hon fun _ _ h => by cases h
            have hbodies₂ := (progress_receive hreceived).bodies hbodies
            obtain ⟨n, hn, r, hr⟩ := hrest s₁ (.receive hm hstate hs hreceived) hbodies₂ hlt
            exact ⟨n + 1, hn, r, .answer hstate hs hresult hreceived hr⟩

inductive Answer where
  | line
  | choice (index : Nat)

def answered (m : Machine φ) : Answer → Machine φ
  | .line => m.selectContinue.toOption.getD m
  | .choice index => (m.selectChoice index).toOption.getD m

def slices (host : φ → List Value → σ → Option (HostResult × σ)) (fuel : Nat) :
    List Answer → Machine φ → σ → Option (RunEnd × Machine φ × σ)
  | [], m, s => m.run host fuel s
  | a :: answers, m, s =>
    match m.run host fuel s with
    | some (.paused, m, s) => slices host fuel answers (m.answered a) s
    | r => r

theorem answered_cases (m : Machine φ) (a : Answer) : m.answered a = m ∨
    m.selectContinue = .ok (m.answered a) ∨
      ∃ index, m.selectChoice index = .ok (m.answered a) := by
  cases a with
  | line =>
    rw [answered]
    cases h : m.selectContinue with
    | error e => exact .inl rfl
    | ok m₁ => exact .inr (.inl rfl)
  | choice index =>
    rw [answered]
    cases h : m.selectChoice index with
    | error e => exact .inl rfl
    | ok m₁ => exact .inr (.inr ⟨index, h⟩)

theorem reachable_answered (hm : Reachable c m) (a : Answer) : Reachable c (m.answered a) := by
  rcases answered_cases m a with h | h | ⟨index, h⟩
  · exact h.symm ▸ hm
  · exact .selectContinue hm h
  · exact .selectChoice hm h

theorem globals_answered (m : Machine φ) (a : Answer) : (m.answered a).globals = m.globals := by
  rcases answered_cases m a with h | h | ⟨index, h⟩
  · rw [h]
  · exact (sameData_selectContinue h).globals
  · exact (sameData_selectChoice h).globals

theorem Forward.run (hc : Forward φ c) (hcode : c.code.size < UInt32.size) (hm : Reachable c m)
    (hhost : m.Bodies (Returns host)) (s : σ) : ∃ r, (∀ fuel, c.code.size + 1 < fuel → m.run host fuel s = some r) ∧
      (m.state = .running → ∃ n ≤ c.code.size + 1, Executes host n m s r) := by
  by_cases hrunning : m.state = .running
  · obtain ⟨n, hn, r, hr⟩ := hc.executes hcode hm hrunning hhost s
    refine ⟨r, fun fuel hfuel => ?_, fun _ => ⟨n, by omega, hr⟩⟩
    obtain ⟨fuel, rfl⟩ := Nat.exists_eq_add_one.mpr (Nat.zero_lt_of_lt hfuel)
    rw [run_of_running hrunning]
    exact hr.steps fuel (by omega)
  · cases hwaiting : m.isWaiting with
    | true => exact ⟨_, fun _ _ => run_of_isWaiting hwaiting, fun h => absurd h hrunning⟩
    | false => exact ⟨_, fun _ _ => run_of_idle hrunning hwaiting, fun h => absurd h hrunning⟩

theorem settled_of_run {fuel : Nat} {s' : σ} (h : m.run host fuel s = some (.paused, m', s')) :
    m'.state = .finished ∨ m'.isWaiting = true := by
  rcases perform_run h with ⟨-, hsettled⟩ | hwaiting
  · exact hsettled
  · rw [run_of_isWaiting hwaiting] at h
    cases h
    exact .inr hwaiting

theorem Forward.slices (hc : Forward φ c) (hcode : c.code.size < UInt32.size)
    (answers : List Answer) (hm : Reachable c m) (hhost : m.Bodies (Returns host)) (s : σ) :
    ∃ ended m' s', Machine.slices host (c.code.size + 2) answers m s = some (ended, m', s') ∧
      (ended = .paused → m'.state = .finished ∨ m'.isWaiting = true) := by
  induction answers generalizing m s with
  | nil =>
    obtain ⟨⟨ended, m', s'⟩, hrun, -⟩ := hc.run hcode hm hhost s
    have h := hrun (c.code.size + 2) (Nat.lt_succ_self _)
    refine ⟨ended, m', s', h, ?_⟩
    rintro rfl
    exact settled_of_run h
  | cons a answers ih =>
    obtain ⟨⟨ended, m₁, s₁⟩, hrun, -⟩ := hc.run hcode hm hhost s
    have h := hrun (c.code.size + 2) (Nat.lt_succ_self _)
    rw [Machine.slices, h]
    cases ended with
    | paused =>
      apply ih
      · exact reachable_answered (.run hm h) a
      · exact bodies_congr (globals_answered m₁ a) ((progress_run h).bodies hhost)
    | error e => exact ⟨_, _, _, rfl, nofun⟩
    | panic message => exact ⟨_, _, _, rfl, nofun⟩

/-- A script that goes back only where the player has chosen to can be driven slice by slice, by any
answers: from whatever machine, each run ends. It takes at most a step for each byte of the code
and one for the end. -/
theorem runs_end_of_forward (hc : Forward φ c) (hcode : c.code.size < UInt32.size)
    (hm : Reachable c m) (hhost : m.Bodies (Returns host)) (s : σ) :
    (∃ r, (∀ fuel, c.code.size + 1 < fuel → m.run host fuel s = some r) ∧
      (m.state = .running → ∃ n ≤ c.code.size + 1, Executes host n m s r)) ∧
    ∀ answers, ∃ ended m' s',
      Machine.slices host (c.code.size + 2) answers m s = some (ended, m', s') ∧
        (ended = .paused → m'.state = .finished ∨ m'.isWaiting = true) :=
  ⟨hc.run hcode hm hhost s, fun answers => hc.slices hcode answers hm hhost s⟩

theorem forward_of_closed (hc : c.Closed) (hcode : c.code.size < UInt32.size)
    (hjumps : c.sweep.instructions.all (fun e => e.2.jumps.all (e.1 < ·.toNat)) = true) :
    Forward φ c := by
  intro m hm _ i next hi target htarget
  rcases (placed_of_reachable hc hm).ip with hlisted | hend
  · obtain ⟨⟨ip, j⟩, hmem, rfl⟩ := List.mem_map.mp hlisted
    obtain ⟨stop, hsweep, -⟩ := Container.sweepFrom_ends hcode (Nat.le_add_left c.code.size 0)
    obtain ⟨after, hj, -⟩ := hsweep.of_mem hmem
    rw [hi] at hj
    cases hj
    have hjump := List.all_eq_true.mp (List.all_eq_true.mp hjumps _ hmem) target htarget
    exact of_decide_eq_true hjump
  · have hlt := Instruction.lt_next_of_decode hcode hi
    have hle := Instruction.next_le_of_decode hi
    omega

def refrain : List Builder.Call :=
  [.externVariable "ask", .scriptVariable "heard", .bough "main", .label, .label, .label, .bind 0,
    .jumpIfFalse 1 1, .line "mara" "As I said." [], .bind 1, .call 0 [] (some 1),
    .choices [("Again", 0), ("Leave", 2)], .bind 2, .stop]

theorem within_refrain : ∀ call ∈ refrain, call.Within := by
  simp [refrain, Builder.Call.Within]

theorem runs_end_refrain : ∃ (c : Container) (m : Machine Unit), Forward Unit c ∧
    c.code.size < UInt32.size ∧ Reachable c m ∧ m.state = .running ∧
      (∃ n ≤ c.code.size + 1, ∃ r,
        Executes (fun _ _ told => some (.value .nil, told + 1)) n m 0 r) ∧
        ∃ ended m' told, Machine.slices (fun _ _ told => some (.value .nil, told + 1))
          (c.code.size + 2) [.choice 0, .line, .choice 0, .line, .choice 1] m 0 =
            some (ended, m', told) ∧
          (ended = .paused → m'.state = .finished ∨ m'.isWaiting = true) := by
  have hbuild : ((Builder.run .offset refrain).build.map Array.size) = .ok 146 := by decide +kernel
  obtain ⟨bytes, hbuild, hsize⟩ := Except.map_eq_ok_iff.mp hbuild
  have hcode : (Builder.run .offset refrain).code.length < UInt32.size := by decide +kernel
  have hword : bytes.size < UInt64.size := by
    rw [← hsize]
    decide
  have hparse := Builder.parse_run (by decide) (by decide) hcode (by decide) hword hbuild
  have hclosed := Builder.closed_of_build within_refrain hcode hword hbuild hparse
  rw [← hsize] at hclosed
  let c := Builder.assembled .offset refrain 146
  have hwords : c.code.size < UInt32.size := by decide +kernel
  have hforward : Forward Unit c := forward_of_closed hclosed hwords (by decide +kernel)
  have hplay : ((create c : Machine Unit).setFunction "ask" 0 ()).bind (fun m =>
      (m.start "main").map (·.state)) = .ok .running := by
    decide +kernel
  obtain ⟨m₀, hset, hplay⟩ := Except.bind_eq_ok_iff.mp hplay
  obtain ⟨m, hstart, hstate⟩ := Except.map_eq_ok_iff.mp hplay
  have hm : Reachable c m := .start (.setFunction .create hset) hstart
  have hreturns : m.Bodies (Returns fun _ _ told => some (.value .nil, told + 1)) :=
    fun _ _ _ _ _ _ told => ⟨_, rfl⟩
  obtain ⟨⟨r, -, hrun⟩, hslices⟩ := runs_end_of_forward hforward hwords hm hreturns 0
  obtain ⟨n, hn, hexecutes⟩ := hrun hstate.symm
  exact ⟨c, m, hforward, hwords, hm, hstate.symm, ⟨n, hn, r, hexecutes⟩, hslices _⟩

def chant (text : String) : List Builder.Call :=
  [.scriptVariable "song", .bough "main", .set 0 (.string text)]

theorem length_write_set (text : String) :
    (Instruction.set 0 (.string text)).write.bytes.length = text.utf8ByteSize + 10 := by
  change ([_] ++ (littleEndian 4 _ ++ _ :: (littleEndian 4 _ ++ utf8 text))).length = _
  simp only [List.length_append, List.length_cons, littleEndian_length, utf8_length, List.length_nil]
  omega

theorem parse_chant {text : String} (htext : text.utf8ByteSize < UInt32.size) :
    ∃ bytes c, (Builder.run .sequential (chant text)).build = .ok bytes ∧
      Container.parse bytes = .ok c ∧ c.globals = [⟨"song", 0, false, true⟩] ∧
      c.boughs = [⟨"main", 0⟩] ∧
      c.code.toList = (Instruction.set 0 (.string text)).write.bytes := by
  let code := (Instruction.set 0 (.string text)).write.bytes
  let globals := (Builder.writeTable Builder.writeGlobal [⟨"song", 0, false, true⟩]).bytes
  let boughs := (Builder.writeTable (Builder.writeBough .sequential) [⟨"main", 0⟩]).bytes
  let bytes := (Builder.header .sequential 19 17 ++ (globals ++ (boughs ++ code))).toArray
  have hbuild : (Builder.run .sequential (chant text)).build = .ok bytes := rfl
  have hsize : bytes.size < UInt64.size := by
    have hcode : code.length = text.utf8ByteSize + 10 := length_write_set text
    have hbytes : bytes.size = 8 + (19 + (17 + code.length)) := by
      simp only [bytes, List.size_toArray, List.length_append]
      rfl
    rw [hbytes, hcode]
    exact Nat.lt_trans (by omega : _ < UInt32.size + 55) (by decide)
  obtain ⟨hread, -⟩ := Builder.read_of_build_run hbuild hsize
  refine ⟨_, _, hbuild, Container.parse_eq_ok_iff.mpr ⟨hread, ?_, ?_⟩, rfl, rfl, ?_⟩
  · exact Builder.checkGlobals_indexed_iff.mpr
      ⟨List.nodup_singleton _, show 1 ≤ UInt32.size by decide⟩
  · refine Container.checkBoughs_eq_ok_iff.mpr ⟨⟨List.nodup_singleton _, nofun⟩, ?_⟩
    exact List.forall_mem_singleton.mpr (Nat.zero_le _)
  · exact List.append_nil _

structure Circular (c : Container) (index : UInt32) (v : Value) : Prop where
  size : c.code.size = UInt32.size
  instruction : c.instruction 0 = .ok (.set index v, 0)
  bough : ∀ b ∈ c.boughs, b.entry = 0

namespace Circular

variable {index : UInt32} {v : Value}

theorem boundary (hc : Circular c index v) {ip : Nat} (h : c.Boundary ip) :
    ip = 0 ∨ ip = c.code.size := by
  have hfrom (count : Nat) : ∀ e ∈ (c.sweepFrom count 0).instructions, e.1 = 0 := by
    induction count with
    | zero => exact List.forall_mem_nil _
    | succ count ih =>
      rw [Container.sweepFrom]
      split
      · exact List.forall_mem_nil _
      · rw [hc.instruction]
        exact List.forall_mem_cons.mpr ⟨rfl, ih⟩
  refine h.imp_left fun hmem => ?_
  obtain ⟨e, he, rfl⟩ := List.mem_map.mp hmem
  exact hfrom _ e he

theorem boundary_zero (hc : Circular c index v) : c.Boundary 0 := by
  refine .inl ?_
  obtain ⟨count, hcount⟩ : ∃ count, c.code.size = count + 1 :=
    ⟨UInt32.size - 1, hc.size⟩
  rw [Container.sweep, hcount, Container.sweepFrom, if_neg (by omega), hc.instruction]
  exact List.mem_cons_self ..

theorem closed (hc : Circular c index v) : c.Closed where
  zero := hc.boundary_zero
  le_size h := (hc.boundary h).elim (fun h => h ▸ Nat.zero_le _) Nat.le_of_eq
  bough b hb := by
    rw [hc.bough b hb]
    exact hc.boundary_zero
  instruction := by
    intro ip h hlt
    obtain rfl := (hc.boundary h).resolve_right (Nat.ne_of_lt hlt)
    exact ⟨_, 0, hc.instruction, hc.boundary_zero, nofun⟩

theorem forward (hc : Circular c index v) : Forward φ c := by
  intro m hm _ i next hi target htarget
  obtain ⟨stop, hlt, hle, -⟩ := Instruction.decode_ends hi
  have hip := (hc.boundary (placed_of_reachable hc.closed hm).ip).resolve_right (by omega)
  rw [hip, hc.instruction] at hi
  cases hi
  cases htarget

theorem steps_eq_none (hc : Circular c index v) (hindex : index ∈ c.globals.map (·.index))
    (hmutable : ∀ g ∈ c.globals, g.isMutable = true) (hm : Reachable c m)
    (hstate : m.state = .running) (hip : m.ip = 0) (fuel : Nat) :
    Machine.steps host fuel m s = none := by
  induction fuel generalizing m with
  | zero => rfl
  | succ fuel ih =>
    have hplaced := placed_of_reachable hc.closed hm
    have hsize : m.ip < m.container.code.size := by
      rw [hip, hplaced.container, hc.size]
      decide
    have hi : m.container.instruction m.ip = .ok (.set index v, m.ip) := by
      rw [hip, hplaced.container, hc.instruction]
    have hstep : m.step = m.settle m.ip (some index) v := by
      rw [step, if_neg (Nat.not_le.mpr hsize), hi]
      rfl
    obtain ⟨m₁, hassign, -⟩ | ⟨f, -, hf⟩ :=
      assign_spec (i := .set index v) hplaced v (List.mem_singleton_self _)
    · have hnext : m.step = .next m₁ := by
        rw [hstep, settle, receive, hassign]
        rfl
      have hstays := stays_assign hassign
      rw [Machine.steps, if_pos hstate, hnext]
      exact ih (.next hm hstate hnext) (hstays.state.trans hstate) (hstays.ip.trans hip)
    · cases f with
      | unknownGlobal i =>
        obtain ⟨hi, hnone⟩ := hf
        rw [hplaced.container, List.mem_singleton.mp hi] at hnone
        exact absurd hindex hnone
      | immutable name =>
        obtain ⟨g, hg, -, -, hconstant, -⟩ := hf
        rw [hmutable _ (hplaced.symbols ▸ List.mem_map_of_mem hg)] at hconstant
        cases hconstant
      | emptyChoices => cases hf
      | _ => exact absurd hf id

end Circular

theorem circular_chant {text : String} (htext : text.utf8ByteSize + 10 = UInt32.size)
    (hboughs : c.boughs = [⟨"main", 0⟩])
    (hcode : c.code.toList = (Instruction.set 0 (.string text)).write.bytes) :
    Circular c 0 (.string text) := by
  have hlength := length_write_set text
  refine ⟨?_, ?_, ?_⟩
  · rw [← Array.length_toList, hcode, hlength, htext]
  · have hstorable : (Value.string text).Storable := by
      rw [Value.Storable, Value.storableBy_iff_fitsBy, Value.fits_leaf (by simp [Value.tag])]
      exact Nat.lt_of_lt_of_eq (by omega) htext
    have hpre : (Instruction.set 0 (.string text)).write.bytes <+: c.code.toList.drop 0 := by
      rw [hcode]
      exact List.prefix_rfl
    have hnext : 0 = (0 + (Instruction.set 0 (.string text)).write.bytes.length) % UInt32.size := by
      rw [hlength, htext, Nat.zero_add, Nat.mod_self]
    exact Instruction.decode_eq_ok_iff.mpr
      ⟨hstorable, _, Instruction.encode_eq_ok_iff.mpr rfl, hpre, hnext⟩
  · rw [hboughs]
    exact List.forall_mem_singleton.mpr rfl

def anthem : String := .ofList (.replicate (UInt32.size - 10) 'a')

theorem utf8ByteSize_replicate (n : Nat) :
    (String.ofList (List.replicate n 'a')).utf8ByteSize = n := by
  have hascii : ∀ c ∈ List.replicate n 'a', c.utf8Size = 1 := by
    intro c hc
    rw [List.eq_of_mem_replicate hc]
    decide
  rw [utf8ByteSize_ofList hascii, List.length_replicate]

theorem utf8ByteSize_anthem : anthem.utf8ByteSize + 10 = UInt32.size := by
  have hsize : anthem.utf8ByteSize = UInt32.size - 10 := utf8ByteSize_replicate _
  have hle : 10 ≤ UInt32.size := by decide
  omega

theorem not_runs_end_chant : ∃ (bytes : Bytes) (c : Container) (m : Machine Unit),
    (Builder.run .sequential (chant anthem)).build = .ok bytes ∧ Container.parse bytes = .ok c ∧
    c.code.size = UInt32.size ∧ Forward Unit c ∧ Reachable c m ∧ m.state = .running ∧
      m.Bodies (Returns fun _ _ told => some (.value .nil, told + 1)) ∧
      ∀ fuel, m.run (fun _ _ told => some (.value .nil, told + 1)) fuel 0 = none := by
  have hsize := utf8ByteSize_anthem
  obtain ⟨bytes, c, hbuild, hparse, hglobals, hboughs, hcode⟩ :=
    parse_chant (show anthem.utf8ByteSize < UInt32.size by omega)
  have hc : Circular c 0 (.string anthem) := circular_chant hsize hboughs hcode
  have hstart : (create c : Machine Unit).start "main" =
      .ok { create c with ip := 0, pending := [], state := .running } := by
    rw [start, create]
    simp [Container.bough?, hboughs]
  have hm := Reachable.start .create hstart
  refine ⟨bytes, c, _, hbuild, hparse, hc.size, hc.forward, hm, rfl, ?_, fun fuel => ?_⟩
  · exact fun _ _ _ _ _ _ told => ⟨_, rfl⟩
  · rw [run_of_running rfl]
    exact hc.steps_eq_none (by rw [hglobals]; decide) (by rw [hglobals]; decide) hm rfl rfl fuel

end Machine

end Dialogue
