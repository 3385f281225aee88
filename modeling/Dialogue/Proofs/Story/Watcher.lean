import Dialogue.Proofs.Table
import Dialogue.Story.Watcher
import Mathlib.Data.List.Basic

/-!
Watchers that change the store while they are told of a change. A change starts a round, in which
the watchers of the variable are told in whatever order, and a change made by one of them starts a
round within. Main statement: `last_told`. A round goes on with its own value, whatever has happened
since, and so a watcher is last told the value that the store holds unless an outer round has still
had to tell it of an earlier one.
-/

namespace Dialogue

theorem VariableStore.set_eq_some {ω : Type} {s store : VariableStore ω} {name : String} {v : Value}
    {told : List (Watch ω)} (h : s.set name v = .ok (some (store, told))) :
    store = s.insert name v ∧ told = s.watches.filter (·.name == name) := by
  unfold set at h
  cases hcheck : s.domains.checkAssignment ((s.get? name).getD .nil) v with
  | error e => simp [hcheck, bind, Except.bind] at h
  | ok _ =>
    rw [hcheck] at h
    by_cases hsame : (s.get? name).any (· == v) = true
    · simp [hsame, bind, Except.bind, pure, Except.pure] at h
    · simp only [bind, Except.bind, pure, Except.pure, if_neg hsame] at h
      cases h
      exact ⟨rfl, rfl⟩

structure Notice where
  id : Nat
  name : String
  value : Value

def Notice.isAbout (id : Nat) (name : String) (n : Notice) : Bool := n.id == id && n.name == name

/-- What can be observed of a store; a change comes with the notices of outer rounds that have not
been given. -/
inductive Incident where
  | told (n : Notice)
  | changed (name : String) (v : Value) (waiting : List Notice)
  | inserted (name : String)

namespace Watched

variable {δ : Type}

structure Round (δ : Type) where
  name : String
  value : Value
  rest : List (Watch (Watcher δ))
  resume : WatcherCode δ

def Round.notices (r : Round δ) : List Notice := r.rest.map fun w => ⟨w.id, r.name, r.value⟩

structure Moment (δ : Type) where
  code : WatcherCode δ
  rounds : List (Round δ)
  now : Watched δ

def Moment.outstanding (m : Moment δ) : List Notice := m.rounds.flatMap Round.notices

def answer? : StoreOperation δ → VariableStore (Watcher δ) →
    Option (StoreReply × VariableStore (Watcher δ))
  | .get name, s => some (.value (s.get? name), s)
  | .set name v, s =>
    match s.set name v with
    | .error e => some (.changed (.error e), s)
    | .ok none => some (.changed (.ok false), s)
    | .ok (some _) => none
  | .insert name v, s => some (.unit, s.insert name v)
  | .declareEnum d, s => some (.unit, s.declareEnum d)
  | .watch name watcher, s => some (.id (s.watch name watcher).1, (s.watch name watcher).2)
  | .unwatch id, s => some (.flag (s.isWatched id), s.unwatch id)
  | .names, s => some (.names s.names, s)
  | .domains, s => some (.domains s.domains.values, s)

def incident : StoreOperation δ → List Incident
  | .insert name _ => [.inserted name]
  | _ => []

inductive Step : Moment δ → List Incident → Moment δ → Prop
  | update {f : δ → δ} {next : WatcherCode δ} {rounds : List (Round δ)} {s : Watched δ} :
    Step ⟨.update f next, rounds, s⟩ [] ⟨next, rounds, { s with host := f s.host }⟩
  | inspect {next : δ → WatcherCode δ} {rounds : List (Round δ)} {s : Watched δ} :
    Step ⟨.inspect next, rounds, s⟩ [] ⟨next s.host, rounds, s⟩
  | answer {op : StoreOperation δ} {next : StoreReply → WatcherCode δ} {rounds : List (Round δ)}
    {s : Watched δ} {r : StoreReply} {store : VariableStore (Watcher δ)} :
    answer? op s.store = some (r, store) →
      Step ⟨.call op next, rounds, s⟩ (incident op) ⟨next r, rounds, { s with store := store }⟩
  | change {name : String} {v : Value} {next : StoreReply → WatcherCode δ}
    {rounds : List (Round δ)} {s : Watched δ} {store : VariableStore (Watcher δ)}
    {told order : List (Watch (Watcher δ))} :
    s.store.set name v = .ok (some (store, told)) → order.Perm told →
      Step ⟨.call (.set name v) next, rounds, s⟩ [.changed name v (rounds.flatMap Round.notices)]
        ⟨.done, ⟨name, v, order, next (.changed (.ok true))⟩ :: rounds, { s with store := store }⟩
  | tell {name : String} {v : Value} {w : Watch (Watcher δ)} {rest : List (Watch (Watcher δ))}
    {resume : WatcherCode δ} {rounds : List (Round δ)} {s : Watched δ} :
    Step ⟨.done, ⟨name, v, w :: rest, resume⟩ :: rounds, s⟩ [.told ⟨w.id, name, v⟩]
      ⟨w.watcher.tell w.id name v, ⟨name, v, rest, resume⟩ :: rounds, s⟩
  | resume {name : String} {v : Value} {resume : WatcherCode δ} {rounds : List (Round δ)}
    {s : Watched δ} :
    Step ⟨.done, ⟨name, v, [], resume⟩ :: rounds, s⟩ [] ⟨resume, rounds, s⟩

inductive Reaches (m : Moment δ) : List Incident → Moment δ → Prop
  | refl : Reaches m [] m
  | step {log news : List Incident} {m' m'' : Moment δ} :
    Reaches m log m' → Step m' news m'' → Reaches m (news ++ log) m''

theorem Reaches.trans {m m' m'' : Moment δ} {log log' : List Incident} (h : Reaches m log m')
    (h' : Reaches m' log' m'') : Reaches m (log' ++ log) m'' := by
  induction h' with
  | refl => exact h
  | step _ hstep ih =>
    rw [List.append_assoc]
    exact ih.step hstep

theorem Step.reaches {m m' : Moment δ} {news : List Incident} (h : Step m news m') :
    Reaches m news m' := by
  simpa using Reaches.refl.step h

def Leads (m m' : Moment δ) : Prop := ∃ log, Reaches m log m'

theorem Leads.trans {m m' m'' : Moment δ} (h : Leads m m') (h' : Leads m' m'') : Leads m m'' := by
  obtain ⟨log, h⟩ := h
  obtain ⟨log', h'⟩ := h'
  exact ⟨log' ++ log, h.trans h'⟩

theorem Step.leads {m m' : Moment δ} {news : List Incident} (h : Step m news m') : Leads m m' :=
  ⟨news, h.reaches⟩

section

variable {exec : StoreOperation δ → Watched δ → Option (StoreReply × Watched δ)}

theorem perform_leads
    (hexec : ∀ {op s r s'}, exec op s = some (r, s') → ∀ next rounds,
      Leads ⟨.call op next, rounds, s⟩ ⟨next r, rounds, s'⟩) :
    ∀ {code : WatcherCode δ} {s s' : Watched δ}, perform exec code s = some s' →
      ∀ rounds, Leads ⟨code, rounds, s⟩ ⟨.done, rounds, s'⟩
  | .done, s, s', h, rounds => by
    cases h
    exact ⟨[], .refl⟩
  | .update f next, s, s', h, rounds => by
    rw [perform] at h
    exact Step.update.leads.trans (perform_leads hexec h rounds)
  | .inspect next, s, s', h, rounds => by
    rw [perform] at h
    exact Step.inspect.leads.trans (perform_leads hexec h rounds)
  | .call op next, s, s', h, rounds => by
    rw [perform] at h
    split at h
    · rename_i r s₁ hop
      exact (hexec hop next rounds).trans (perform_leads hexec h rounds)
    · cases h

theorem notify_leads
    (hexec : ∀ {op s r s'}, exec op s = some (r, s') → ∀ next rounds,
      Leads ⟨.call op next, rounds, s⟩ ⟨next r, rounds, s'⟩)
    {name : String} {v : Value} {told : List (Watch (Watcher δ))} {s s' : Watched δ}
    (h : notify exec name v told s = some s') (resume : WatcherCode δ) (rounds : List (Round δ)) :
    Leads ⟨.done, ⟨name, v, told, resume⟩ :: rounds, s⟩ ⟨resume, rounds, s'⟩ := by
  induction told generalizing s with
  | nil =>
    cases h
    exact Step.resume.leads
  | cons w rest ih =>
    rw [notify] at h
    split at h
    · rename_i s₁ hs₁
      exact (Step.tell.leads.trans (perform_leads hexec hs₁ _)).trans (ih h)
    · cases h

end

/-- What is executed takes these steps, and tells watchers in the order of their ids. -/
theorem exec_leads {fuel : Nat} {op : StoreOperation δ} {s s' : Watched δ} {r : StoreReply}
    (h : exec fuel op s = some (r, s')) (next : StoreReply → WatcherCode δ)
    (rounds : List (Round δ)) : Leads ⟨.call op next, rounds, s⟩ ⟨next r, rounds, s'⟩ := by
  induction fuel generalizing op s r s' next rounds with
  | zero => cases h
  | succ fuel ih =>
    cases op with
    | set name v =>
      rw [exec] at h
      cases hset : s.store.set name v with
      | error e =>
        rw [hset] at h
        cases h
        exact (Step.answer (by rw [answer?, hset])).leads
      | ok change =>
        rw [hset] at h
        cases change with
        | none =>
          cases h
          exact (Step.answer (by rw [answer?, hset])).leads
        | some change =>
          obtain ⟨s₁, hs₁, hr⟩ := Option.map_eq_some_iff.mp h
          cases hr
          exact (Step.change hset (.refl _)).leads.trans (notify_leads ih hs₁ _ _)
    | get | insert | declareEnum | watch | unwatch | names | domains =>
      cases h
      exact (Step.answer rfl).leads

def tellings (log : List Incident) : List Notice :=
  log.filterMap fun | .told n => some n | _ => none

def lastTold (id : Nat) (name : String) (log : List Incident) : Option Value :=
  ((tellings log).find? (Notice.isAbout id name)).map Notice.value

def lastChange (name : String) (log : List Incident) : Option (Value × List Notice) :=
  log.findSome? fun
    | .changed name' v waiting => if name' = name then some (v, waiting) else none
    | _ => none

/-- The value that an outer round had still to tell the watch when the variable last changed; of
several the outermost. -/
def overdue (id : Nat) (name : String) (log : List Incident) : Option Value := do
  let (_, waiting) ← lastChange name log
  (waiting.reverse.find? (Notice.isAbout id name)).map Notice.value

def course (log : List Incident) (m : Moment δ) : List Notice :=
  m.outstanding.reverse ++ tellings log

/-- What holds after each step: the ids that are yet to come are known to no one, each variable
holds what it was changed to last, and each watch will be told that value or one overdue. -/
structure Settling (log : List Incident) (m : Moment δ) : Prop where
  numbered : ∀ w ∈ m.now.store.watches, w.id < m.now.store.nextId
  known : ∀ n ∈ course log m, n.id < m.now.store.nextId
  held : ∀ {name v waiting}, .inserted name ∉ log → lastChange name log = some (v, waiting) →
    m.now.store.get? name = some v
  told : ∀ w ∈ m.now.store.watches, ∀ {n},
    (course log m).find? (Notice.isAbout w.id w.name) = some n →
    ∃ v waiting, lastChange w.name log = some (v, waiting) ∧
      n.value = ((waiting.reverse.find? (Notice.isAbout w.id w.name)).map Notice.value).getD v

theorem answer?_spec {op : StoreOperation δ} {s store : VariableStore (Watcher δ)} {r : StoreReply}
    (h : answer? op s = some (r, store)) : s.nextId ≤ store.nextId ∧
      (∀ w ∈ store.watches, w ∈ s.watches ∨ s.nextId ≤ w.id ∧ w.id < store.nextId) ∧
        ∀ name, .inserted name ∉ incident op → store.get? name = s.get? name := by
  cases op with
  | set name v =>
    have hsame : store = s := by
      simp only [answer?] at h
      split at h <;> cases h <;> rfl
    rw [hsame]
    exact ⟨Nat.le_refl _, fun _ => .inl, fun _ _ => rfl⟩
  | insert name v =>
    cases h
    refine ⟨Nat.le_refl _, fun _ => .inl, fun name' hname => ?_⟩
    exact Table.get?_insert_of_ne _ (by simpa [incident] using hname) v
  | watch name watcher =>
    cases h
    refine ⟨Nat.le_succ _, fun w hw => ?_, fun _ _ => rfl⟩
    rcases List.mem_append.mp hw with hw | hw
    · exact .inl hw
    · rw [List.mem_singleton.mp hw]
      exact .inr ⟨Nat.le_refl _, Nat.lt_succ_self _⟩
  | unwatch id =>
    cases h
    exact ⟨Nat.le_refl _, fun w hw => .inl (List.mem_filter.mp hw).1, fun _ _ => rfl⟩
  | get | declareEnum | names | domains =>
    cases h
    exact ⟨Nat.le_refl _, fun _ => .inl, fun _ _ => rfl⟩

theorem lastChange_incident (op : StoreOperation δ) (name : String) (log : List Incident) :
    lastChange name (incident op ++ log) = lastChange name log := by
  cases op <;> rfl

theorem tellings_incident (op : StoreOperation δ) (log : List Incident) :
    tellings (incident op ++ log) = tellings log := by
  cases op <;> rfl

theorem Settling.quiet {log : List Incident} {m m' : Moment δ} (h : Settling log m)
    (hstore : m'.now.store = m.now.store) (hrounds : m'.outstanding = m.outstanding) :
    Settling log m' := by
  have hcourse : course log m' = course log m := by rw [course, hrounds, course]
  refine ⟨?_, ?_, ?_, ?_⟩
  · rw [hstore]
    exact h.numbered
  · rw [hstore, hcourse]
    exact h.known
  · rw [hstore]
    exact h.held
  · rw [hstore, hcourse]
    exact h.told

theorem Settling.answer {log : List Incident} {op : StoreOperation δ}
    {next : StoreReply → WatcherCode δ} {rounds : List (Round δ)} {s : Watched δ} {r : StoreReply}
    {store : VariableStore (Watcher δ)} (h : Settling log ⟨.call op next, rounds, s⟩)
    (hanswer : answer? op s.store = some (r, store)) :
    Settling (incident op ++ log) ⟨next r, rounds, { s with store := store }⟩ := by
  obtain ⟨hid, hwatches, hvalues⟩ := answer?_spec hanswer
  have hcourse : course (incident op ++ log) ⟨next r, rounds, { s with store := store }⟩ =
      course log ⟨.call op next, rounds, s⟩ := by
    simp only [course, tellings_incident, Moment.outstanding]
  refine ⟨fun w hw => ?_, fun n hn => ?_, fun hins hlast => ?_, fun w hw n hn => ?_⟩
  · rcases hwatches w hw with hw | hw
    · exact Nat.lt_of_lt_of_le (h.numbered w hw) hid
    · exact hw.2
  · rw [hcourse] at hn
    exact Nat.lt_of_lt_of_le (h.known n hn) hid
  · rw [lastChange_incident] at hlast
    rw [List.mem_append, not_or] at hins
    rw [hvalues _ hins.1]
    exact h.held hins.2 hlast
  · rw [hcourse] at hn
    rw [lastChange_incident]
    rcases hwatches w hw with hw | hw
    · exact h.told w hw hn
    · have hlt : n.id < s.store.nextId := h.known n (List.mem_of_find?_eq_some hn)
      have habout := List.find?_some hn
      simp only [Notice.isAbout, Bool.and_eq_true, beq_iff_eq] at habout
      omega

theorem Settling.tell {log : List Incident} {name : String} {v : Value} {w : Watch (Watcher δ)}
    {rest : List (Watch (Watcher δ))} {resume code : WatcherCode δ} {rounds : List (Round δ)}
    {s : Watched δ} (h : Settling log ⟨.done, ⟨name, v, w :: rest, resume⟩ :: rounds, s⟩) :
    Settling (.told ⟨w.id, name, v⟩ :: log) ⟨code, ⟨name, v, rest, resume⟩ :: rounds, s⟩ := by
  have hcourse : course (.told ⟨w.id, name, v⟩ :: log)
      ⟨code, ⟨name, v, rest, resume⟩ :: rounds, s⟩ =
        course log ⟨.done, ⟨name, v, w :: rest, resume⟩ :: rounds, s⟩ := by
    simp [course, Moment.outstanding, Round.notices, tellings]
  refine ⟨h.numbered, ?_, fun hins => h.held (by simpa using hins), fun w' hw' n hn => ?_⟩
  · rw [hcourse]
    exact h.known
  · rw [hcourse] at hn
    exact h.told w' hw' hn

theorem find?_round {watches order : List (Watch (Watcher δ))} {name : String} {v : Value}
    (horder : order.Perm (watches.filter (·.name == name))) {w : Watch (Watcher δ)}
    (hw : w ∈ watches) {n : Notice} :
    ((order.map fun w => (⟨w.id, name, v⟩ : Notice)).reverse.find?
      (Notice.isAbout w.id w.name) = some n → w.name = name ∧ n.value = v) ∧
    (w.name = name → ((order.map fun w => (⟨w.id, name, v⟩ : Notice)).reverse.find?
      (Notice.isAbout w.id w.name)).isSome = true) := by
  constructor
  · intro hn
    obtain ⟨w', -, rfl⟩ := List.mem_map.mp (List.mem_reverse.mp (List.mem_of_find?_eq_some hn))
    have habout := List.find?_some hn
    simp only [Notice.isAbout, Bool.and_eq_true, beq_iff_eq] at habout
    exact ⟨habout.2.symm, rfl⟩
  · intro hname
    have hmem : w ∈ order := horder.mem_iff.mpr
      (List.mem_filter.mpr ⟨hw, beq_iff_eq.mpr hname⟩)
    rw [List.find?_isSome]
    exact ⟨⟨w.id, name, v⟩, List.mem_reverse.mpr (List.mem_map.mpr ⟨w, hmem, rfl⟩),
      by simp [Notice.isAbout, hname]⟩

theorem lastChange_changed (name name' : String) (v : Value) (waiting : List Notice)
    (log : List Incident) : lastChange name' (.changed name v waiting :: log) =
      if name = name' then some (v, waiting) else lastChange name' log := by
  simp only [lastChange, List.findSome?_cons]
  split <;> simp_all

theorem Settling.change {log : List Incident} {name : String} {v : Value}
    {order : List (Watch (Watcher δ))} {code resume : WatcherCode δ} {rounds : List (Round δ)}
    {s : Watched δ} (h : Settling log ⟨code, rounds, s⟩)
    (horder : order.Perm (s.store.watches.filter (·.name == name))) :
    Settling (.changed name v (rounds.flatMap Round.notices) :: log)
      ⟨.done, ⟨name, v, order, resume⟩ :: rounds, { s with store := s.store.insert name v }⟩ := by
  let waiting := rounds.flatMap Round.notices
  let round := order.map fun w => (⟨w.id, name, v⟩ : Notice)
  have hold : course log ⟨code, rounds, s⟩ = waiting.reverse ++ tellings log := rfl
  have hcourse : course (.changed name v waiting :: log)
      ⟨.done, ⟨name, v, order, resume⟩ :: rounds, { s with store := s.store.insert name v }⟩ =
        waiting.reverse ++ (round.reverse ++ tellings log) := by
    simp [course, Moment.outstanding, Round.notices, tellings, waiting, round]
  refine ⟨h.numbered, fun n hn => ?_, fun {name' v' waiting'} hins hchange => ?_,
    fun w hw n hn => ?_⟩
  · rw [hcourse] at hn
    rcases List.mem_append.mp hn with hn | hn
    · exact h.known n (hold ▸ List.mem_append_left _ hn)
    rcases List.mem_append.mp hn with hn | hn
    · obtain ⟨w, hw, rfl⟩ := List.mem_map.mp (List.mem_reverse.mp hn)
      exact h.numbered w (List.mem_filter.mp (horder.mem_iff.mp hw)).1
    · exact h.known n (hold ▸ List.mem_append_right _ hn)
  · rw [lastChange_changed] at hchange
    by_cases hname : name = name'
    · subst hname
      rw [if_pos rfl] at hchange
      cases hchange
      exact Table.get?_insert_self _ _ _
    · rw [if_neg hname] at hchange
      refine (Table.get?_insert_of_ne _ (Ne.symm hname) v).trans ?_
      exact h.held (by simpa using hins) hchange
  · rw [hcourse, List.find?_append, List.find?_append] at hn
    rw [lastChange_changed]
    by_cases hname : name = w.name
    · rw [if_pos hname]
      refine ⟨v, waiting, rfl, ?_⟩
      -- The outer rounds come after the new one and have the last word.
      cases hwaiting : waiting.reverse.find? (Notice.isAbout w.id w.name) with
      | some n' =>
        rw [hwaiting] at hn
        cases hn
        rfl
      | none =>
        obtain ⟨n', hn'⟩ := Option.isSome_iff_exists.mp
          ((find?_round horder hw (n := n)).2 hname.symm)
        rw [hwaiting, hn'] at hn
        cases hn
        exact ((find?_round horder hw).1 hn').2
    · have hnone : round.reverse.find? (Notice.isAbout w.id w.name) = none := by
        rw [Option.eq_none_iff_forall_ne_some]
        intro n' hn'
        exact hname ((find?_round horder hw).1 hn').1.symm
      rw [if_neg hname]
      rw [hnone, Option.none_or, ← List.find?_append, ← hold] at hn
      exact h.told w hw hn

theorem Settling.step {log news : List Incident} {m m' : Moment δ} (h : Settling log m)
    (hstep : Step m news m') : Settling (news ++ log) m' := by
  cases hstep with
  | update => exact h.quiet rfl rfl
  | inspect => exact h.quiet rfl rfl
  | resume => exact h.quiet rfl rfl
  | tell => exact h.tell
  | answer hanswer => exact h.answer hanswer
  | change hset horder =>
    obtain ⟨rfl, rfl⟩ := VariableStore.set_eq_some hset
    exact h.change horder

theorem Settling.reaches {m m' : Moment δ} {log : List Incident} (h : Settling [] m)
    (hreaches : Reaches m log m') : Settling log m' := by
  induction hreaches with
  | refl => exact h
  | step _ hstep ih => exact ih.step hstep

theorem last_told {code : WatcherCode δ} {s s' : Watched δ} {log : List Incident}
    (hs : ∀ w ∈ s.store.watches, w.id < s.store.nextId)
    (h : Reaches ⟨code, [], s⟩ log ⟨.done, [], s'⟩) {w : Watch (Watcher δ)}
    (hw : w ∈ s'.store.watches) (htold : (lastTold w.id w.name log).isSome = true)
    (hinserted : .inserted w.name ∉ log) :
    lastTold w.id w.name log = (overdue w.id w.name log).or (s'.store.get? w.name) := by
  have hstart : Settling [] (⟨code, [], s⟩ : Moment δ) := ⟨hs, nofun, nofun, nofun⟩
  have hend := hstart.reaches h
  have hcourse : course log (⟨.done, [], s'⟩ : Moment δ) = tellings log := rfl
  obtain ⟨v, hv⟩ := Option.isSome_iff_exists.mp htold
  obtain ⟨n, hn, rfl⟩ := Option.map_eq_some_iff.mp hv
  obtain ⟨v, waiting, hchange, hvalue⟩ := hend.told w hw (hcourse ▸ hn)
  rw [hv, hend.held hinserted hchange, overdue, hchange, hvalue]
  cases hwaiting : (waiting.reverse.find? (Notice.isAbout w.id w.name)).map Notice.value <;>
    simp [hwaiting]

def quarrel : Watched Unit where
  store :=
    { watches :=
        [⟨0, "a", .mk fun _ name _ => .call (.set name (.bool false)) fun _ => .done⟩,
          ⟨1, "a", .mk fun _ _ _ => .done⟩]
      nextId := 2 }
  host := ()

def quarrelled : Watched Unit :=
  { quarrel with
    store := (quarrel.store.insert "a" (.bool true)).insert "a" (.bool false) }

def quarrelling : List Incident :=
  [.told ⟨1, "a", .bool true⟩, .told ⟨1, "a", .bool false⟩, .told ⟨0, "a", .bool false⟩,
    .changed "a" (.bool false) [⟨1, "a", .bool true⟩], .told ⟨0, "a", .bool true⟩,
    .changed "a" (.bool true) []]

theorem quarrel_reaches :
    Reaches ⟨.call (.set "a" (.bool true)) fun _ => .done, [], quarrel⟩ quarrelling
      ⟨.done, [], quarrelled⟩ := by
  have hstart : Reaches (⟨.call (.set "a" (.bool true)) fun _ => .done, [], quarrel⟩ : Moment Unit)
      [] ⟨.call (.set "a" (.bool true)) fun _ => .done, [], quarrel⟩ := .refl
  have houter := (hstart.step (.change rfl (.refl _))).step .tell
  have hinner := (houter.step (.change rfl (.refl _))).step .tell
  have hback := ((hinner.step (.answer rfl)).step .tell).step .resume
  exact (hback.step .tell).step .resume

/-- The second watch is left with the value that the first one has taken back. -/
theorem last_told_quarrel :
    lastTold 1 "a" quarrelling = some (.bool true) ∧
      quarrelled.store.get? "a" = some (.bool false) ∧
        lastTold 1 "a" quarrelling =
          (overdue 1 "a" quarrelling).or (quarrelled.store.get? "a") := by
  refine ⟨rfl, rfl, last_told (w := ⟨1, "a", .mk fun _ _ _ => .done⟩) (by decide)
    quarrel_reaches ?_ rfl ?_⟩
  · simp [quarrelled, quarrel, VariableStore.insert]
  · simp [quarrelling]

end Watched

end Dialogue
