import Dialogue.Proofs.Machine.Frame
import Dialogue.Proofs.Story.Own
import Dialogue.Proofs.Table

namespace Dialogue

def Operation.prepares {ε : Type} : Operation ε → Bool
  | load .. | declareEnum .. | setExtern .. | subscribe .. => true
  | _ => false

def Operation.writes {ε : Type} : Operation ε → String → Prop
  | load _ s, n => n ∈ s.keys
  | setExtern _ name _, n => n = name
  | _, _ => False

def Operation.observes {ε : Type} : Operation ε → String → Prop
  | subscribe _ name, n => n = name
  | _, _ => False

theorem Change.primed_apply {ε : Type} {op : Operation ε} {c : Change ε}
    (hc : op.change? = some c) (hop : op.prepares = true) {m m' : HostMachine ε} (hm : m.IsParsed)
    {r : Reply} (happly : c.apply m = .ok (r, m')) : m.Primed op.writes op.observes m' := by
  cases op <;> first | cases hop; done | cases hc
  case load h s =>
    cases happly
    exact Machine.primed_loadEntries hm s.entries
  case declareEnum h d =>
    cases happly
    exact .of_globals rfl rfl
  all_goals
    obtain ⟨m₁, hm₁, heq⟩ := Except.map_eq_ok_iff.mp happly
    cases heq
  case setExtern h name v => exact Machine.primed_setExtern hm hm₁
  case subscribe h name => exact Machine.primed_subscribe hm hm₁

theorem Change.primed_effect {ε : Type} {op : Operation ε} {c : Change ε}
    (hc : op.change? = some c) (hop : op.prepares = true) {m : HostMachine ε} (hm : m.IsParsed) :
    m.Primed op.writes op.observes (c.effect m) := by
  unfold effect
  split
  · rename_i r m' happly
    have hprimed : m.Primed op.writes op.observes m' := Change.primed_apply hc hop hm happly
    exact hprimed.trans (.of_globals rfl rfl)
  · exact .refl

variable {δ ν : Type} {view : δ → ν} {w w' w₁ : World (Story δ)} {i : Nat} {h : Handle}

def Story.bindName (s : Story δ) (i : Nat) (h : Handle) (name : String) : Story δ :=
  match s.store with
  | none => s
  | some store =>
    let (id, store) := store.watch name h
    { s with store := some store }.modify i fun c => { c with bindings := c.bindings ++ [(name, id)] }

def Story.bindNames (s : Story δ) (i : Nat) (h : Handle) (names : List String) : Story δ :=
  match s.store with
  | none => s
  | some store =>
    let bindings := names.zipIdx store.nextId
    let store := { store with
      watches := store.watches ++ bindings.map fun b => ⟨b.2, b.1, h⟩
      nextId := store.nextId + names.length }
    { s with store := some store }.modify i fun c => { c with bindings := c.bindings ++ bindings }

def Conversation.lacks (c : Conversation δ) (name : String) : Bool :=
  c.externs.contains name && !c.isBound name

def Story.unbound (s : Story δ) (c : Conversation δ) : List (String × Value) :=
  match s.store with
  | none => []
  | some store => store.values.entries.filter fun e => c.lacks e.1

namespace Story

theorem bindName_store {s : Story δ} {store : VariableStore Handle} (hstore : s.store = some store)
    (i : Nat) (h : Handle) (name : String) :
    (s.bindName i h name).store = some (store.watch name h).2 := by
  rw [bindName, hstore]
  rfl

theorem bindName_conversation {s : Story δ} {own : Conversation δ} {store : VariableStore Handle}
    (hstore : s.store = some store) (hown : s.conversations[i]? = some own) (h : Handle)
    (name : String) : (s.bindName i h name).conversations[i]? =
      some { own with bindings := own.bindings ++ [(name, store.nextId)] } := by
  simp [bindName, hstore, Story.modify, hown, VariableStore.watch]

theorem lacks_bound (own : Conversation δ) {name name' : String} (id : Nat) (hne : name ≠ name') :
    Conversation.lacks { own with bindings := own.bindings ++ [(name, id)] } name' =
      own.lacks name' := by
  have hbeq : (name == name') = false := beq_eq_false_iff_ne.mpr hne
  simp [Conversation.lacks, Conversation.isBound, hbeq]

theorem foldl_bindName (s : Story δ) (i : Nat) (h : Handle) (names : List String) :
    names.foldl (fun s name => s.bindName i h name) s = s.bindNames i h names := by
  cases hstore : s.store with
  | none =>
    rw [bindNames, hstore]
    induction names with
    | nil => rfl
    | cons name names ih =>
      have hname : s.bindName i h name = s := by rw [bindName, hstore]
      rw [List.foldl_cons, hname, ih]
  | some store =>
    induction names generalizing s store with
    | nil =>
      obtain ⟨_, _, _, _, _, _⟩ := s
      subst hstore
      simp only [List.foldl_nil, bindNames, Story.modify, List.zipIdx_nil, List.map_nil,
        List.append_nil, List.length_nil, Nat.add_zero]
      congr 1
      exact (List.modify_id ..).symm
    | cons name names ih =>
      rw [List.foldl_cons, ih _ _ (bindName_store hstore i h name)]
      simp [bindNames, bindName, hstore, Story.modify, VariableStore.watch, List.modify_modify_eq,
        Function.comp_def]
      omega

end Story

namespace World

def bind (w : World (Story δ)) (i : Nat) (h : Handle) (name : String) (v : Value) :
    World (Story δ) :=
  let w := (w.affect (.setExtern h name v)).affect (.subscribe h name)
  { w with host := w.host.bindName i h name }

def declareEnums (w : World (Story δ)) (h : Handle) : World (Story δ) :=
  match w.host.store with
  | none => w
  | some store => store.domains.values.foldl (fun w d => w.affect (.declareEnum h d)) w

def inject (w : World (Story δ)) (h : Handle) : World (Story δ) :=
  if w.host.state.isEmpty then w else w.affect (.load h w.host.state)

def prepared (w : World (Story δ)) (i : Nat) (c : Conversation δ) : World (Story δ) :=
  (w.host.unbound c).foldl (fun w e => w.bind i c.handle e.1 e.2)
    ((w.inject c.handle).declareEnums c.handle)

theorem Same.bind (hw : Same view w w') (i : Nat) (h : Handle) (name : String) (v : Value) :
    Same view (w.bind i h name v) (w'.bind i h name v) := by
  have haffect := (hw.affect (.setExtern h name v)).affect (.subscribe h name)
  obtain ⟨x, hx, heq⟩ := haffect
  refine ⟨x, ?_, ?_⟩
  · rw [affect_host, affect_host] at hx
    rw [hx, World.bind]
    simp only [affect_host, Story.bindName]
    split <;> rfl
  · simp only [World.bind, heq]
    simp only [withOwn, Story.bindName]
    split <;> rfl

theorem Same.foldl {β : Type} {f : World (Story δ) → β → World (Story δ)}
    (hf : ∀ {w w'} x, Same view w w' → Same view (f w x) (f w' x)) (xs : List β)
    (hw : Same view w w') : Same view (xs.foldl f w) (xs.foldl f w') := by
  induction xs generalizing w w' with
  | nil => exact hw
  | cons x xs ih => exact ih (hf x hw)

theorem Same.declareEnums (hw : Same view w w') (h : Handle) :
    Same view (w.declareEnums h) (w'.declareEnums h) := by
  have hstore : w'.host.store = w.host.store := by
    obtain ⟨x, -, rfl⟩ := hw
    rfl
  unfold World.declareEnums
  rw [hstore]
  split
  · exact hw
  · exact hw.foldl (fun d hs => hs.affect (.declareEnum h d)) _

theorem Same.host (hw : Same view w w') : ∃ x, w'.host = { w.host with host := x } := by
  obtain ⟨x, -, rfl⟩ := hw
  exact ⟨x, rfl⟩

theorem host_declareEnums (w : World (Story δ)) (h : Handle) :
    (w.declareEnums h).host = w.host := by
  have hfold (ds : List EnumDomain) (w : World (Story δ)) :
      (ds.foldl (fun w d => w.affect (.declareEnum h d)) w).host = w.host := by
    induction ds generalizing w with
    | nil => rfl
    | cons d ds ih => exact (ih _).trans (affect_host w _)
  unfold World.declareEnums
  split
  · rfl
  · exact hfold _ w

theorem host_inject (w : World (Story δ)) (h : Handle) : (w.inject h).host = w.host := by
  unfold World.inject
  split
  · rfl
  · exact affect_host w _

structure Primes (h : Handle) (writes observes : String → Prop) (w w' : World (Story δ)) : Prop where
  arena : w'.arena = w.arena
  others : ∀ h', h' ≠ h → w'.machine? h' = w.machine? h'
  machine : ∀ m, w.machine? h = some m → m.IsParsed →
    ∃ m', w'.machine? h = some m' ∧ m.Primed writes observes m'

variable {writes observes writes' observes' : String → Prop}

theorem Primes.refl : Primes h writes observes w w :=
  ⟨rfl, fun _ _ => rfl, fun m hm _ => ⟨m, hm, .refl⟩⟩

theorem Primes.trans (hw : Primes h writes observes w w') (hw' : Primes h writes observes w' w₁) :
    Primes h writes observes w w₁ := by
  refine ⟨hw'.arena.trans hw.arena, fun h' hne => (hw'.others h' hne).trans (hw.others h' hne),
    fun m hm hparsed => ?_⟩
  obtain ⟨m', hm', hprimed⟩ := hw.machine m hm hparsed
  obtain ⟨m'', hm'', hprimed'⟩ := hw'.machine m' hm' (hprimed.isParsed hparsed)
  exact ⟨m'', hm'', hprimed.trans hprimed'⟩

theorem Primes.mono (hw : Primes h writes observes w w') (hwrites : ∀ n, writes n → writes' n)
    (hobserves : ∀ n, observes n → observes' n) : Primes h writes' observes' w w' :=
  { hw with machine := fun m hm hparsed => (hw.machine m hm hparsed).imp fun _ h =>
      ⟨h.1, h.2.mono hwrites hobserves⟩ }

theorem primes_affect (op : Operation (Story δ)) (hs : w.arena.Sound) {c : Change (Story δ)}
    (hc : op.change? = some c) (hop : op.prepares = true) :
    Primes c.handle op.writes op.observes w (w.affect op) := by
  have haffect : w.affect op = w.modifyMachine c.handle c.effect := by
    rw [World.affect, hc]
  rw [haffect]
  refine ⟨?_, fun h' hne => ?_, fun m hm hparsed => ?_⟩
  · unfold modifyMachine
    split <;> rfl
  · rw [machine?_modifyMachine hs, if_neg hne]
  · rw [machine?_modifyMachine hs, if_pos rfl, hm]
    exact ⟨_, rfl, Change.primed_effect hc hop hparsed⟩

theorem Primes.foldl {β : Type} {f : World (Story δ) → β → World (Story δ)} {xs : List β}
    (hf : ∀ w, ∀ x ∈ xs, w.arena.Sound → Primes h writes observes w (f w x))
    (hs : w.arena.Sound) : Primes h writes observes w (xs.foldl f w) := by
  induction xs generalizing w with
  | nil => exact .refl
  | cons x xs ih =>
    have hfirst := hf w x List.mem_cons_self hs
    exact hfirst.trans
      (ih (fun w x hx => hf w x (List.mem_cons_of_mem _ hx)) (hfirst.arena.symm ▸ hs))

theorem primes_bind (hs : w.arena.Sound) (i : Nat) (h : Handle) (name : String) (v : Value) :
    Primes h (· = name) (· = name) w (w.bind i h name v) := by
  have hset : Primes h (· = name) (· = name) w (w.affect (.setExtern h name v)) :=
    (primes_affect (.setExtern h name v) hs rfl rfl).mono (fun _ => id) fun _ => False.elim
  have hsubscribe : Primes h (· = name) (· = name) (w.affect (.setExtern h name v))
      ((w.affect (.setExtern h name v)).affect (.subscribe h name)) :=
    (primes_affect (.subscribe h name) (hset.arena.symm ▸ hs) rfl rfl).mono
      (fun _ => False.elim) fun _ => id
  obtain ⟨harena, hothers, hmachine⟩ := hset.trans hsubscribe
  exact ⟨harena, hothers, hmachine⟩

theorem primes_declareEnums (hs : w.arena.Sound) (h : Handle) :
    Primes h writes observes w (w.declareEnums h) := by
  unfold World.declareEnums
  split
  · exact .refl
  · refine .foldl (fun w d _ hs => ?_) hs
    exact (primes_affect (.declareEnum h d) hs rfl rfl).mono (fun _ => False.elim)
      fun _ => False.elim

theorem primes_inject (hs : w.arena.Sound) (h : Handle) :
    Primes h (· ∈ w.host.state.keys) observes w (w.inject h) := by
  unfold World.inject
  split
  · exact .refl
  · exact (primes_affect (.load h w.host.state) hs rfl rfl).mono (fun _ => id)
      fun _ => False.elim

theorem primes_prepared (hs : w.arena.Sound) (i : Nat) (c : Conversation δ) :
    Primes c.handle (fun n => n ∈ w.host.state.keys ∨ n ∈ (w.host.unbound c).map (·.1))
      (· ∈ (w.host.unbound c).map (·.1)) w (w.prepared i c) := by
  have hinject : Primes c.handle (· ∈ w.host.state.keys) (· ∈ (w.host.unbound c).map (·.1)) w
      (w.inject c.handle) := primes_inject hs c.handle
  have hs₁ : (w.inject c.handle).arena.Sound := hinject.arena.symm ▸ hs
  have hdeclare : Primes c.handle (· ∈ (w.host.unbound c).map (·.1))
      (· ∈ (w.host.unbound c).map (·.1)) (w.inject c.handle)
      ((w.inject c.handle).declareEnums c.handle) := primes_declareEnums hs₁ c.handle
  have hs₂ : ((w.inject c.handle).declareEnums c.handle).arena.Sound := hdeclare.arena.symm ▸ hs₁
  have hbind : Primes c.handle (· ∈ (w.host.unbound c).map (·.1))
      (· ∈ (w.host.unbound c).map (·.1)) ((w.inject c.handle).declareEnums c.handle)
      (w.prepared i c) := by
    refine .foldl (fun w' e he hs => ?_) hs₂
    have hmem (n : String) (hn : n = e.1) : n ∈ (w.host.unbound c).map (·.1) := by
      rw [hn]
      exact List.mem_map_of_mem he
    exact (primes_bind hs i c.handle e.1 e.2).mono hmem hmem
  exact (hinject.mono (fun _ => .inl) fun _ => id).trans
    ((hdeclare.trans hbind).mono (fun _ => .inr) fun _ => id)

theorem host_prepared (w : World (Story δ)) (i : Nat) (c : Conversation δ) :
    (w.prepared i c).host = w.host.bindNames i c.handle ((w.host.unbound c).map (·.1)) := by
  have hfold (es : List (String × Value)) (w : World (Story δ)) :
      (es.foldl (fun w e => w.bind i c.handle e.1 e.2) w).host =
        es.foldl (fun s e => s.bindName i c.handle e.1) w.host := by
    induction es generalizing w with
    | nil => rfl
    | cons e es ih =>
      refine (ih _).trans ?_
      simp only [List.foldl_cons, World.bind, affect_host]
  rw [prepared, hfold, host_declareEnums, host_inject, ← Story.foldl_bindName, List.foldl_map]

end World

end Dialogue
