import Dialogue.Proofs.Story.Accord

/-!
What a story keeps on its conversations: where their machines are routed to, whether they have been
destroyed, and which watches in the store are theirs. The books balance when routes lead to the
conversations that have not been destroyed, and when each watch is the binding of one conversation.
-/

namespace Dialogue

variable {δ : Type}

namespace Conversation

def entry (c : Conversation δ) : Handle × Phase × List (String × Nat) :=
  (c.handle, c.phase, c.bindings)

def watches (c : Conversation δ) : List (Watch Handle) :=
  c.bindings.map fun b => ⟨b.2, b.1, c.handle⟩

end Conversation

namespace Story

variable {s s' : Story δ} {h : Handle} {i j : Nat} {c c' : Conversation δ} {ws : List (Watch Handle)}
  {D : Nat → Handle → Prop} {store : VariableStore Handle}

def watches (s : Story δ) : List (Watch Handle) := (s.store.map (·.watches)).getD []

def ledger (s : Story δ) : List (Handle × Nat) × List (Handle × Phase × List (String × Nat)) ×
    Option (List (Watch Handle) × Nat) :=
  (s.routes, s.conversations.map Conversation.entry, s.store.map fun t => (t.watches, t.nextId))

/-- The books balance, but for the watches `ws` that are no bindings any more. Those of `D` are
conversations that have been destroyed. -/
structure Books (D : Nat → Handle → Prop) (ws : List (Watch Handle)) (s : Story δ) : Prop where
  route : ∀ h i, s.route? h = some i ↔
    ∃ c, s.conversations[i]? = some c ∧ c.handle = h ∧ c.phase ≠ .destroyed
  watches : s.watches.Perm (ws ++ s.conversations.flatMap Conversation.watches)
  ids : (s.watches.map (·.id)).Nodup
  fresh : ∀ store, s.store = some store → ∀ watch ∈ store.watches, watch.id < store.nextId
  names : ∀ c ∈ s.conversations, c.boundNames.Nodup
  unbound : ∀ c ∈ s.conversations, c.phase = .destroyed → c.bindings = []
  destroyed : ∀ i h, D i h →
    ∃ c, s.conversations[i]? = some c ∧ c.handle = h ∧ c.phase = .destroyed

theorem exists_of_entries
    (hentries : s'.conversations.map Conversation.entry = s.conversations.map Conversation.entry)
    (hc' : s'.conversations[i]? = some c') :
    ∃ c, s.conversations[i]? = some c ∧ c.entry = c'.entry := by
  have h := congrArg (·[i]?) hentries
  simp only [List.getElem?_map, hc', Option.map_some] at h
  obtain ⟨c, hc, heq⟩ := Option.map_eq_some_iff.mp h.symm
  exact ⟨c, hc, heq⟩

theorem flatMap_watches (cs : List (Conversation δ)) : cs.flatMap Conversation.watches =
    (cs.map Conversation.entry).flatMap fun e => e.2.2.map fun b => ⟨b.2, b.1, e.1⟩ := by
  rw [List.flatMap_map]
  rfl

theorem Books.congr (hs : Books D ws s) (hledger : s'.ledger = s.ledger) : Books D ws s' := by
  simp only [ledger, Prod.mk.injEq] at hledger
  obtain ⟨hroutes, hentries, hstore⟩ := hledger
  have hwatches : s'.watches = s.watches := by
    have h := congrArg (fun x => (x.map (·.1)).getD []) hstore
    simp only [Option.map_map] at h
    exact h
  have hmem {c' : Conversation δ} (hc' : c' ∈ s'.conversations) :
      ∃ c ∈ s.conversations, c.entry = c'.entry := by
    obtain ⟨i, hi⟩ := List.mem_iff_getElem?.mp hc'
    obtain ⟨c, hc, heq⟩ := exists_of_entries hentries hi
    exact ⟨c, List.mem_of_getElem? hc, heq⟩
  refine ⟨fun h i => ?_, ?_, hwatches ▸ hs.ids, fun store' hstore' => ?_, fun c' hc' => ?_,
    fun c' hc' hphase => ?_, fun i h hD => ?_⟩
  · rw [route?, hroutes, ← route?, hs.route]
    constructor
    · rintro ⟨c, hc, rfl, hphase⟩
      obtain ⟨c', hc', heq⟩ := exists_of_entries hentries.symm hc
      refine ⟨c', hc', congrArg (·.1) heq, ?_⟩
      rwa [show c'.phase = c.phase from congrArg (·.2.1) heq]
    · rintro ⟨c', hc', rfl, hphase⟩
      obtain ⟨c, hc, heq⟩ := exists_of_entries hentries hc'
      refine ⟨c, hc, congrArg (·.1) heq, ?_⟩
      rwa [show c.phase = c'.phase from congrArg (·.2.1) heq]
  · rw [hwatches, flatMap_watches, hentries, ← flatMap_watches]
    exact hs.watches
  · rw [hstore', Option.map_some] at hstore
    obtain ⟨store, hstore, heq⟩ := Option.map_eq_some_iff.mp hstore.symm
    rw [Prod.mk.injEq] at heq
    rw [← heq.1, ← heq.2]
    exact hs.fresh store hstore
  · obtain ⟨c, hc, heq⟩ := hmem hc'
    have hbindings : c.bindings = c'.bindings := congrArg (·.2.2) heq
    rw [Conversation.boundNames, ← hbindings]
    exact hs.names c hc
  · obtain ⟨c, hc, heq⟩ := hmem hc'
    rw [← show c.bindings = c'.bindings from congrArg (·.2.2) heq]
    exact hs.unbound c hc ((congrArg (·.2.1) heq).trans hphase)
  · obtain ⟨c, hc, rfl, hphase⟩ := hs.destroyed i h hD
    obtain ⟨c', hc', heq⟩ := exists_of_entries hentries.symm hc
    exact ⟨c', hc', congrArg (·.1) heq, (congrArg (·.2.1) heq).trans hphase⟩

theorem Books.owner (hs : Books D [] s) {watch : Watch Handle} (hwatch : watch ∈ s.watches) :
    ∃ (i : Nat) (c : Conversation δ), s.conversations[i]? = some c ∧ c.handle = watch.watcher ∧
      c.phase ≠ .destroyed ∧ c.bindings ≠ [] := by
  obtain ⟨c, hc, hwatch⟩ := List.mem_flatMap.mp (hs.watches.mem_iff.mp hwatch)
  obtain ⟨b, hb, rfl⟩ := List.mem_map.mp hwatch
  obtain ⟨i, hi⟩ := List.mem_iff_getElem?.mp hc
  have hbound : c.bindings ≠ [] := List.ne_nil_of_mem hb
  exact ⟨i, c, hi, rfl, fun hphase => hbound (hs.unbound c hc hphase), hbound⟩

theorem ledger_modify {f : Conversation δ → Conversation δ} (hs : s'.ledger = s.ledger) (i : Nat)
    (hf : ∀ c, (f c).entry = c.entry) : (s'.modify i f).ledger = s.ledger := by
  rw [← hs, ledger, map_modify s' i hf]
  rfl

theorem ledger_stopSpeaker (s : Story δ) (i : Nat) : (s.stopSpeaker i).ledger = s.ledger := by
  unfold stopSpeaker
  split
  · exact ledger_modify rfl i fun _ => rfl
  · rfl

theorem silent_stopSpeaker (hc : s.conversations[i]? = some c) :
    ∃ c', (s.stopSpeaker i).conversations[i]? = some c' ∧ c'.speaker = none ∧ c'.entry = c.entry := by
  unfold stopSpeaker
  split
  · exact ⟨{ c with speaker := none }, by simp [modify, hc], rfl, rfl⟩
  · rename_i hnone
    exact ⟨c, hc, by simpa [hc] using hnone, rfl⟩

theorem ledger_hear (s : Story δ) (i : Nat) (e : Event) : (s.hear i e).ledger = s.ledger := by
  cases e with
  | line l => exact ledger_modify (ledger_stopSpeaker s i) i fun _ => rfl
  | choices cs => exact ledger_modify rfl i fun _ => rfl
  | changed name v => exact ledger_modify rfl i fun _ => rfl

theorem ledger_share {name : String} {v : Value} {told : List Handle}
    (h : s.share name v = .ok (some (store, told))) :
    { s with store := some store }.ledger = s.ledger := by
  unfold share at h
  split at h
  · cases h
  · rename_i store₀ hstore
    obtain ⟨r, hset, heq⟩ := Except.map_eq_ok_iff.mp h
    obtain ⟨⟨store₁, told₁⟩, rfl, heq⟩ := Option.map_eq_some_iff.mp heq.symm
    cases heq
    unfold VariableStore.set at hset
    obtain ⟨-, -, hset⟩ := Except.bind_eq_ok_iff.mp hset
    split at hset
    · cases hset
    · cases hset
      simp [ledger, hstore, VariableStore.insert]

theorem exists_flatMap_watches (hc : s.conversations[i]? = some c) :
    ∃ rest, (s.conversations.flatMap Conversation.watches).Perm (c.watches ++ rest) ∧
      ∀ f : Conversation δ → Conversation δ,
        ((s.modify i f).conversations.flatMap Conversation.watches).Perm ((f c).watches ++ rest) := by
  obtain ⟨hi, rfl⟩ := List.getElem?_eq_some_iff.mp hc
  let rest := (s.conversations.take i ++ s.conversations.drop (i + 1)).flatMap Conversation.watches
  have hsplit (c' : Conversation δ) :
      ((s.conversations.take i ++ c' :: s.conversations.drop (i + 1)).flatMap
        Conversation.watches).Perm (c'.watches ++ rest) := by
    simp only [rest, List.flatMap_append, List.flatMap_cons]
    exact List.perm_append_comm_assoc _ _ _
  refine ⟨rest, ?_, fun f => ?_⟩
  · have h := hsplit s.conversations[i]
    rwa [← List.drop_eq_getElem_cons hi, List.take_append_drop] at h
  · rw [modify, List.modify_eq_take_cons_drop hi]
    exact hsplit _

theorem conversation_modify_cases {f : Conversation δ → Conversation δ}
    (hc : s.conversations[i]? = some c) (hc' : (s.modify i f).conversations[j]? = some c') :
    j = i ∧ c' = f c ∨ j ≠ i ∧ s.conversations[j]? = some c' := by
  simp only [modify, List.getElem?_modify] at hc'
  by_cases hj : i = j
  · subst hj
    simp only [hc, if_true, Option.map_eq_map, Option.map_some, Option.some.injEq] at hc'
    exact .inl ⟨rfl, hc'.symm⟩
  · simp only [hj, if_false, id_map'] at hc'
    exact .inr ⟨Ne.symm hj, hc'⟩

theorem Books.modify {ws' : List (Watch Handle)} {t : Option (VariableStore Handle)}
    {f : Conversation δ → Conversation δ} (hs : Books D ws s) (hc : s.conversations[i]? = some c)
    (hphase : c.phase ≠ .destroyed) (hhandle : (f c).handle = c.handle)
    (hphase' : (f c).phase ≠ .destroyed) (hnames : (f c).boundNames.Nodup)
    (hwatches : ∀ rest, s.watches.Perm (ws ++ (c.watches ++ rest)) →
      { s with store := t }.watches.Perm (ws' ++ ((f c).watches ++ rest)))
    (hids : (({ s with store := t } : Story δ).watches.map (·.id)).Nodup)
    (hfresh : ∀ store, t = some store → ∀ watch ∈ store.watches, watch.id < store.nextId) :
    Books D ws' ({ s with store := t }.modify i f) := by
  have hc₀ : { s with store := t }.conversations[i]? = some c := hc
  have hown : ({ s with store := t }.modify i f).conversations[i]? = some (f c) := by
    simp [Story.modify, hc]
  have hother {j : Nat} (hj : j ≠ i) :
      ({ s with store := t }.modify i f).conversations[j]? = s.conversations[j]? := by
    simp [Story.modify, Ne.symm hj]
  have hmem {c' : Conversation δ} (hc' : c' ∈ ({ s with store := t }.modify i f).conversations) :
      c' = f c ∨ c' ∈ s.conversations := by
    obtain ⟨j, hj⟩ := List.mem_iff_getElem?.mp hc'
    exact (conversation_modify_cases hc₀ hj).imp (·.2) fun h => List.mem_of_getElem? h.2
  refine ⟨fun h j => ?_, ?_, hids, hfresh, fun c' hc' => ?_, fun c' hc' hdestroyed => ?_,
    fun j h hD => ?_⟩
  · refine (hs.route h j).trans ?_
    by_cases hj : j = i
    · subst hj
      simp [hown, hc, hhandle, hphase, hphase']
    · rw [hother hj]
  · obtain ⟨rest, hbefore, hafter⟩ := exists_flatMap_watches hc₀
    exact (hwatches rest (hs.watches.trans (hbefore.append_left ws))).trans
      ((hafter f).symm.append_left ws')
  · rcases hmem hc' with rfl | hc'
    · exact hnames
    · exact hs.names c' hc'
  · rcases hmem hc' with rfl | hc'
    · exact absurd hdestroyed hphase'
    · exact hs.unbound c' hc' hdestroyed
  · obtain ⟨c', hc', hhandle', hdestroyed⟩ := hs.destroyed j h hD
    refine ⟨c', ?_, hhandle', hdestroyed⟩
    rw [hother]
    · exact hc'
    · rintro rfl
      rw [hc, Option.some.injEq] at hc'
      exact hphase (hc' ▸ hdestroyed)

theorem Books.proceed {f : Conversation δ → Conversation δ} (hs : Books D ws s)
    (hc : s.conversations[i]? = some c) (hphase : c.phase ≠ .destroyed) (hf : c.Proceeds (f c)) :
    Books D ws (s.modify i f) := by
  have hwatches : (f c).watches = c.watches := by
    rw [Conversation.watches, hf.bindings, hf.handle, Conversation.watches]
  refine hs.modify (t := s.store) hc hphase hf.handle (hf.phase hphase) ?_ ?_ hs.ids hs.fresh
  · rw [Conversation.boundNames, hf.bindings]
    exact hs.names c (List.mem_of_getElem? hc)
  · rw [hwatches]
    exact fun _ => id

theorem Books.bind (hs : Books D ws s) (hstore : s.store = some store)
    (hc : s.conversations[i]? = some c) (hphase : c.phase ≠ .destroyed) {name : String}
    (hname : c.isBound name = false) :
    Books D ws ({ s with store := some (store.watch name c.handle).2 }.modify i fun c =>
      { c with bindings := c.bindings ++ [(name, (store.watch name c.handle).1)] }) := by
  have hold : s.watches = store.watches := by simp [Story.watches, hstore]
  have hnew : { s with store := some (store.watch name c.handle).2 }.watches =
      s.watches ++ [⟨store.nextId, name, c.handle⟩] := by
    simp [Story.watches, hstore, VariableStore.watch]
  have hfresh := hs.fresh store hstore
  refine hs.modify hc hphase rfl hphase ?_ (fun rest hperm => ?_) ?_ ?_
  · have hnotin : name ∉ c.boundNames := by
      intro hmem
      obtain ⟨b, hb, rfl⟩ := List.mem_map.mp hmem
      have hbound : c.isBound b.1 = true := List.any_eq_true.mpr ⟨b, hb, beq_self_eq_true _⟩
      simp [hname] at hbound
    have heq : Conversation.boundNames
        { c with bindings := c.bindings ++ [(name, (store.watch name c.handle).1)] } =
          c.boundNames ++ [name] := by
      simp [Conversation.boundNames]
    rw [heq]
    refine (hs.names c (List.mem_of_getElem? hc)).append (List.nodup_singleton name) ?_
    exact List.disjoint_singleton.mpr hnotin
  · have hwatches (own : Conversation δ) (b : String × Nat) : Conversation.watches
        { own with bindings := own.bindings ++ [b] } = own.watches ++ [⟨b.2, b.1, own.handle⟩] := by
      simp [Conversation.watches]
    rw [hnew, hwatches]
    refine (hperm.append_right _).trans ?_
    simp only [List.append_assoc]
    exact (List.perm_append_comm.append_left _).append_left ws
  · rw [hnew, List.map_append, hold]
    refine List.Nodup.append (hold ▸ hs.ids) (by simp) fun id hid hid' => ?_
    obtain ⟨watch, hwatch, rfl⟩ := List.mem_map.mp hid
    simp only [List.map_cons, List.map_nil, List.mem_singleton] at hid'
    exact absurd (hfresh watch hwatch) (by omega)
  · rintro _ ⟨⟩ watch hwatch
    rcases List.mem_append.mp hwatch with hwatch | hwatch
    · exact Nat.lt_succ_of_lt (hfresh watch hwatch)
    · rw [List.mem_singleton.mp hwatch]
      exact Nat.lt_succ_self _

theorem Books.release (hs : Books D [] s) (hc : s.conversations[i]? = some c)
    (hphase : c.phase ≠ .destroyed) :
    Books D c.watches (s.modify i fun c => { c with bindings := [] }) :=
  hs.modify (t := s.store) hc hphase rfl hphase .nil (fun _ => id) hs.ids hs.fresh

theorem Books.unwatch {watch : Watch Handle} (hs : Books D (watch :: ws) s) :
    Books D ws { s with store := s.store.map (VariableStore.unwatch · watch.id) } := by
  have hfilter : { s with store := s.store.map (VariableStore.unwatch · watch.id) }.watches =
      s.watches.filter (·.id != watch.id) := by
    cases hstore : s.store <;> simp [Story.watches, hstore, VariableStore.unwatch]
  have hperm := hs.watches.filter (·.id != watch.id)
  have hids := hs.watches.map (·.id)
  have hrest : ∀ other ∈ ws ++ s.conversations.flatMap Conversation.watches,
      (other.id != watch.id) = true := by
    have hnodup := hids.nodup_iff.mp hs.ids
    rw [List.cons_append, List.map_cons, List.nodup_cons] at hnodup
    refine fun other hother => bne_iff_ne.mpr fun heq => hnodup.1 ?_
    exact heq ▸ List.mem_map_of_mem hother
  refine ⟨hs.route, ?_, ?_, ?_, hs.names, hs.unbound, hs.destroyed⟩
  · rw [hfilter]
    rw [List.cons_append, List.filter_cons_of_neg (by simp), List.filter_eq_self.mpr hrest] at hperm
    exact hperm
  · rw [hfilter]
    exact hs.ids.sublist (List.filter_sublist.map _)
  · intro store' hstore' other hother
    obtain ⟨store, hstore, rfl⟩ := Option.map_eq_some_iff.mp hstore'
    exact hs.fresh store hstore other (List.mem_of_mem_filter hother)

theorem Books.enroll (hs : Books D ws s) (hfree : s.route? c.handle = none)
    (hphase : c.phase ≠ .destroyed) (hbindings : c.bindings = []) : Books D ws (s.enroll c) := by
  have hmem {c' : Conversation δ} (hc' : c' ∈ (s.enroll c).conversations) :
      c' ∈ s.conversations ∨ c' = c := by
    simpa [Story.enroll] using hc'
  have hold {j : Nat} {c' : Conversation δ} (hc' : s.conversations[j]? = some c') :
      (s.enroll c).conversations[j]? = some c' := by
    rw [Story.enroll, List.getElem?_append_left (List.getElem?_eq_some_iff.mp hc').1]
    exact hc'
  refine ⟨fun h j => ?_, ?_, hs.ids, hs.fresh, fun c' hc' => ?_, fun c' hc' hdestroyed => ?_,
    fun j h hD => ?_⟩
  · rw [route?_enroll]
    constructor
    · intro hroute
      split at hroute
      · rename_i heq
        cases hroute
        exact ⟨c, by simp [Story.enroll], heq.symm, hphase⟩
      · obtain ⟨c', hc', hhandle, hphase'⟩ := (hs.route h j).mp hroute
        exact ⟨c', hold hc', hhandle, hphase'⟩
    · rintro ⟨c', hc', hhandle, hphase'⟩
      rcases enroll_cases hc' with hc' | ⟨rfl, rfl⟩
      · have hroute := (hs.route h j).mpr ⟨c', hc', hhandle, hphase'⟩
        rw [if_neg, hroute]
        rintro rfl
        rw [hfree] at hroute
        cases hroute
      · rw [if_pos hhandle.symm]
  · have hnone : c.watches = [] := by simp [Conversation.watches, hbindings]
    have hsame : (s.enroll c).conversations.flatMap Conversation.watches =
        s.conversations.flatMap Conversation.watches := by
      simp [Story.enroll, hnone]
    rw [hsame]
    exact hs.watches
  · rcases hmem hc' with hc' | rfl
    · exact hs.names c' hc'
    · simp [Conversation.boundNames, hbindings]
  · rcases hmem hc' with hc' | rfl
    · exact hs.unbound c' hc' hdestroyed
    · exact hbindings
  · obtain ⟨c', hc', hrest⟩ := hs.destroyed j h hD
    exact ⟨c', hold hc', hrest⟩

theorem Books.expel (hs : Books D ws s) (hc : s.conversations[i]? = some c)
    (hphase : c.phase ≠ .destroyed) (hbindings : c.bindings = []) :
    Books (fun j h => D j h ∨ j = i ∧ h = c.handle) ws
      ({ s with routes := s.routes.filter (·.1 != c.handle) }.modify i fun c =>
        { c with phase := .destroyed }) := by
  let f (c : Conversation δ) : Conversation δ := { c with phase := .destroyed }
  let s' : Story δ := { s with routes := s.routes.filter (·.1 != c.handle) }
  have hc₀ : s'.conversations[i]? = some c := hc
  have hown : (s'.modify i f).conversations[i]? = some (f c) := by simp [Story.modify, hc₀]
  have hother {j : Nat} (hj : j ≠ i) :
      (s'.modify i f).conversations[j]? = s.conversations[j]? := by
    simp [Story.modify, Ne.symm hj, s']
  have hroute := (hs.route c.handle i).mpr ⟨c, hc, rfl, hphase⟩
  have hmem {c' : Conversation δ} (hc' : c' ∈ (s'.modify i f).conversations) :
      c' = f c ∨ c' ∈ s.conversations := by
    obtain ⟨j, hj⟩ := List.mem_iff_getElem?.mp hc'
    exact (conversation_modify_cases hc₀ hj).imp (·.2) fun h => List.mem_of_getElem? h.2
  refine ⟨fun h j => ?_, ?_, hs.ids, hs.fresh, fun c' hc' => ?_, fun c' hc' hdestroyed => ?_, ?_⟩
  · rw [show (s'.modify i f).route? h = s'.route? h from rfl, route?_filter]
    by_cases hj : j = i
    · subst hj
      constructor
      · intro h'
        split at h'
        · cases h'
        · rename_i hne
          obtain ⟨c', hc', hhandle, -⟩ := (hs.route h j).mp h'
          rw [hc, Option.some.injEq] at hc'
          exact absurd (hc' ▸ hhandle).symm hne
      · rintro ⟨c', hc', -, hphase'⟩
        rw [hown, Option.some.injEq] at hc'
        exact absurd (hc' ▸ rfl) hphase'
    · rw [hother hj]
      split
      · rename_i heq
        refine ⟨(fun h' => by cases h'), fun h' => ?_⟩
        rw [← hs.route, heq, hroute] at h'
        exact absurd (Option.some.inj h').symm hj
      · exact hs.route h j
  · obtain ⟨rest, hbefore, hafter⟩ := exists_flatMap_watches hc₀
    exact hs.watches.trans ((hbefore.trans (hafter f).symm).append_left ws)
  · rcases hmem hc' with rfl | hc'
    · exact hs.names c (List.mem_of_getElem? hc)
    · exact hs.names c' hc'
  · rcases hmem hc' with rfl | hc'
    · exact hbindings
    · exact hs.unbound c' hc' hdestroyed
  · rintro j h (hD | ⟨rfl, rfl⟩)
    · obtain ⟨c', hc', hhandle', hdestroyed⟩ := hs.destroyed j h hD
      refine ⟨c', ?_, hhandle', hdestroyed⟩
      rw [hother]
      · exact hc'
      · rintro rfl
        rw [hc, Option.some.injEq] at hc'
        exact hphase (hc' ▸ hdestroyed)
    · exact ⟨f c, hown, rfl, rfl⟩

end Story

end Dialogue
