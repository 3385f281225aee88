import Dialogue.Proofs.Machine.Transfer
import Dialogue.Proofs.Story.Completion
import Dialogue.Proofs.Story.Handover

/-!
The saved state that conversations leave behind. Each of them writes its own variables when it is
finished, so the order in which they are finished does not matter as long as no two of them have a
variable in common.
-/

namespace Dialogue

variable {δ : Type}

namespace Snapshot

variable {s s' s'' t : Snapshot} {ts us : List Snapshot}

/-- What `ts` have under a name, `s'` has, too. Under all other names it has what `s` has. -/
structure Overwritten (s : Snapshot) (ts : List Snapshot) (s' : Snapshot) : Prop where
  saved : ∀ t ∈ ts, ∀ name j, t.get? name = some j → s'.get? name = some j
  kept : ∀ name, (∀ t ∈ ts, t.get? name = none) → s'.get? name = s.get? name

def Apart (ts : List Snapshot) : Prop := ts.Pairwise fun t u => t.keys.Disjoint u.keys

theorem Overwritten.cons (h : Overwritten (s.amend t) ts s')
    (hapart : ∀ u ∈ ts, t.keys.Disjoint u.keys) : Overwritten s (t :: ts) s' where
  saved u hu name j hj := by
    rcases List.mem_cons.mp hu with rfl | hu
    · have hnone : ∀ v ∈ ts, v.get? name = none := fun v hv =>
        (Table.get?_eq_none_of_disjoint (hapart v hv) name).resolve_left (by simp [hj])
      rw [h.kept name hnone]
      exact Table.get?_merge hj
    · exact h.saved u hu name j hj
  kept name hnone := by
    rw [h.kept name fun u hu => hnone u (List.mem_cons_of_mem t hu)]
    exact Table.get?_merge_of_none (hnone t List.mem_cons_self)

theorem overwritten_foldl (s : Snapshot) (hapart : Apart ts) :
    Overwritten s ts (ts.foldl amend s) := by
  induction ts generalizing s with
  | nil => exact ⟨fun _ ht => (by cases ht), fun _ _ => rfl⟩
  | cons t ts ih =>
    obtain ⟨ht, hts⟩ := List.pairwise_cons.mp hapart
    exact (ih (s.amend t) hts).cons ht

theorem Overwritten.of_perm (h : Overwritten s ts s') (hperm : ts.Perm us) : Overwritten s us s' :=
  ⟨fun u hu => h.saved u (hperm.mem_iff.mpr hu),
    fun name hnone => h.kept name fun t ht => hnone t (hperm.mem_iff.mp ht)⟩

theorem Overwritten.unique (h : Overwritten s ts s') (h' : Overwritten s ts s'') : s' = s'' := by
  refine Table.ext_get? fun name => ?_
  by_cases hnone : ∀ t ∈ ts, t.get? name = none
  · rw [h.kept name hnone, h'.kept name hnone]
  · obtain ⟨t, ht⟩ := not_forall.mp hnone
    obtain ⟨hmem, hne⟩ := Classical.not_imp.mp ht
    obtain ⟨j, hj⟩ := Option.ne_none_iff_exists'.mp hne
    rw [h.saved t hmem name j hj, h'.saved t hmem name j hj]

theorem foldl_amend_perm (s : Snapshot) (hapart : Apart ts) (hperm : us.Perm ts) :
    us.foldl amend s = ts.foldl amend s := by
  have hapart' : Apart us := (hperm.pairwise_iff List.disjoint_symm).mpr hapart
  exact ((overwritten_foldl s hapart').of_perm hperm).unique (overwritten_foldl s hapart)

end Snapshot

namespace Machine

variable {φ : Type} {m m' : Machine φ} {ms ms' : List (Machine φ)}

def Apart (ms : List (Machine φ)) : Prop :=
  ms.Pairwise fun m m' =>
    (m.container.globals.map (·.name)).Disjoint (m'.container.globals.map (·.name))

def legacy (m : Machine φ) : Container × Snapshot := (m.container, m.save.1)

theorem Apart.congr (hapart : Apart ms) (h : ms'.map legacy = ms.map legacy) : Apart ms' := by
  let R (p q : Container × Snapshot) : Prop :=
    (p.1.globals.map (·.name)).Disjoint (q.1.globals.map (·.name))
  have hpairwise : (ms.map legacy).Pairwise R := List.pairwise_map.mpr hapart
  rw [← h] at hpairwise
  exact (List.pairwise_map (R := R)).mp hpairwise

theorem IsParsed.save_eq_none {name : String} (hm : m.IsParsed)
    (hname : name ∉ m.container.globals.map (·.name)) : m.save.1.get? name = none := by
  refine Option.eq_none_iff_forall_ne_some.mpr fun j hj => hname ?_
  obtain ⟨v, hv, -⟩ := hm.value_of_save hj
  exact hm.mem_names hv

theorem saves_of_legacy (h : ms'.map legacy = ms.map legacy) :
    ms'.map (fun m => m.save.1) = ms.map fun m => m.save.1 := by
  simpa [Function.comp_def, legacy] using congrArg (List.map Prod.snd) h

theorem Apart.saves (hapart : Apart ms) (hms : ∀ m ∈ ms, m.IsParsed) :
    Snapshot.Apart (ms.map fun m => m.save.1) := by
  refine List.pairwise_map.mpr (hapart.imp_of_mem fun {m m'} hm hm' hdisjoint name h h' => ?_)
  obtain ⟨v, hv, -⟩ := (hms m hm).mem_keys_save.mp h
  obtain ⟨v', hv', -⟩ := (hms m' hm').mem_keys_save.mp h'
  exact hdisjoint ((hms m hm).mem_names hv) ((hms m' hm').mem_names hv')

theorem IsParsed.save_congr (hm : m.IsParsed) (hm' : m'.IsParsed)
    (h : ∀ name, m'.value name = m.value name) : m'.save.1 = m.save.1 := by
  have hsub {m m' : Machine φ} (hm : m.IsParsed) (hm' : m'.IsParsed)
      (h : ∀ name, m'.value name = m.value name) {name : String} {j : Json}
      (hj : m.save.1.get? name = some j) : m'.save.1.get? name = some j := by
    obtain ⟨v, hv, hjson⟩ := hm.value_of_save hj
    exact hm'.save_value ((h name).trans hv) hjson
  exact Table.ext_get? fun name =>
    Option.ext fun j => ⟨hsub hm' hm fun name => (h name).symm, hsub hm hm' h⟩

theorem IsParsed.legacy_unsubscribe (hm : m.IsParsed) (name : String) :
    (m.unsubscribe name).legacy = m.legacy := by
  have hadjusts := adjusts_unsubscribe m name
  have hparsed := hm.congr hadjusts.container hadjusts.symbols
  exact Prod.ext hadjusts.container (hm.save_congr hparsed (hm.value_unsubscribe name))

end Machine

namespace World

variable {w w' w₁ w₂ : World (Story δ)} {i j : Nat} {m : HostMachine (Story δ)}

def Underway (w : World (Story δ)) (i : Nat) (m : HostMachine (Story δ)) : Prop :=
  ∃ c, w.host.conversations[i]? = some c ∧ c.phase = .started ∧ w.machine? c.handle = some m

/-- Since `w`, something has been done with the conversation `i` that leaves all machines with what they
would save. -/
structure Undisturbed (i : Nat) (w w' : World (Story δ)) : Prop where
  settled : Settled (fun _ => ()) w'
  keeps : w.host.Keeps i w'.host
  legacy : ∀ h m, w.machine? h = some m → ∃ m', w'.machine? h = some m' ∧ m'.legacy = m.legacy

theorem Undisturbed.refl (hw : w.Settled fun _ => ()) : Undisturbed i w w :=
  ⟨hw, ⟨rfl, rfl, fun _ _ => rfl⟩, fun _ m hm => ⟨m, hm, rfl⟩⟩

theorem Undisturbed.update (h : Undisturbed i w w₁) {s : Story δ} (hs : w₁.host.Keeps i s) :
    Undisturbed i w { w₁ with host := s } :=
  ⟨h.settled.update fun _ => s, h.keeps.trans hs, h.legacy⟩

theorem Undisturbed.exec (h : Undisturbed i w w₁) {op : Operation (Story δ)}
    {c : Change (Story δ)} (hc : op.change? = some c)
    (heffect : ∀ m : HostMachine (Story δ), m.IsParsed → (c.effect m).legacy = m.legacy)
    {fuel : Nat} {r : Reply} (hexec : exec fuel op w₁ = some (r, w₂)) : Undisturbed i w w₂ := by
  obtain ⟨-, hsame, hsettled⟩ := h.settled.exec hc hexec
  refine ⟨hsettled, h.keeps.trans ?_, fun hd m hm => ?_⟩
  · obtain ⟨x, hx⟩ := hsame.host
    rw [hx, affect_host]
    exact ⟨rfl, rfl, fun _ _ => rfl⟩
  · obtain ⟨m₁, hm₁, hlegacy⟩ := h.legacy hd m hm
    have haffect : w₁.affect op = w₁.modifyMachine c.handle c.effect := by rw [affect, hc]
    rw [hsame.machine?, haffect, machine?_modifyMachine h.settled.rest.sound]
    split
    · rename_i heq
      rw [← heq, hm₁]
      exact ⟨_, rfl, (heffect m₁ (machine?_isParsed h.settled.rest hm₁)).trans hlegacy⟩
    · exact ⟨m₁, hm₁, hlegacy⟩

theorem Undisturbed.underway (h : Undisturbed i w w') (hne : j ≠ i) (hj : w.Underway j m) :
    ∃ m', w'.Underway j m' ∧ m'.legacy = m.legacy := by
  obtain ⟨c, hc, hphase, hm⟩ := hj
  obtain ⟨m', hm', hlegacy⟩ := h.legacy c.handle m hm
  obtain ⟨c', hc', hhandle, hphase'⟩ := h.keeps.conversation hne hc
  exact ⟨m', ⟨c', hc', hphase'.trans hphase, hhandle ▸ hm'⟩, hlegacy⟩

end World

namespace Telling

open World

variable {log : Severity → String → δ → δ} {w w' : World (Story δ)} {i : Nat}
  {m : HostMachine (Story δ)}

theorem undisturbed_saveState (fuel i : Nat) :
    (saveState fuel i).Maintains (Undisturbed (δ := δ) i w) := by
  unfold saveState
  refine maintains_bind (maintains_alive i) fun c => maintains_bind ?_ fun r => ?_
  · exact maintains_perform fun _ _ _ h => h.exec rfl fun _ _ => rfl
  · split
    · exact maintains_pure _
    · exact maintains_throw _

theorem undisturbed_finish (fuel i : Nat) :
    (finish fuel i).Maintains (Undisturbed (δ := δ) i w) := by
  unfold finish
  refine maintains_bind (maintains_conversation? i) fun own => ?_
  split
  · exact maintains_pure _
  · split
    · exact maintains_pure _
    · refine maintains_bind (undisturbed_saveState fuel i) fun saved => ?_
      refine maintains_bind (maintains_update fun w₁ h => h.update ?_) fun _ => ?_
      · exact (w₁.host.even_silence _ i).keeps i
      refine maintains_bind (maintains_unbindStore (fun hrebinds h => ?_) fun name => ?_) fun _ => ?_
      · exact h.update (hrebinds.even.keeps i)
      · refine maintains_perform fun _ _ _ h => h.exec rfl fun m hm => ?_
        exact hm.legacy_unsubscribe name
      · refine maintains_update fun w₁ h => h.update ?_
        rw [Story.emit, Story.modify_modify]
        exact w₁.host.keeps_modify i fun _ => ⟨rfl, rfl⟩

theorem exists_finish (hw : Story.Reachable log w) (hm : w.Underway i m) (fuel : Nat) :
    ∃ h w', (finish (fuel + 2) i).Yields w (.ok ()) w' ∧ w.machine? h = some m ∧
      Finishes i h w w' := by
  obtain ⟨c, hc, hphase, hm⟩ := hm
  obtain ⟨r, w', hr, -⟩ := completes_finish fuel i w hw.atRest
  obtain ⟨rfl, -⟩ := finish_steps hw.atRest hc hphase hm hr
  exact ⟨c.handle, w', hr, hm, ⟨c, hc, rfl, hphase⟩, ⟨m, hm⟩, _, hr⟩

end Telling

namespace Story

open World (Finishes)

variable {log : Severity → String → δ → δ} {w w' v v' : World (Story δ)}
  {ms ns : List (HostMachine (Story δ))}

/-- Conversations are finished, one after the other, whose machines are `ms` by then. Whatever happens
in between leaves the saved state as it is. -/
inductive Closing (log : Severity → String → δ → δ) :
    List (HostMachine (Story δ)) → World (Story δ) → World (Story δ) → Prop
  | rest {w w' : World (Story δ)} (hstate : w'.host.state = w.host.state) : Closing log [] w w'
  | finish {w w₁ w₂ w' : World (Story δ)} {m : HostMachine (Story δ)}
    {ms : List (HostMachine (Story δ))} {i : Nat} {h : Handle}
    (hstate : w₁.host.state = w.host.state) (hw : Reachable log w₁) (hm : w₁.machine? h = some m)
    (hfinishes : Finishes i h w₁ w₂) (hrest : Closing log ms w₂ w') : Closing log (m :: ms) w w'

theorem Closing.parsed (hclosing : Closing log ms w w') : ∀ m ∈ ms, m.IsParsed := by
  induction hclosing with
  | rest _ => exact fun _ hm => by cases hm
  | finish _ hw hm _ _ ih =>
    exact List.forall_mem_cons.mpr ⟨World.machine?_isParsed hw.atRest hm, ih⟩

theorem Closing.state (hclosing : Closing log ms w w') :
    w'.host.state = (ms.map fun m => m.save.1).foldl Snapshot.amend w.host.state := by
  induction hclosing with
  | rest hstate => exact hstate
  | finish hstate hw hm hfinishes _ ih => rw [ih, (hfinishes.amends hw hm).1, hstate]; rfl

theorem exists_closing {is : List Nat} {machine : Nat → HostMachine (Story δ)} (hw : Reachable log w)
    (hnodup : is.Nodup) (fuel : Nat)
    (his : ∀ i ∈ is, ∃ m, w.Underway i m ∧ m.legacy = (machine i).legacy) :
    ∃ ms w', (is.forM (Telling.finish (fuel + 2))).Yields w (.ok ()) w' ∧ Closing log ms w w' ∧
      ms.map Machine.legacy = (is.map machine).map Machine.legacy := by
  induction is generalizing w with
  | nil => exact ⟨[], w, Telling.yields_pure.mpr ⟨rfl, rfl⟩, .rest rfl, rfl⟩
  | cons i is ih =>
    obtain ⟨hi, hnodup⟩ := List.nodup_cons.mp hnodup
    obtain ⟨m, hunderway, hlegacy⟩ := his i List.mem_cons_self
    obtain ⟨h, w₁, hfinish, hm, hfinishes⟩ := Telling.exists_finish hw hunderway fuel
    have hw₁ := (Telling.played_reachable log _ i).finish _ _ _ hw hfinish
    have hsettled : w.Settled fun _ => () := hw.settled fun _ _ _ => rfl
    have hothers := Telling.undisturbed_finish _ i _ _ _ (.refl hsettled) hfinish
    have hrest : ∀ j ∈ is, ∃ m, w₁.Underway j m ∧ m.legacy = (machine j).legacy := by
      intro j hj
      obtain ⟨m, hm, hlegacy⟩ := his j (List.mem_cons_of_mem i hj)
      obtain ⟨m', hm', hsame⟩ := hothers.underway (fun heq => hi (heq ▸ hj)) hm
      exact ⟨m', hm', hsame.trans hlegacy⟩
    obtain ⟨ms, w', hr, hclosing, hms⟩ := ih hw₁ hnodup hrest
    refine ⟨m :: ms, w', (Telling.yields_bind_of_ok hfinish).mpr hr, ?_, ?_⟩
    · exact .finish rfl hw hm hfinishes hclosing
    · rw [List.map_cons, List.map_cons, List.map_cons, hlegacy, hms]

theorem Closing.overwritten (hclosing : Closing log ms w w') (hapart : Machine.Apart ms) :
    w.host.state.Overwritten (ms.map fun m => m.save.1) w'.host.state := by
  rw [hclosing.state]
  exact Snapshot.overwritten_foldl _ (hapart.saves hclosing.parsed)

theorem Closing.state_of_perm (hclosing : Closing log ms w w') (hapart : Machine.Apart ms)
    (hclosing' : Closing log ns v v') (hstate : v.host.state = w.host.state)
    (hperm : (ns.map fun m => m.save.1).Perm (ms.map fun m => m.save.1)) :
    v'.host.state = w'.host.state := by
  rw [hclosing'.state, hclosing.state, hstate]
  exact Snapshot.foldl_amend_perm _ (hapart.saves hclosing.parsed) hperm

/-- Amendments of saved states can be grouped and repeated, and, as far as they have no name in common,
exchanged. Therefore conversations without common globals can be finished in any order: however they
come to be finished, the saved state is the one before, overwritten by what each of them saves. -/
theorem overwritten_of_finishes (log : Severity → String → δ → δ) :
    (∀ s t u : Snapshot, (s.amend t).amend u = s.amend (t.amend u)) ∧
    (∀ s t : Snapshot, s.amend s = s ∧ (s.amend t).amend t = s.amend t) ∧
    (∀ s t u : Snapshot, t.keys.Disjoint u.keys →
      t.amend u = u.amend t ∧ (s.amend t).amend u = (s.amend u).amend t) ∧
    (∀ (ms : List (HostMachine (Story δ))) (w w' : World (Story δ)),
      Closing log ms w w' → Machine.Apart ms →
        w.host.state.Overwritten (ms.map fun m => m.save.1) w'.host.state ∧
        ∀ ns v v', Closing log ns v v' → v.host.state = w.host.state →
          (ns.map fun m => m.save.1).Perm (ms.map fun m => m.save.1) →
            v'.host.state = w'.host.state) ∧
    ∀ (w : World (Story δ)) (is : List Nat) (machine : Nat → HostMachine (Story δ)),
      Reachable log w → is.Nodup → (∀ i ∈ is, w.Underway i (machine i)) →
        Machine.Apart (is.map machine) →
          ∃ s, w.host.state.Overwritten ((is.map machine).map fun m => m.save.1) s ∧
            ∀ js : List Nat, js.Perm is → ∀ fuel, ∃ w' : World (Story δ),
              (js.forM (Telling.finish (fuel + 2))).Yields w (.ok ()) w' ∧ w'.host.state = s := by
  refine ⟨Table.merge_assoc, fun s t => ⟨Table.merge_self s, ?_⟩, fun s t u h =>
    ⟨Table.merge_comm h, Table.merge_right_comm s h⟩, fun ms w w' hclosing hapart => ?_,
    fun w is machine hw hnodup his hapart => ?_⟩
  · exact (Table.merge_assoc s t t).trans (congrArg s.merge (Table.merge_self t))
  · exact ⟨hclosing.overwritten hapart, fun ns v v' => hclosing.state_of_perm hapart⟩
  have hfinish (js : List Nat) (hperm : js.Perm is) (fuel : Nat) :=
    exists_closing hw (hperm.nodup_iff.mpr hnodup) fuel
      fun j hj => ⟨machine j, his j (hperm.mem_iff.mp hj), rfl⟩
  obtain ⟨ms, w', -, hclosing, hms⟩ := hfinish is (.refl is) 0
  have hapart' := hapart.congr hms
  refine ⟨w'.host.state, ?_, fun js hperm fuel => ?_⟩
  · rw [← Machine.saves_of_legacy hms]
    exact hclosing.overwritten hapart'
  · obtain ⟨ns, v', hr, hclosing', hns⟩ := hfinish js hperm fuel
    refine ⟨v', hr, hclosing.state_of_perm hapart' hclosing' rfl ?_⟩
    rw [Machine.saves_of_legacy hms, Machine.saves_of_legacy hns]
    exact (hperm.map machine).map _

def memo (name : String) (b : Bool) : List Builder.Call :=
  [.scriptVariable name, .bough "main", .set 0 (.bool b), .line "mara" "Noted." [], .stop]

theorem underway_memos : ∃ (w : World (Story Unit)) (m m' : HostMachine (Story Unit)),
    Reachable (fun _ _ x => x) w ∧ w.Underway 0 m ∧ w.Underway 1 m' ∧
      m.value "met" = .ok (.bool true) ∧ m'.value "paid" = .ok (.bool false) ∧
        m.container.globals.map (·.name) = ["met"] ∧ m'.container.globals.map (·.name) = ["paid"] ∧
          w.host.state.keys = ["weather"] := by
  let w₀ : World (Story Unit) := .create (logging fun _ _ x => x)
    { Story.create () with state := Table.empty.insert "weather" (.string "rain") }
  have h : (do
      let bytes ← (Builder.run .offset (memo "met" true)).build.toOption
      let data ← (CompiledData.ofBytes bytes).toOption
      let bytes' ← (Builder.run .offset (memo "paid" false)).build.toOption
      let data' ← (CompiledData.ofBytes bytes').toOption
      let w₁ ← ((Act.create .empty data {}).telling 9).run.run w₀
      let w₂ ← ((Act.create .empty data' {}).telling 9).run.run w₁.2
      let w₃ ← ((Act.start 0).telling 9).run.run w₂.2
      let w₄ ← ((Act.start 1).telling 9).run.run w₃.2
      let w₅ ← ((Act.tick 0).telling 9).run.run w₄.2
      let w ← ((Act.tick 1).telling 9).run.run w₅.2
      let c ← w.2.host.conversations[0]?
      let c' ← w.2.host.conversations[1]?
      let m ← w.2.machine? c.handle
      let m' ← w.2.machine? c'.handle
      let met ← (m.value "met").toOption
      let paid ← (m'.value "paid").toOption
      return [decide (c.phase = .started), decide (c'.phase = .started), met == .bool true,
        paid == .bool false, decide (m.container.globals.map (·.name) = ["met"]),
        decide (m'.container.globals.map (·.name) = ["paid"]),
        decide (w.2.host.state.keys = ["weather"])]) =
      some [true, true, true, true, true, true, true] := by
    decide +kernel
  obtain ⟨bytes, -, h⟩ := Option.bind_eq_some_iff.mp h
  obtain ⟨data, -, h⟩ := Option.bind_eq_some_iff.mp h
  obtain ⟨bytes', -, h⟩ := Option.bind_eq_some_iff.mp h
  obtain ⟨data', -, h⟩ := Option.bind_eq_some_iff.mp h
  obtain ⟨⟨r₁, w₁⟩, hw₁, h⟩ := Option.bind_eq_some_iff.mp h
  obtain ⟨⟨r₂, w₂⟩, hw₂, h⟩ := Option.bind_eq_some_iff.mp h
  obtain ⟨⟨r₃, w₃⟩, hw₃, h⟩ := Option.bind_eq_some_iff.mp h
  obtain ⟨⟨r₄, w₄⟩, hw₄, h⟩ := Option.bind_eq_some_iff.mp h
  obtain ⟨⟨r₅, w₅⟩, hw₅, h⟩ := Option.bind_eq_some_iff.mp h
  obtain ⟨⟨r₆, w⟩, hw₆, h⟩ := Option.bind_eq_some_iff.mp h
  obtain ⟨c, hc, h⟩ := Option.bind_eq_some_iff.mp h
  obtain ⟨c', hc', h⟩ := Option.bind_eq_some_iff.mp h
  obtain ⟨m, hm, h⟩ := Option.bind_eq_some_iff.mp h
  obtain ⟨m', hm', h⟩ := Option.bind_eq_some_iff.mp h
  obtain ⟨met, hmet, h⟩ := Option.bind_eq_some_iff.mp h
  obtain ⟨paid, hpaid, h⟩ := Option.bind_eq_some_iff.mp h
  simp only [pure, Option.some.injEq, List.cons.injEq, decide_eq_true_eq, and_true] at h
  obtain ⟨hphase, hphase', htrue, hfalse, hnames, hnames', hkeys⟩ := h
  rw [Telling.eq_bool_of_beq htrue] at hmet
  rw [Telling.eq_bool_of_beq hfalse] at hpaid
  have hstarted := reachable_act 9 _ _ _ _ (reachable_act 9 _ _ _ _ (reachable_act 9 _ _ _ _
    (reachable_act 9 _ _ _ _ (.create _) hw₁) hw₂) hw₃) hw₄
  have hw := reachable_act 9 _ _ _ _ (reachable_act 9 _ _ _ _ hstarted hw₅) hw₆
  exact ⟨w, m, m', hw, ⟨c, hc, hphase, hm⟩, ⟨c', hc', hphase', hm'⟩,
    Except.toOption_eq_some_iff.mp hmet, Except.toOption_eq_some_iff.mp hpaid, hnames, hnames',
    hkeys⟩

/-- Two conversations note something and are finished, in both orders. What was saved before stays
beside their notes. -/
theorem overwritten_memos : ∃ (w w' v' : World (Story Unit)) (m m' : HostMachine (Story Unit))
    (ms ns : List (HostMachine (Story Unit))) (s : Snapshot),
    w.Underway 0 m ∧ w.Underway 1 m' ∧ Closing (fun _ _ x => x) ms w w' ∧
      Closing (fun _ _ x => x) ns w v' ∧ ms.map Machine.legacy = [m.legacy, m'.legacy] ∧
        ns.map Machine.legacy = [m'.legacy, m.legacy] ∧ v'.host.state = w'.host.state ∧
          w.host.state.keys = ["weather"] ∧ s.get? "weather" = w.host.state.get? "weather" ∧
            s.get? "met" = some (.bool true) ∧ s.get? "paid" = some (.bool false) ∧
              ∀ js : List Nat, js.Perm [0, 1] → ∃ w',
                (js.forM (Telling.finish 9)).Yields w (.ok ()) w' ∧ w'.host.state = s := by
  obtain ⟨w, m, m', hw, hm, hm', hmet, hpaid, hnames, hnames', hkeys⟩ := underway_memos
  let machine : Nat → HostMachine (Story Unit) := fun i => if i = 0 then m else m'
  have his : ∀ i ∈ [0, 1], w.Underway i (machine i) :=
    List.forall_mem_cons.mpr ⟨hm, List.forall_mem_singleton.mpr hm'⟩
  have hapart : Machine.Apart ([0, 1].map machine) := by
    refine List.pairwise_pair.mpr ?_
    change (m.container.globals.map (·.name)).Disjoint (m'.container.globals.map (·.name))
    rw [hnames, hnames']
    simp
  obtain ⟨-, -, -, hhistories, hruns⟩ := overwritten_of_finishes (δ := Unit) fun _ _ x => x
  obtain ⟨s, hs, hruns⟩ := hruns w [0, 1] machine hw (by decide) his hapart
  obtain ⟨ms, w', -, hclosing, hms⟩ := exists_closing hw (by decide) 7
    fun i hi => ⟨machine i, his i hi, rfl⟩
  obtain ⟨ns, v', -, hclosing', hns⟩ := exists_closing hw (by decide) 7
    fun i (hi : i ∈ [1, 0]) => ⟨machine i, his i ((List.Perm.swap 0 1 []).mem_iff.mp hi), rfl⟩
  have hperm : (ns.map fun m => m.save.1).Perm (ms.map fun m => m.save.1) := by
    rw [Machine.saves_of_legacy hms, Machine.saves_of_legacy hns]
    exact .swap _ _ _
  have hstate := (hhistories ms w w' hclosing (hapart.congr hms)).2 ns w v' hclosing' rfl hperm
  have hparsed : ∀ i ∈ [0, 1], (machine i).IsParsed := by
    intro i hi
    obtain ⟨c, -, -, hm⟩ := his i hi
    exact World.machine?_isParsed hw.atRest hm
  have hmet' := (hparsed 0 (by decide)).save_value hmet (j := .bool true) rfl
  have hpaid' := (hparsed 1 (by decide)).save_value hpaid (j := .bool false) rfl
  have hweather : ∀ t ∈ ([0, 1].map machine).map fun m => m.save.1, t.get? "weather" = none := by
    refine List.forall_mem_cons.mpr ⟨?_, List.forall_mem_singleton.mpr ?_⟩
    · exact (hparsed 0 (by decide)).save_eq_none (hnames ▸ by decide)
    · exact (hparsed 1 (by decide)).save_eq_none (hnames' ▸ by decide)
  exact ⟨w, w', v', m, m', ms, ns, s, hm, hm', hclosing, hclosing', hms, hns, hstate, hkeys,
    hs.kept "weather" hweather, hs.saved _ (.head _) "met" _ hmet',
    hs.saved _ (.tail _ (.head _)) "paid" _ hpaid', fun js hperm => hruns js hperm 7⟩

end Story

end Dialogue
