import Dialogue.Proofs.Container.Assembly
import Dialogue.Proofs.Story.Preparation

namespace Dialogue

variable {δ ν : Type} {view : δ → ν} {w w' w₁ : World (Story δ)} {i : Nat} {h : Handle}

namespace Telling

open World

theorem inject_same {fuel : Nat} {r : Except StoryError Unit} (hw : Settled view w)
    (hr : (inject fuel h).Yields w r w') :
    r = .ok () ∧ Same view (w.inject h) w' ∧ Settled view w' := by
  unfold Telling.inject at hr
  rw [yields_story_bind] at hr
  simp only at hr
  unfold World.inject
  split at hr
  · rename_i hempty
    rw [if_neg (by simpa using hempty)]
    obtain ⟨w₁, hdone, hsame, hw₁⟩ := hw.perform_bind rfl hr
    obtain ⟨rfl, rfl⟩ := yields_pure.mp hdone
    exact ⟨rfl, hsame, hw₁⟩
  · rename_i hempty
    rw [if_pos (by simpa using hempty)]
    obtain ⟨rfl, rfl⟩ := yields_pure.mp hr
    exact ⟨rfl, .refl _, hw⟩

theorem declareEnums_same {fuel : Nat} {ds : List EnumDomain} {u : PUnit}
    {r : Except StoryError PUnit} (hw : Settled view w)
    (hr : (forIn ds u fun d _ => do
      let _ ← perform fuel (.declareEnum h d)
      pure (.yield .unit) : Telling δ PUnit).Yields w r w') :
    r = .ok .unit ∧ Same view (ds.foldl (fun w d => w.affect (.declareEnum h d)) w) w' ∧
      Settled view w' := by
  induction ds generalizing w with
  | nil =>
    obtain ⟨rfl, rfl⟩ := yields_pure.mp hr
    exact ⟨rfl, .refl _, hw⟩
  | cons d ds ih =>
    rw [List.forIn_cons, bind_assoc] at hr
    obtain ⟨w₁, hrest, hsame, hw₁⟩ := hw.perform_bind rfl hr
    obtain ⟨rfl, hrest, hw'⟩ := ih hw₁ hrest
    exact ⟨rfl, (Same.foldl (fun d hs => hs.affect (.declareEnum h d)) ds hsame).trans hrest, hw'⟩

theorem bindVariable_same {fuel : Nat} {c own : Conversation δ} {store : VariableStore Handle}
    {name : String} {v : Value} {r : Except StoryError Unit} (hw : Settled view w)
    (hown : w.host.conversations[i]? = some own) (hstore : w.host.store = some store)
    (hexterns : own.externs = c.externs) (hv : store.get? name = some v)
    (hr : (bindVariable fuel i c name).Yields w r w') : r = .ok () ∧ Settled view w' ∧
      Same view (if own.lacks name then w.bind i c.handle name v else w) w' := by
  unfold Telling.bindVariable at hr
  rw [yields_conversation?_bind, hown] at hr
  simp only [Option.map_some, Option.getD_some] at hr
  split at hr
  · rename_i hskip
    obtain ⟨rfl, rfl⟩ := yields_pure.mp hr
    rw [if_neg (by simpa [Conversation.lacks, hexterns, imp_iff_not_or] using hskip)]
    exact ⟨rfl, hw, .refl _⟩
  · rename_i hbind
    rw [if_pos (by simpa [Conversation.lacks, hexterns] using hbind)]
    rw [yields_story_bind, hstore] at hr
    simp only [Option.bind_some, hv] at hr
    obtain ⟨w₁, hr, hsame₁, hw₁⟩ := hw.perform_bind rfl hr
    obtain ⟨w₂, hr, hsame₂, hw₂⟩ := hw₁.perform_bind rfl hr
    have hsame := (hsame₁.affect (.subscribe c.handle name)).trans hsame₂
    obtain ⟨x, hx, rfl⟩ := hsame
    rw [yields_story_bind] at hr
    simp only [withOwn, affect_host, hstore, yields_update] at hr
    obtain ⟨rfl, rfl⟩ := hr
    refine ⟨rfl, hw₂.update fun _ => _, x, ?_, ?_⟩
    · rw [hx]
      simp only [World.bind, affect_host, Story.bindName, hstore]
      rfl
    · simp only [World.bind, affect_host, Story.bindName, hstore, withOwn]
      rfl

theorem bindVariables_same {fuel : Nat} {c own : Conversation δ} {store : VariableStore Handle}
    {es : List (String × Value)} {u : PUnit} {r : Except StoryError PUnit} (hw : Settled view w)
    (hown : w.host.conversations[i]? = some own) (hexterns : own.externs = c.externs)
    (hstore : w.host.store = some store) (hes : ∀ e ∈ es, store.get? e.1 = some e.2)
    (hnodup : (es.map (·.1)).Nodup)
    (hr : (forIn (es.map (·.1)) u fun name _ => do
      bindVariable fuel i c name
      pure (.yield .unit) : Telling δ PUnit).Yields w r w') :
    r = .ok .unit ∧ Settled view w' ∧ Same view ((es.filter fun e => own.lacks e.1).foldl
      (fun w e => w.bind i c.handle e.1 e.2) w) w' := by
  induction es generalizing w own store with
  | nil =>
    obtain ⟨rfl, rfl⟩ := yields_pure.mp hr
    exact ⟨rfl, hw, .refl _⟩
  | cons e es ih =>
    obtain ⟨hfresh, hnodup⟩ := List.nodup_cons.mp hnodup
    rw [List.map_cons, List.forIn_cons, bind_assoc] at hr
    have hfirst {r₁ : Except StoryError Unit} {w₁ : World (Story δ)}
        (h : (bindVariable fuel i c e.1).Yields w r₁ w₁) :=
      bindVariable_same hw hown hstore hexterns (hes e List.mem_cons_self) h
    rcases yields_bind.mp hr with ⟨u, w₁, h, hr⟩ | ⟨e', h, -⟩
    · obtain ⟨-, hw₁, hsame⟩ := hfirst h
      simp only [pure_bind] at hr
      obtain ⟨x, hx⟩ := hsame.host
      have hrest : ∀ e ∈ es, store.get? e.1 = some e.2 := fun e he => hes e (List.mem_cons_of_mem _ he)
      have hfold (es : List (String × Value)) :=
        Same.foldl (fun e hs => hs.bind i c.handle e.1 e.2) es hsame
      cases hbind : own.lacks e.1 with
      | false =>
        simp only [hbind, Bool.false_eq_true, if_false] at hx hfold
        rw [List.filter_cons_of_neg (by simpa using hbind)]
        obtain ⟨rfl, hw', hsame'⟩ := ih hw₁ (by rw [hx]; exact hown) hexterns (by rw [hx]; exact hstore)
          hrest hnodup hr
        exact ⟨rfl, hw', (hfold _).trans hsame'⟩
      | true =>
        simp only [hbind, if_true] at hx hfold
        rw [List.filter_cons_of_pos (by simpa using hbind), List.foldl_cons]
        have hown₁ : w₁.host.conversations[i]? =
            some { own with bindings := own.bindings ++ [(e.1, store.nextId)] } := by
          rw [hx]
          simp only [World.bind, affect_host]
          exact Story.bindName_conversation hstore hown c.handle e.1
        have hstore₁ : w₁.host.store = some (store.watch e.1 c.handle).2 := by
          rw [hx]
          simp only [World.bind, affect_host]
          exact Story.bindName_store hstore i c.handle e.1
        obtain ⟨rfl, hw', hsame'⟩ := ih hw₁ hown₁ hexterns hstore₁ hrest hnodup hr
        refine ⟨rfl, hw', (hfold _).trans ?_⟩
        -- The names to come are not the one that has just been bound.
        have hothers : es.filter (fun e => own.lacks e.1) = es.filter fun e' =>
            Conversation.lacks { own with bindings := own.bindings ++ [(e.1, store.nextId)] } e'.1 := by
          apply List.filter_congr
          intro e' he'
          have hne : e.1 ≠ e'.1 := fun heq => hfresh (List.mem_map.mpr ⟨e', he', heq.symm⟩)
          exact (Story.lacks_bound own store.nextId hne).symm
        rw [hothers]
        exact hsame'
    · cases (hfirst h).1

theorem bindStore_same {fuel : Nat} {c : Conversation δ} {r : Except StoryError Unit}
    (hw : Settled view w) (hown : w.host.conversations[i]? = some c)
    (hr : (bindStore fuel i c).Yields w r w') :
    r = .ok () ∧ Settled view w' ∧ Same view ((w.host.unbound c).foldl
      (fun w e => w.bind i c.handle e.1 e.2) (w.declareEnums c.handle)) w' := by
  unfold Telling.bindStore at hr
  rw [yields_story_bind] at hr
  have hdeclared := host_declareEnums w c.handle
  unfold World.declareEnums at hdeclared ⊢
  unfold Story.unbound
  cases hstore : w.host.store with
  | none =>
    rw [hstore] at hr
    obtain ⟨rfl, rfl⟩ := yields_pure.mp hr
    exact ⟨rfl, hw, .refl _⟩
  | some store =>
    rw [hstore] at hr
    simp only [hstore] at hdeclared
    rcases yields_bind.mp hr with ⟨u, w₁, hdeclare, hr⟩ | ⟨e, hdeclare, -⟩
    · obtain ⟨-, hsame₁, hw₁⟩ := declareEnums_same hw hdeclare
      obtain ⟨x, hx⟩ := hsame₁.host
      rw [hdeclared] at hx
      have hloop {r : Except StoryError PUnit} {w₂ : World (Story δ)}
          (h : (forIn (store.values.entries.map (·.1)) PUnit.unit fun name _ => do
            bindVariable fuel i c name
            pure (.yield .unit) : Telling δ PUnit).Yields w₁ r w₂) :=
        bindVariables_same hw₁ (hx ▸ hown) rfl (by rw [hx]; exact hstore)
          (fun e he => Table.get?_of_mem he) store.values.nodup_keys h
      rcases yields_bind.mp hr with ⟨u, w₂, hbind, hr⟩ | ⟨e, hbind, -⟩
      · obtain ⟨-, hw₂, hsame₂⟩ := hloop hbind
        obtain ⟨rfl, rfl⟩ := yields_pure.mp hr
        exact ⟨rfl, hw₂,
          (Same.foldl (fun e hs => hs.bind i c.handle e.1 e.2) _ hsame₁).trans hsame₂⟩
      · cases (hloop hbind).1
    · cases (declareEnums_same hw hdeclare).1

end Telling

namespace World

def begun (w : World (Story δ)) (i : Nat) (h : Handle) (m : HostMachine (Story δ)) (bough : String) :
    World (Story δ) :=
  { w.modifyMachine h fun _ => m with
    host := ((w.host.clearPending i).modify i fun c => { c with phase := .started }).emit i
      (.started bough) }

end World

namespace Telling

open World

theorem startBough_outcome {fuel : Nat} {bough : String} {r : Except StoryError Unit}
    (hw : Settled view w) (hr : (startBough fuel i bough).Yields w r w') :
    ((∀ c, w.host.conversations[i]? = some c → c.phase = .destroyed) ∧
      (∃ h, r = .error (.destroyed h)) ∧ w' = w) ∨
    ∃ c, w.host.conversations[i]? = some c ∧ c.phase ≠ .destroyed ∧
      ((r = .error (.startFailed bough) ∧ Same view (w.prepared i c) w' ∧
        ∀ m m', (w.prepared i c).machine? c.handle = some m → m.start bough ≠ .ok m') ∨
        ∃ m m', (w.prepared i c).machine? c.handle = some m ∧ m.start bough = .ok m' ∧
          r = .ok () ∧ Same view ((w.prepared i c).begun i c.handle m' bough) w') := by
  unfold Telling.startBough at hr
  rcases alive_bind hr with ⟨c, hc, hphase, hr⟩ | hdestroyed
  · refine .inr ⟨c, hc, hphase, ?_⟩
    rcases yields_bind.mp hr with ⟨u, w₁, hinject, hr⟩ | ⟨e, hinject, -⟩
    · obtain ⟨-, hsame₁, hw₁⟩ := inject_same hw hinject
      obtain ⟨x₁, hx₁⟩ := hsame₁.host
      rw [host_inject] at hx₁
      have hbinds {r : Except StoryError Unit} {w₂ : World (Story δ)}
          (h : (bindStore fuel i c).Yields w₁ r w₂) : r = .ok () ∧ Settled view w₂ ∧
            Same view (w.prepared i c) w₂ := by
        obtain ⟨hr, hw₂, hsame₂⟩ := bindStore_same hw₁ (by rw [hx₁]; exact hc) h
        have hunbound : w₁.host.unbound c = w.host.unbound c := by
          rw [hx₁]
          rfl
        refine ⟨hr, hw₂, Same.trans ?_ hsame₂⟩
        rw [hunbound, World.prepared]
        apply Same.foldl fun e hs => hs.bind i c.handle e.1 e.2
        exact hsame₁.declareEnums c.handle
      rcases yields_bind.mp hr with ⟨u, w₂, hbind, hr⟩ | ⟨e, hbind, -⟩
      · obtain ⟨-, hw₂, hsame⟩ := hbinds hbind
        obtain ⟨a, w₃, hstart, hr⟩ := yields_performFlag_bind.mp hr
        rcases start_cases hw₂.rest hstart with ⟨m, m', hm, hm', rfl, rfl⟩ | ⟨hno, rfl, hlogs⟩
        · right
          simp only [Reply.isYes, Bool.not_true, Bool.false_eq_true, if_false] at hr
          obtain ⟨rfl, rfl⟩ := yields_update.mp hr
          rw [hsame.machine?] at hm
          refine ⟨m, m', hm, hm', rfl, ?_⟩
          obtain ⟨x, hx, rfl⟩ := hsame
          refine ⟨x, ?_, ?_⟩
          · simp only [begun]
            exact hx
          · rw [withOwn_modifyMachine]
            simp only [begun, withOwn, modifyMachine]
            split <;> rfl
        · left
          obtain ⟨rfl, rfl⟩ := yields_throw_bind.mp hr
          exact ⟨rfl, hsame.trans (same_of_logs hw₂.discreet hlogs), hsame.machine? c.handle ▸ hno⟩
      · cases (hbinds hbind).1
    · cases (inject_same hw hinject).1
  · exact .inl hdestroyed

theorem startBough_cases {fuel : Nat} {bough : String} {r : Except StoryError Unit}
    (hw : Settled view w) (hr : (startBough fuel i bough).Yields w r w') :
    ((∀ c, w.host.conversations[i]? = some c → c.phase = .destroyed) ∧
      (∃ h, r = .error (.destroyed h)) ∧ w' = w) ∨
    ∃ c, w.host.conversations[i]? = some c ∧ c.phase ≠ .destroyed ∧
      ((r = .error (.startFailed bough) ∧ Same view (w.prepared i c) w') ∨
        ∃ m m', (w.prepared i c).machine? c.handle = some m ∧ m.start bough = .ok m' ∧
          r = .ok () ∧ Same view ((w.prepared i c).begun i c.handle m' bough) w') := by
  rcases startBough_outcome hw hr with hdestroyed | ⟨c, hc, hphase, ⟨he, hsame, -⟩ | hstarted⟩
  · exact .inl hdestroyed
  · exact .inr ⟨c, hc, hphase, .inl ⟨he, hsame⟩⟩
  · exact .inr ⟨c, hc, hphase, .inr hstarted⟩

end Telling

namespace World

/-- What a start has done when the machine refuses it. The machine has taken over the saved state and
the shared variables that the conversation lacked; the conversation has their bindings, and the store
their watches. -/
structure Refused (i : Nat) (c : Conversation δ) (w w' : World (Story δ)) : Prop where
  exact : ∃ x, w' = (w.prepared i c).withOwn x
  machine : ∀ m, w.machine? c.handle = some m → ∃ m', w'.machine? c.handle = some m' ∧
    m.Primed (fun n => n ∈ w.host.state.keys ∨ n ∈ (w.host.unbound c).map (·.1))
      (· ∈ (w.host.unbound c).map (·.1)) m'
  others : ∀ h, h ≠ c.handle → w'.machine? h = w.machine? h
  host : ∃ x, w'.host =
    { w.host.bindNames i c.handle ((w.host.unbound c).map (·.1)) with host := x }

theorem machine?_isParsed (hw : w.AtRest) {m : HostMachine (Story δ)} (hm : w.machine? h = some m) :
    m.IsParsed := by
  obtain ⟨j, -, hj⟩ := Option.bind_eq_some_iff.mp hm
  obtain ⟨inst, hinst, rfl⟩ := Option.map_eq_some_iff.mp hj
  exact hw.parsed inst (List.mem_of_getElem? hinst)

theorem refused_of_same (hw : w.AtRest) {c : Conversation δ}
    (hsame : Same view (w.prepared i c) w') : Refused i c w w' := by
  have hprimes := primes_prepared hw.sound i c
  obtain ⟨x, -, heq⟩ := id hsame
  refine ⟨⟨x, heq⟩, fun m hm => ?_, fun h hne => ?_, x, ?_⟩
  · rw [hsame.machine?]
    exact hprimes.machine m hm (machine?_isParsed hw hm)
  · rw [hsame.machine?]
    exact hprimes.others h hne
  · rw [heq, ← host_prepared]
    rfl

end World

namespace Telling

variable {log : Severity → String → δ → δ}

/-- A start that fails leaves the conversation as it prepared it. The conversation keeps its phase,
what it waits for and its events, and the machine its place in the script. -/
theorem refused_of_error {t : Telling δ Unit} {fuel : Nat} {e : StoryError}
    (hw : Story.Reachable log w)
    (ht : t = start fuel i ∨ ∃ bough, t = startBough fuel i bough) (hr : t.Yields w (.error e) w') :
    ((∀ c, w.host.conversations[i]? = some c → c.phase = .destroyed) ∧ w' = w) ∨
      ∃ c, w.host.conversations[i]? = some c ∧ (∃ bough, e = .startFailed bough) ∧
        World.Refused i c w w' := by
  have hrefused {bough : String} (hr : (startBough fuel i bough).Yields w (.error e) w') :
      ((∀ c, w.host.conversations[i]? = some c → c.phase = .destroyed) ∧ w' = w) ∨
        ∃ c, w.host.conversations[i]? = some c ∧ (∃ bough, e = .startFailed bough) ∧
          World.Refused i c w w' := by
    have hsettled : w.Settled fun _ => () := hw.settled fun _ _ _ => rfl
    rcases startBough_cases hsettled hr with ⟨hdestroyed, -, hw'⟩ | ⟨c, hc, -, hstarted⟩
    · exact .inl ⟨hdestroyed, hw'⟩
    · right
      rcases hstarted with ⟨he, hsame⟩ | ⟨m, m', -, -, hok, -⟩
      · exact ⟨c, hc, ⟨bough, Except.error.inj he⟩, World.refused_of_same hw.atRest hsame⟩
      · cases hok
  rcases ht with rfl | ⟨bough, rfl⟩
  · unfold start at hr
    rw [yields_conversation?_bind] at hr
    exact hrefused hr
  · exact hrefused hr

def acquaintance : List Builder.Call :=
  [.scriptVariable "met", .bough "main", .line "mara" "Hello." [], .stop]

def kindOf (name : String) (m : HostMachine (Story Unit)) : Option Tag :=
  (m.value name).toOption.map Value.tag

theorem startBough_acquaintance : ∃ (w w' : World (Story Unit)) (m m' : HostMachine (Story Unit)),
    Story.Reachable (fun _ _ x => x) w ∧
      (startBough 3 0 "elsewhere").Yields w (.error (.startFailed "elsewhere")) w' ∧
        w.machine? ⟨0, 0⟩ = some m ∧ w'.machine? ⟨0, 0⟩ = some m' ∧
          m'.value "met" ≠ m.value "met" := by
  let w₀ : World (Story Unit) := .create (Story.logging fun _ _ x => x)
    { Story.create () with state := Table.empty.insert "met" (.bool true) }
  have h : ((Builder.run .offset acquaintance).build.map fun bytes =>
      (CompiledData.ofBytes bytes).map fun data =>
        ((create 3 .empty data {}).run.run w₀).map fun x =>
          ((x.2.machine? ⟨0, 0⟩).any (kindOf "met" · == some .nil),
            ((startBough 3 0 "elsewhere").run.run x.2).map fun y =>
              (decide (y.1 = .error (.startFailed "elsewhere")),
                (y.2.machine? ⟨0, 0⟩).any (kindOf "met" · == some .bool)))) =
      .ok (.ok (some (true, some (true, true)))) := by
    decide +kernel
  obtain ⟨bytes, -, h⟩ := Except.map_eq_ok_iff.mp h
  obtain ⟨data, -, h⟩ := Except.map_eq_ok_iff.mp h.symm
  obtain ⟨⟨r, w⟩, hcreate, h⟩ := Option.map_eq_some_iff.mp h.symm
  simp only [Prod.mk.injEq] at h
  obtain ⟨hbefore, h⟩ := h
  obtain ⟨⟨r', w'⟩, hstart, h⟩ := Option.map_eq_some_iff.mp h
  simp only [Prod.mk.injEq, decide_eq_true_eq] at h
  obtain ⟨rfl, hafter⟩ := h
  rw [Option.any_eq_true] at hbefore hafter
  obtain ⟨m, hm, hnil⟩ := hbefore
  obtain ⟨m', hm', hbool⟩ := hafter
  refine ⟨w, w', m, m', Story.reachable_create 3 _ _ _ w₀ r w (.create _) hcreate, hstart, hm, hm',
    fun heq => ?_⟩
  rw [beq_iff_eq, kindOf] at hnil hbool
  rw [heq, hnil] at hbool
  cases hbool

/-- The machine has taken over the saved state although it has not started. -/
theorem not_global?_of_error : ¬∀ {w w' : World (Story Unit)} {fuel i : Nat} {bough : String}
    {e : StoryError}, Story.Reachable (fun _ _ x => x) w →
      (startBough fuel i bough).Yields w (.error e) w' → ∀ {h m m'}, w.machine? h = some m →
        w'.machine? h = some m' → ∀ name, m'.global? name = m.global? name := by
  intro hsame
  obtain ⟨w, w', m, m', hw, hstart, hm, hm', hne⟩ := startBough_acquaintance
  apply hne
  rw [Machine.value, hsame hw hstart hm hm', Machine.value]

theorem refused_acquaintance : ∃ (w w' : World (Story Unit)) (c : Conversation Unit),
    Story.Reachable (fun _ _ x => x) w ∧
      (startBough 3 0 "elsewhere").Yields w (.error (.startFailed "elsewhere")) w' ∧
        w.host.conversations[0]? = some c ∧ World.Refused 0 c w w' := by
  obtain ⟨w, w', m, m', hw, hstart, hm, hm', hne⟩ := startBough_acquaintance
  rcases refused_of_error hw (.inr ⟨_, rfl⟩) hstart with ⟨-, rfl⟩ | ⟨c, hc, -, hrefused⟩
  · cases hm.symm.trans hm'
    exact absurd rfl hne
  · exact ⟨w, w', c, hw, hstart, hc, hrefused⟩

end Telling

end Dialogue
