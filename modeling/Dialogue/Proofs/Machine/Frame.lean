import Dialogue.Proofs.Machine.Globals

namespace Dialogue

structure Standing where
  container : Container
  state : MachineState
  ip : Nat
  pending : List Choice
  visited : List UInt32
  events : List Event

namespace Machine

variable {φ : Type} {m m' : Machine φ}

def standing (m : Machine φ) : Standing :=
  ⟨m.container, m.state, m.ip, m.pending, m.visited, m.events⟩

theorem standing_setExtern {name : String} {v : Value} (h : m.setExtern name v = .ok m') :
    m'.standing = m.standing := by
  obtain ⟨g, -, -, rfl⟩ := setExtern_eq_ok h
  rfl

theorem standing_setFunction {name : String} {arity : Nat} {body : φ}
    (h : m.setFunction name arity body = .ok m') : m'.standing = m.standing := by
  obtain ⟨g, -, rfl⟩ := setFunction_eq_ok h
  rfl

theorem standing_subscribe {name : String} (h : m.subscribe name = .ok m') :
    m'.standing = m.standing := by
  obtain ⟨g, -, -, rfl⟩ := subscribe_eq_ok h
  rfl

theorem standing_loadEntries (m : Machine φ) (entries : List (String × Json)) :
    (m.loadEntries entries).1.standing = m.standing := by
  induction entries generalizing m with
  | nil => rfl
  | cons entry entries ih =>
    refine (ih (m.loadEntry entry.1 entry.2).1).trans ?_
    rcases loadEntry_cases m entry.1 entry.2 with h | ⟨e, h⟩ | ⟨g, v, -, -, h⟩ <;> rw [h] <;> rfl

end Machine

/-- What stays when a machine is prepared: its standing, the values of all globals but those in
`writes`, and what is observed but for those in `observes`. -/
structure Machine.Primed {φ : Type} (writes observes : String → Prop) (m m' : Machine φ) : Prop where
  standing : m'.standing = m.standing
  symbols : m'.globals.map (·.symbol) = m.globals.map (·.symbol)
  slot : ∀ n, ¬writes n → (m'.global? n).map (·.slot) = (m.global? n).map (·.slot)
  observed : ∀ n, ¬observes n →
    (m'.global? n).map (·.observed) = (m.global? n).map (·.observed)

namespace Machine

variable {φ : Type} {m m' m'' : Machine φ} {writes observes writes' observes' : String → Prop}

theorem Primed.of_globals (hstanding : m'.standing = m.standing) (hglobals : m'.globals = m.globals) :
    Primed writes observes m m' :=
  ⟨hstanding, by rw [hglobals], fun n _ => by rw [global?, hglobals, global?],
    fun n _ => by rw [global?, hglobals, global?]⟩

theorem Primed.refl : Primed writes observes m m := .of_globals rfl rfl

theorem Primed.trans (h : Primed writes observes m m') (h' : Primed writes observes m' m'') :
    Primed writes observes m m'' :=
  ⟨h'.standing.trans h.standing, h'.symbols.trans h.symbols,
    fun n hn => (h'.slot n hn).trans (h.slot n hn),
    fun n hn => (h'.observed n hn).trans (h.observed n hn)⟩

theorem Primed.mono (h : Primed writes observes m m') (hwrites : ∀ n, writes n → writes' n)
    (hobserves : ∀ n, observes n → observes' n) : Primed writes' observes' m m' :=
  ⟨h.standing, h.symbols, fun n hn => h.slot n (mt (hwrites n) hn),
    fun n hn => h.observed n (mt (hobserves n) hn)⟩

theorem Primed.isParsed (h : Primed writes observes m m') (hm : m.IsParsed) : m'.IsParsed :=
  hm.congr (congrArg Standing.container h.standing) h.symbols

theorem primed_setExtern {name : String} {v : Value} (hm : m.IsParsed)
    (h : m.setExtern name v = .ok m') : Primed (· = name) observes m m' := by
  have hglobal? := hm.global?_setExtern h
  refine ⟨standing_setExtern h, (adjusts_setExtern h).symbols, fun n hn => ?_, fun n _ => ?_⟩
  · rw [hglobal?, if_neg hn]
  · rw [hglobal?]
    split
    · rename_i heq
      rw [heq, Option.map_map]
      rfl
    · rfl

theorem primed_subscribe {name : String} (hm : m.IsParsed) (h : m.subscribe name = .ok m') :
    Primed writes (· = name) m m' := by
  have hglobal? := hm.global?_subscribe h
  refine ⟨standing_subscribe h, (adjusts_subscribe h).symbols, fun n _ => ?_, fun n hn => ?_⟩
  · rw [hglobal?]
    split
    · rename_i heq
      rw [heq, Option.map_map]
      rfl
    · rfl
  · rw [hglobal?, if_neg hn]

theorem primed_loadEntries (hm : m.IsParsed) (entries : List (String × Json)) :
    Primed (· ∈ entries.map (·.1)) observes m (m.loadEntries entries).1 := by
  induction entries generalizing m with
  | nil => exact .refl
  | cons entry entries ih =>
    obtain ⟨name, j⟩ := entry
    have hentry : Primed (· = name) observes m (m.loadEntry name j).1 := by
      refine ⟨standing_loadEntries m [(name, j)], (adjusts_loadEntry m name j).symbols,
        fun n hn => ?_, fun n _ => ?_⟩
      · rcases hm.global?_loadEntry name j with h | ⟨v, h⟩
        · rw [h]
        · rw [h, if_neg hn]
      · rcases hm.global?_loadEntry name j with h | ⟨v, h⟩
        · rw [h]
        · rw [h]
          split
          · rename_i heq
            rw [heq, Option.map_map]
            rfl
          · rfl
    refine (hentry.mono ?_ fun _ => id).trans ((ih (hentry.isParsed hm)).mono ?_ fun _ => id)
    · rintro n rfl
      exact List.mem_cons_self
    · exact fun n hn => List.mem_cons_of_mem _ hn

end Machine

end Dialogue
