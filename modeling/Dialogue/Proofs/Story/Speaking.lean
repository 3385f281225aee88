import Dialogue.Proofs.Story.Deference

/-!
Who speaks in a conversation, beat by beat. Calls start and stop speakers in turn, and the one to be
stopped is the one that was started, whoever is registered by then.
-/

namespace Dialogue

variable {α β δ κ : Type}

inductive Signal (α : Type) where
  | start (x : α) (l : Line)
  | stop (x : α)
deriving DecidableEq

namespace Signal

def speaker : Signal α → α
  | start x _ | stop x => x

def map (f : α → β) : Signal α → Signal β
  | start x l => start (f x) l
  | stop x => stop (f x)

end Signal

/-- Calls from one active speaker to another: while nobody is active the next call is a start, and
then the next one stops whom it has started. -/
inductive Alternate {α : Type} : Option α → List (Signal α) → Option α → Prop
  | rest (x : Option α) : Alternate x [] x
  | start {x : α} {l : Line} {signals : List (Signal α)} {y : Option α}
    (later : Alternate (some x) signals y) : Alternate none (.start x l :: signals) y
  | stop {x : α} {signals : List (Signal α)} {y : Option α}
    (later : Alternate none signals y) : Alternate (some x) (.stop x :: signals) y

namespace Alternate

variable {x y z : Option α} {signals signals' : List (Signal α)}

theorem trans (h : Alternate x signals y) (h' : Alternate y signals' z) :
    Alternate x (signals ++ signals') z := by
  induction h with
  | rest => exact h'
  | start _ ih => exact .start (ih h')
  | stop _ ih => exact .stop (ih h')

theorem stops (x : Option α) : Alternate x (x.toList.map .stop) none := by
  cases x with
  | none => exact .rest none
  | some x => exact .stop (.rest none)

theorem starts (x : Option α) (l : Line) : Alternate none (x.toList.map (.start · l)) x := by
  cases x with
  | none => exact .rest none
  | some x => exact .start (.rest (some x))

end Alternate

/-- The speaker leaves a record of its calls, under its key. -/
structure Speaker.Records (heard : δ → List (Signal κ)) (key : Speaker δ → κ) (x : Speaker δ) :
    Prop where
  start : ∀ l e, heard (x.start l e) = heard e ++ [.start (key x) l]
  stop : ∀ e, heard (x.stop e) = heard e ++ [.stop (key x)]

def Phase.isOver : Phase → Bool
  | finished | destroyed => true
  | created | started => false

namespace Story

variable {heard : δ → List (Signal κ)} {troupe : Speaker δ → Prop} {key : Speaker δ → κ}
  {s s' s'' : Story δ} {i : Nat} {l : Line} {p : Phase}

def speaking? (s : Story δ) (i : Nat) : Option (Speaker δ) := (s.conversations[i]?).bind (·.speaker)

def phase? (s : Story δ) (i : Nat) : Option Phase := s.conversations[i]?.map (·.phase)

/-- The lines among the events of a conversation that nobody has taken yet. -/
def told (s : Story δ) (i : Nat) : List SpokenLine := (s.conversations[i]?.map (·.said)).getD []

def Lives (s : Story δ) (i : Nat) : Prop := ∃ p, s.phase? i = some p ∧ p ≠ .destroyed

def Engages (troupe : Speaker δ → Prop) (s : Story δ) : Prop :=
  ∀ e ∈ s.speakers.entries, troupe e.2

structure Staffed (troupe : Speaker δ → Prop) (s : Story δ) : Prop where
  engages : s.Engages troupe
  speaking : ∀ i x, s.speaking? i = some x → troupe x

/-- No speaker is called, nobody's place is taken, no line is told, and no conversation gets over or
comes back after it has been destroyed. -/
structure Aloof (heard : δ → List (Signal κ)) (troupe : Speaker δ → Prop) (s s' : Story δ) :
    Prop where
  calls : heard s'.host = heard s.host
  speaking : ∀ i, s'.speaking? i = s.speaking? i
  engages : s.Engages troupe → s'.Engages troupe
  told : ∀ i, s'.told i <:+ s.told i
  ended : ∀ i p, p.isOver = true → s'.phase? i = some p → s.phase? i = some p
  destroyed : ∀ i, s.phase? i = some .destroyed → s'.phase? i = some .destroyed

theorem speaking?_modify (s : Story δ) (i j : Nat) {f : Conversation δ → Conversation δ}
    (hf : ∀ c, (f c).speaker = c.speaker) : (s.modify i f).speaking? j = s.speaking? j := by
  simp only [speaking?, modify, List.getElem?_modify]
  cases s.conversations[j]? with
  | none => split <;> rfl
  | some c =>
    split
    · exact hf c
    · rfl

theorem phase?_modify (s : Story δ) (i j : Nat) {f : Conversation δ → Conversation δ} {p : Phase}
    (hf : ∀ c, (f c).phase = p) : (s.modify i f).phase? j =
      if i = j then (s.phase? j).map fun _ => p else s.phase? j := by
  simp only [phase?, modify, List.getElem?_modify]
  split
  · cases s.conversations[j]? with
    | none => rfl
    | some c => exact congrArg some (hf c)
  · cases s.conversations[j]? <;> rfl

theorem told_modify (s : Story δ) (i j : Nat) {f : Conversation δ → Conversation δ}
    (hf : ∀ c, (f c).said = c.said) : (s.modify i f).told j = s.told j := by
  simp only [told, modify, List.getElem?_modify]
  cases s.conversations[j]? with
  | none => split <;> rfl
  | some c =>
    split
    · exact hf c
    · rfl

theorem speaking?_close (s : Story δ) (i j : Nat) (p : Phase) :
    (s.modify i fun c => { c with phase := p }).speaking? j = s.speaking? j :=
  s.speaking?_modify i j fun _ => rfl

theorem phase?_close (s : Story δ) (i j : Nat) (p : Phase) :
    (s.modify i fun c => { c with phase := p }).phase? j =
      if i = j then (s.phase? j).map fun _ => p else s.phase? j :=
  s.phase?_modify i j fun _ => rfl

theorem phase?_of_posts
    (hposts : s'.conversations.map Conversation.post = s.conversations.map Conversation.post)
    (i : Nat) : s'.phase? i = s.phase? i := by
  have hpost := congrArg (·[i]?) hposts
  simp only [List.getElem?_map] at hpost
  simpa [phase?, Conversation.post, Function.comp_def] using
    congrArg (Option.map (·.2.2.2)) hpost

theorem Stirs.phase? (hs : Stirs i s s') (j : Nat) : s'.phase? j = s.phase? j :=
  phase?_of_posts hs.posts j

theorem Stirs.speaking? (hs : Stirs i s s') (hj : j ≠ i) : s'.speaking? j = s.speaking? j := by
  rw [Story.speaking?, hs.others j hj, Story.speaking?]

theorem stirs_speak (s : Story δ) (i : Nat) (l : Line) : Stirs i s (s.speak i l) :=
  stirs_hear s i (.line l)

theorem speakers_stopSpeaker (s : Story δ) (i : Nat) : (s.stopSpeaker i).speakers = s.speakers := by
  unfold stopSpeaker
  split <;> rfl

theorem speaking?_stopSpeaker (s : Story δ) (i : Nat) : (s.stopSpeaker i).speaking? i = none := by
  unfold stopSpeaker
  split
  · cases hc : s.conversations[i]? <;> simp [speaking?, modify, hc]
  · assumption

theorem speaking?_speak (hi : s.Lives i) :
    (s.speak i l).speaking? i = s.speakers.get? l.speaker := by
  obtain ⟨p, hp, -⟩ := hi
  rw [← (stirs_stopSpeaker s i).phase?, phase?, Option.map_eq_some_iff] at hp
  obtain ⟨c, hc, -⟩ := hp
  simp [speak, speaking?, modify, hc, Conversation.emit, speakers_stopSpeaker]

theorem told_stopSpeaker (s : Story δ) (i j : Nat) : (s.stopSpeaker i).told j = s.told j := by
  unfold stopSpeaker
  split
  · exact told_modify _ i j fun _ => rfl
  · rfl

theorem Stirs.told (hs : Stirs i s s') {j : Nat} (hj : j ≠ i) : s'.told j = s.told j := by
  rw [Story.told, hs.others j hj, Story.told]

theorem told_speak (hi : s.Lives i) :
    (s.speak i l).told i = s.told i ++ [⟨s.speakers.displayName l.speaker, l⟩] := by
  obtain ⟨p, hp, -⟩ := hi
  rw [← (stirs_stopSpeaker s i).phase?, phase?, Option.map_eq_some_iff] at hp
  obtain ⟨c, hc, -⟩ := hp
  rw [← told_stopSpeaker s i]
  simp [speak, told, modify, hc, Conversation.emit, Conversation.said, speakers_stopSpeaker,
    StoryEvent.line?]

theorem heard_stopSpeaker (hs : ∀ x, s.speaking? i = some x → x.Records heard key) :
    heard (s.stopSpeaker i).host =
      heard s.host ++ ((s.speaking? i).toList.map Signal.stop).map (Signal.map key) := by
  unfold stopSpeaker
  split
  · rename_i x hx
    rw [speaking?, hx]
    exact (hs x hx).stop s.host
  · rename_i hnone
    simp [speaking?, hnone]

theorem heard_speak (hs : ∀ x, s.speakers.get? l.speaker = some x → x.Records heard key) :
    heard (s.speak i l).host = heard (s.stopSpeaker i).host ++
      ((s.speakers.get? l.speaker).toList.map (Signal.start · l)).map (Signal.map key) := by
  rw [speak]
  simp only [modify, speakers_stopSpeaker]
  cases hx : s.speakers.get? l.speaker with
  | none => simp
  | some x => exact (hs x hx).start l _

theorem Staffed.stopSpeaker (hs : s.Staffed troupe) (i : Nat) :
    (s.stopSpeaker i).Staffed troupe := by
  refine ⟨?_, fun j x hx => ?_⟩
  · rw [Engages, speakers_stopSpeaker]
    exact hs.engages
  · by_cases hj : j = i
    · rw [hj, speaking?_stopSpeaker] at hx
      cases hx
    · rw [(stirs_stopSpeaker s i).speaking? hj] at hx
      exact hs.speaking j x hx

theorem Staffed.speak (hs : s.Staffed troupe) (hi : s.Lives i) (l : Line) :
    (s.speak i l).Staffed troupe := by
  refine ⟨?_, fun j x hx => ?_⟩
  · have hsame : (s.speak i l).speakers = s.speakers := speakers_stopSpeaker s i
    rw [Engages, hsame]
    exact hs.engages
  · by_cases hj : j = i
    · rw [hj, speaking?_speak hi] at hx
      exact hs.engages _ (Table.mem_of_get? hx)
    · rw [(stirs_speak s i l).speaking? hj] at hx
      exact hs.speaking j x hx

/-- What happens in a story, as far as it concerns speakers. -/
inductive Beat where
  | line (i : Nat) (l : Line)
  | hush (i : Nat)
  | close (i : Nat) (p : Phase)
  | other

namespace Beat

def Leads (heard : δ → List (Signal κ)) (troupe : Speaker δ → Prop) (s s' : Story δ) : Beat → Prop
  | line i l => s.Lives i ∧ s' = s.speak i l
  | hush i => s' = s.stopSpeaker i
  | close i p => p.isOver = true ∧ s.Lives i ∧ s.speaking? i = none ∧
    s' = s.modify i fun c => { c with phase := p }
  | other => s.Aloof heard troupe s'

def signals (s : Story δ) : Beat → List (Signal (Speaker δ))
  | line i l => (s.speaking? i).toList.map .stop ++
    (s.speakers.get? l.speaker).toList.map (.start · l)
  | hush i => (s.speaking? i).toList.map .stop
  | close .. | other => []

def line? (s : Story δ) (i : Nat) : Beat → Option SpokenLine
  | line j l => if j = i then some ⟨s.speakers.displayName l.speaker, l⟩ else none
  | hush _ | close .. | other => none

def conversation? : Beat → Option Nat
  | line i _ | hush i | close i _ => some i
  | other => none

variable {d : Beat}

theorem Leads.calls (h : d.Leads heard troupe s s')
    (hd : ∀ c ∈ d.signals s, c.speaker.Records heard key) :
    heard s'.host = heard s.host ++ (d.signals s).map (Signal.map key) := by
  cases d with
  | line i l =>
    obtain ⟨-, rfl⟩ := h
    rw [heard_speak fun x hx => hd (.start x l) (by simp [signals, hx]),
      heard_stopSpeaker fun x hx => hd (.stop x) (by simp [signals, hx]), signals, List.map_append,
      List.append_assoc]
  | hush i =>
    cases h
    exact heard_stopSpeaker fun x hx => hd (.stop x) (by simp [signals, hx])
  | close i p =>
    obtain ⟨-, -, -, rfl⟩ := h
    exact (List.append_nil _).symm
  | other => simpa [signals] using Aloof.calls h

theorem Leads.turn (h : d.Leads heard troupe s s') (i : Nat) :
    Alternate (s.speaking? i) (if d.conversation? = some i then d.signals s else [])
      (s'.speaking? i) := by
  have hidle (hsame : s'.speaking? i = s.speaking? i) :
      Alternate (s.speaking? i) [] (s'.speaking? i) := hsame ▸ .rest _
  cases d with
  | line j l =>
    obtain ⟨hlives, rfl⟩ := h
    by_cases hj : j = i
    · subst hj
      rw [speaking?_speak hlives]
      simpa [conversation?, signals] using (Alternate.stops _).trans (.starts _ l)
    · rw [if_neg (by simpa [conversation?] using hj)]
      exact hidle ((stirs_speak s j l).speaking? (Ne.symm hj))
  | hush j =>
    cases h
    by_cases hj : j = i
    · subst hj
      rw [speaking?_stopSpeaker]
      simpa [conversation?, signals] using Alternate.stops _
    · rw [if_neg (by simpa [conversation?] using hj)]
      exact hidle ((stirs_stopSpeaker s j).speaking? (Ne.symm hj))
  | close j p =>
    obtain ⟨-, -, -, rfl⟩ := h
    simpa [signals] using hidle (s.speaking?_close j i p)
  | other => simpa [signals] using hidle (Aloof.speaking h i)

theorem Leads.silent (h : d.Leads heard troupe s s') (hline : ∀ l, d ≠ .line i l)
    (hs : s.speaking? i = none) :
    s'.speaking? i = none ∧ (if d.conversation? = some i then d.signals s else []) = [] := by
  have hturn := h.turn i
  have hnone : (if d.conversation? = some i then d.signals s else []) = [] := by
    split
    · rename_i hi
      cases d with
      | line j l => exact absurd (Option.some.inj hi ▸ rfl) (hline l)
      | hush j =>
        cases hi
        simp [signals, hs]
      | close j p => rfl
      | other => rfl
    · rfl
  rw [hnone, hs] at hturn
  refine ⟨?_, hnone⟩
  generalize s'.speaking? i = y at hturn
  cases hturn
  rfl

theorem Leads.staffed (h : d.Leads heard troupe s s') (hs : s.Staffed troupe) :
    s'.Staffed troupe := by
  cases d with
  | line i l =>
    obtain ⟨hlives, rfl⟩ := h
    exact hs.speak hlives l
  | hush i =>
    cases h
    exact hs.stopSpeaker i
  | close i p =>
    obtain ⟨-, -, -, rfl⟩ := h
    exact ⟨hs.engages, fun j x hx => hs.speaking j x (speaking?_close s i j p ▸ hx)⟩
  | other =>
    refine ⟨Aloof.engages h hs.engages, fun j x hx => hs.speaking j x ?_⟩
    rwa [← Aloof.speaking h j]

theorem Leads.ended (h : d.Leads heard troupe s s') (hp : p.isOver = true)
    (hs' : s'.phase? i = some p) : s.phase? i = some p ∨ d = .close i p := by
  cases d with
  | line j l =>
    obtain ⟨-, rfl⟩ := h
    exact .inl ((stirs_speak s j l).phase? i ▸ hs')
  | hush j =>
    cases h
    exact .inl ((stirs_stopSpeaker s j).phase? i ▸ hs')
  | close j q =>
    obtain ⟨-, -, -, rfl⟩ := h
    rw [phase?_close] at hs'
    split at hs'
    · rename_i heq
      obtain ⟨-, -, rfl⟩ := Option.map_eq_some_iff.mp hs'
      exact .inr (heq ▸ rfl)
    · exact .inl hs'
  | other => exact .inl (Aloof.ended h i p hp hs')

theorem Leads.destroyed (h : d.Leads heard troupe s s') (hs : s.phase? i = some .destroyed) :
    s'.phase? i = some .destroyed ∧ ∀ l, d ≠ .line i l := by
  have hdead : ¬s.Lives i := by
    rintro ⟨p, hp, hlives⟩
    cases hs.symm.trans hp
    exact hlives rfl
  cases d with
  | line j l =>
    obtain ⟨hlives, rfl⟩ := h
    refine ⟨((stirs_speak s j l).phase? i).trans hs, fun l' heq => ?_⟩
    cases heq
    exact hdead hlives
  | hush j =>
    cases h
    exact ⟨((stirs_stopSpeaker s j).phase? i).trans hs, nofun⟩
  | close j p =>
    obtain ⟨-, hlives, -, rfl⟩ := h
    refine ⟨?_, nofun⟩
    rw [phase?_close, if_neg (by rintro rfl; exact hdead hlives), hs]
  | other => exact ⟨Aloof.destroyed h i hs, nofun⟩

theorem Leads.told (h : d.Leads heard troupe s s') (i : Nat)
    (hother : d = .other → s'.told i = s.told i) :
    s'.told i = s.told i ++ (d.line? s i).toList := by
  have hidle (hsame : s'.told i = s.told i) {line : Option SpokenLine} (hline : line = none) :
      s'.told i = s.told i ++ line.toList := by
    rw [hsame, hline, Option.toList_none, List.append_nil]
  cases d with
  | line j l =>
    obtain ⟨hlives, rfl⟩ := h
    by_cases hj : j = i
    · subst hj
      simp [line?, told_speak hlives]
    · exact hidle ((stirs_speak s j l).told (Ne.symm hj)) (if_neg hj)
  | hush j =>
    cases h
    exact hidle (told_stopSpeaker s j i) rfl
  | close j p =>
    obtain ⟨-, -, -, rfl⟩ := h
    exact hidle (s.told_modify j i fun _ => rfl) rfl
  | other => exact hidle (hother rfl) rfl

theorem Leads.suffix_told (h : d.Leads heard troupe s s') (i : Nat) :
    s'.told i <:+ s.told i ++ (d.line? s i).toList := by
  by_cases hother : d = .other
  · subst hother
    simpa [line?] using Aloof.told h i
  · exact (h.told i fun heq => absurd heq hother) ▸ List.suffix_refl _

end Beat

structure Episode (δ : Type) where
  before : Story δ
  beat : Beat
  after : Story δ

namespace Episode

def signals (e : Episode δ) : List (Signal (Speaker δ)) := e.beat.signals e.before

def signalsOf (i : Nat) (e : Episode δ) : List (Signal (Speaker δ)) :=
  if e.beat.conversation? = some i then e.signals else []

def line? (i : Nat) (e : Episode δ) : Option SpokenLine := e.beat.line? e.before i

end Episode

inductive Plot (heard : δ → List (Signal κ)) (troupe : Speaker δ → Prop) :
    Story δ → List (Episode δ) → Story δ → Prop
  | nil (s : Story δ) : Plot heard troupe s [] s
  | cons {s s' s'' : Story δ} {d : Beat} {es : List (Episode δ)} (leads : d.Leads heard troupe s s')
    (rest : Plot heard troupe s' es s'') : Plot heard troupe s (⟨s, d, s'⟩ :: es) s''

namespace Plot

variable {es es' : List (Episode δ)} {e : Episode δ} {d : Beat}

theorem single (h : d.Leads heard troupe s s') : Plot heard troupe s [⟨s, d, s'⟩] s' :=
  .cons h (.nil s')

theorem append (h : Plot heard troupe s es s') (h' : Plot heard troupe s' es' s'') :
    Plot heard troupe s (es ++ es') s'' := by
  induction h with
  | nil => exact h'
  | cons leads _ ih => exact .cons leads (ih h')

theorem of_append (h : Plot heard troupe s (es ++ es') s'') :
    ∃ s', Plot heard troupe s es s' ∧ Plot heard troupe s' es' s'' := by
  induction es generalizing s with
  | nil => exact ⟨s, .nil s, h⟩
  | cons e es ih =>
    cases h with
    | cons leads rest =>
      obtain ⟨s₁, hes, hes'⟩ := ih rest
      exact ⟨s₁, .cons leads hes, hes'⟩

theorem leads (h : Plot heard troupe s es s') (he : e ∈ es) :
    e.beat.Leads heard troupe e.before e.after := by
  induction h with
  | nil => cases he
  | cons leads _ ih =>
    cases he with
    | head => exact leads
    | tail _ he => exact ih he

theorem staffed (h : Plot heard troupe s es s') (hs : s.Staffed troupe) : s'.Staffed troupe := by
  induction h with
  | nil => exact hs
  | cons leads _ ih => exact ih (leads.staffed hs)

theorem calls (h : Plot heard troupe s es s')
    (hes : ∀ e ∈ es, ∀ c ∈ e.signals, c.speaker.Records heard key) :
    heard s'.host = heard s.host ++ (es.flatMap Episode.signals).map (Signal.map key) := by
  induction h with
  | nil => exact (List.append_nil _).symm
  | cons leads _ ih =>
    obtain ⟨he, hes⟩ := List.forall_mem_cons.mp hes
    rw [ih hes, leads.calls he, List.flatMap_cons, List.map_append, List.append_assoc,
      Episode.signals]

theorem told (h : Plot heard troupe s es s') (i : Nat) :
    s'.told i <:+ s.told i ++ es.filterMap (Episode.line? i) := by
  induction h with
  | nil s => simp
  | @cons s s₁ s' d es leads _ ih =>
    obtain ⟨taken, htaken⟩ := leads.suffix_told i
    have hsplit : (⟨s, d, s₁⟩ :: es).filterMap (Episode.line? i) =
        (d.line? s i).toList ++ es.filterMap (Episode.line? i) := by
      rw [List.filterMap_cons, Episode.line?]
      cases d.line? s i <;> rfl
    rw [hsplit, ← List.append_assoc, ← htaken, List.append_assoc]
    exact ih.trans (List.suffix_append _ _)

theorem turns (h : Plot heard troupe s es s') (i : Nat) :
    Alternate (s.speaking? i) (es.flatMap (Episode.signalsOf i)) (s'.speaking? i) := by
  induction h with
  | nil => exact .rest _
  | cons leads _ ih => exact (leads.turn i).trans ih

theorem ended (h : Plot heard troupe s es s') (hp : p.isOver = true) (hs' : s'.phase? i = some p)
    (hs : s.phase? i ≠ some p) : ∃ e ∈ es, e.beat = .close i p := by
  induction h with
  | nil => exact absurd hs' hs
  | @cons s s₁ s' d es leads rest ih =>
    by_cases hs₁ : s₁.phase? i = some p
    · exact ⟨_, .head _, (leads.ended hp hs₁).resolve_left hs⟩
    · obtain ⟨e, he, hclose⟩ := ih hs' hs₁
      exact ⟨e, .tail _ he, hclose⟩

theorem silent (h : Plot heard troupe s es s') (hlines : ∀ e ∈ es, ∀ l, e.beat ≠ .line i l)
    (hs : s.speaking? i = none) :
    (∀ e ∈ es, e.after.speaking? i = none) ∧ es.flatMap (Episode.signalsOf i) = [] := by
  induction h with
  | nil => exact ⟨List.forall_mem_nil _, rfl⟩
  | cons leads _ ih =>
    obtain ⟨hline, hlines⟩ := List.forall_mem_cons.mp hlines
    obtain ⟨hafter, hnone⟩ := leads.silent hline hs
    obtain ⟨hlater, hsignals⟩ := ih hlines hafter
    refine ⟨List.forall_mem_cons.mpr ⟨hafter, hlater⟩, ?_⟩
    rw [List.flatMap_cons, hsignals, List.append_nil]
    exact hnone

theorem destroyed (h : Plot heard troupe s es s') (hs : s.phase? i = some .destroyed) :
    s'.phase? i = some .destroyed ∧ ∀ e ∈ es, ∀ l, e.beat ≠ .line i l := by
  induction h with
  | nil => exact ⟨hs, List.forall_mem_nil _⟩
  | cons leads _ ih =>
    obtain ⟨hafter, hline⟩ := leads.destroyed hs
    obtain ⟨hlater, hlines⟩ := ih hafter
    exact ⟨hlater, List.forall_mem_cons.mpr ⟨hline, hlines⟩⟩

theorem closed {es₁ es₂ es₃ : List (Episode δ)}
    (h : Plot heard troupe s (es₁ ++ e :: (es₂ ++ es₃)) s') (he : e.beat = .close i p)
    (hlines : ∀ e ∈ es₂, ∀ l, e.beat ≠ .line i l) :
    (∀ e' ∈ e :: es₂, e'.after.speaking? i = none) ∧ es₂.flatMap (Episode.signalsOf i) = [] := by
  obtain ⟨s₁, -, h⟩ := h.of_append
  cases h with
  | cons leads rest =>
    -- Of what follows, only `es₂` is known to have no lines.
    obtain ⟨s₂, hes, -⟩ := rest.of_append
    cases he
    obtain ⟨-, -, hsilent, -⟩ := id leads
    have hafter := (leads.silent nofun hsilent).1
    obtain ⟨hlater, hsignals⟩ := hes.silent hlines hafter
    exact ⟨List.forall_mem_cons.mpr ⟨hafter, hlater⟩, hsignals⟩

end Plot

end Story

end Dialogue
