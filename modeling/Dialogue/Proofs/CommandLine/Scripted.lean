import Dialogue.Proofs.CommandLine.Play
import Dialogue.Proofs.Story.Opening

/-!
The same script is told by two hosts: one plays the conversation with a responder that has a list of
answers, the other drives it on a terminal with the same list. The lines and choices that the
responder gets are those that the terminal shows, and both come to the same end.
-/

namespace Dialogue

open World (Hosts Twins Twinned)
open Telling (Agree)

structure Session where
  answers : List Nat
  shown : List Slice

def Responder.scripted : Responder Session where
  line spoken x := { x with shown := x.shown ++ [.line spoken] }
  choose cs x := (x.answers.headD 0, ⟨x.answers.tail, x.shown ++ [.choices cs]⟩)

def Slice.lines : Slice → List String
  | .line spoken => [Play.lineText spoken]
  | .choices cs => Play.choiceLines cs
  | .running | .finished => []

def Session.text (x : Session) : String := Terminal.text (x.shown.flatMap Slice.lines)

def Terminal.Shows (base : Terminal) (s : String) (t : Terminal) : Prop :=
  ∃ complaints, t = { base with output := base.output ++ s, complaints := complaints }

variable {α α' β β' : Type} {base : Terminal} {i n rounds count : Nat} {h : Handle} {x : Session}
  {s : String}

def Together (base : Terminal) (i : Nat) (h : Handle) (x : Session) (s : String)
    (w : World (Story Session)) (v : World (Story Log)) (t : Terminal) : Prop :=
  Twinned id i h x w v ∧ base.Shows s t

theorem Together.shows {w : World (Story Session)} {v : World (Story Log)} {t : Terminal}
    (ht : Together base i h x s w v t) (lines : List String) :
    Together base i h x (s ++ Terminal.text lines) w v
      { t with output := t.output ++ Terminal.text lines } := by
  obtain ⟨htwinned, complaints, rfl⟩ := ht
  exact ⟨htwinned, complaints, by simp only [String.append_assoc]⟩

theorem Together.remember {w : World (Story Session)} {v : World (Story Log)} {t : Terminal}
    (ht : Together base i h x s w v t) (f : Session → Session) :
    Together base i h (f x) s { w with host := { w.host with host := f w.host.host } } v t := by
  have hown := ht.1.own (f w.host.host) v.host.host
  have hx : w.host.host = x := ht.1.own_eq
  exact ⟨hx ▸ hown, ht.2⟩

theorem Together.quiet {w : World (Story Session)} {v : World (Story Log)} {t : Terminal}
    (ht : Together base i h x s w v t) (messages : List String) :
    Together base i h x s w { v with host := { v.host with host := [] } }
      { t with complaints := t.complaints ++ Terminal.text messages } := by
  obtain ⟨htwinned, complaints, rfl⟩ := ht
  have hown := htwinned.own w.host.host []
  rw [htwinned.own_eq] at hown
  exact ⟨hown, _, rfl⟩

namespace Play

def Follows (P : World (Story Session) → World (Story Log) → Terminal → Prop) (Q : α → α' → Prop)
    (R : World (Story Session) → World (Story Log) → Terminal → Prop) (t : Telling Session α)
    (p : Play α') : Prop :=
  ∀ w v term, P w v term → Option.Rel (fun r r' => Ends Failure.ofStory Q r.1 r'.1.1 ∧
    R r.2 r'.1.2 r'.2) (t.run.run w) (p.on v term)

variable {P T R : World (Story Session) → World (Story Log) → Terminal → Prop} {Q : α → α' → Prop}
  {S : β → β' → Prop} {t : Telling Session α} {t' : Telling Log α'} {p : Play α'}

theorem follows_pure {a : α} {a' : α'} (hq : Q a a') (hp : ∀ w v term, P w v term → R w v term) :
    Follows P Q R (pure a) (pure a') :=
  fun w v term h => .some ⟨.ok hq, hp w v term h⟩

theorem follows_throw (e : StoryError) (hp : ∀ w v term, P w v term → R w v term) :
    Follows P Q R (throw e) (throw (.ofStory e)) :=
  fun w v term h => .some ⟨.error e, hp w v term h⟩

theorem follows_mono {p : Play α'} (h : Follows T Q R t p)
    (hp : ∀ w v term, P w v term → T w v term) : Follows P Q R t p :=
  fun w v term ht => h w v term (hp w v term ht)

theorem follows_left {f : α → Telling Session β} {p : Play β'}
    (ht : ∀ w v term, P w v term →
      ∃ a w', t.Yields w (.ok a) w' ∧ T w' v term ∧ Follows T S R (f a) p) :
    Follows P S R (t >>= f) p := by
  intro w v term hp
  obtain ⟨a, w', hyields, hp', hf⟩ := ht w v term hp
  rw [Telling.run_bind, hyields]
  exact hf w' v term hp'

theorem follows_right {t : Telling Session β} {g : α' → Play β'}
    (hp : ∀ w v term, P w v term → ∃ a v' term',
      p.on v term = some ((.ok a, v'), term') ∧ T w v' term' ∧ Follows T S R t (g a)) :
    Follows P S R t (p >>= g) := by
  intro w v term h
  obtain ⟨a, v', term', hon, hp', hg⟩ := hp w v term h
  rw [on_bind, hon]
  exact hg w v' term' hp'

theorem follows_attempt {f : α → Telling Session β} {g : Except StoryError α' → Play β'}
    (ht : Agree (Twinned id i h x) Q t t')
    (hok : ∀ a a', Q a a' → Follows (fun w v term => Together base i h x s w v term ∧
      ∃ w₀, t.Yields w₀ (.ok a) w) S R (f a) (g (.ok a')))
    (herror : ∀ e, Follows (Together base i h x s) S R (throw e) (g (.error e))) :
    Follows (Together base i h x s) S R (t >>= f) (attempt t' >>= g) := by
  rintro w v term ⟨htwinned, hshows⟩
  have hrel := ht w v htwinned
  rw [Telling.run_bind, on_bind, on_attempt]
  generalize hw : t.run.run w = o at hrel ⊢
  generalize t'.run.run v = o' at hrel ⊢
  cases hrel with
  | none => exact .none
  | @some r r' hr =>
    obtain ⟨r, w'⟩ := r
    obtain ⟨r', v'⟩ := r'
    obtain ⟨hends, htwinned'⟩ := hr
    have htogether := Together.quiet ⟨htwinned', hshows⟩ v'.host.host.reverse
    cases hends with
    | ok hq => exact hok _ _ hq w' _ _ ⟨htogether, w, hw⟩
    | error e => exact herror e w' _ _ htogether

theorem follows_tell {f : α → Telling Session β} {g : α' → Play β'}
    (ht : Agree (Twinned id i h x) Q t t')
    (hok : ∀ a a', Q a a' → Follows (Together base i h x s) S R (f a) (g a'))
    (herror : ∀ w v term, Together base i h x s w v term → R w v term) :
    Follows (Together base i h x s) S R (t >>= f) (tell t' >>= g) := by
  unfold tell
  rw [bind_assoc]
  refine follows_attempt ht (fun a a' hq => ?_) fun e => follows_throw e herror
  exact fun w v term hp => hok a a' hq w v term hp.1

theorem on_tell {telling : Telling Log α} {a : α} {v v' : World (Story Log)}
    (ht : telling.Yields v (.ok a) v') (term : Terminal) : (tell telling).on v term =
      some ((.ok a, { v' with host := { v'.host with host := [] } }),
        { term with complaints := term.complaints ++ Terminal.text v'.host.host.reverse }) := by
  unfold tell
  rw [on_bind, on_attempt, show telling.run.run v = _ from ht]
  rfl

theorem takeEvents_yields {δ : Type} {w : World (Story δ)} {c : Conversation δ}
    (hc : w.host.conversations[i]? = some c) : (Telling.takeEvents i).Yields w (.ok c.events)
      { w with host := w.host.modify i fun c => { c with events := [] } } := by
  unfold Telling.takeEvents
  rw [Telling.yields_conversation?_bind, hc, Telling.yields_update_bind]
  exact Telling.yields_pure.mpr ⟨rfl, rfl⟩

theorem follows_showChanges {t : Telling Session β} {g : Unit → Play β'}
    {K : World (Story Session) → Prop}
    (hg : Follows (fun w v term => Together base i h x s w v term ∧ K w) S R t (g ())) :
    Follows (fun w v term => Together base i h x s w v term ∧ K w) S R t (showChanges i >>= g) := by
  apply follows_right
  rintro w v term ⟨ht, hK⟩
  obtain ⟨c, d, m, htwins, -⟩ := ht.1
  have hlines : d.events.filterMap changeLine? = [] := by
    refine List.filterMap_eq_nil_iff.mpr fun e he => ?_
    cases e with
    | changed name value => exact absurd he (htwins.alike.unwatched name value)
    | created | started | line | choices | ended => rfl
  have hedited := ht.1.modify (f := id) (g := fun d => { d with events := [] })
    ⟨fun _ => ⟨rfl, rfl⟩, fun _ => ⟨rfl, rfl⟩,
      fun _ _ h => ⟨h.handle, h.config, h.phase, h.pending⟩, fun _ => id, fun _ _ => id,
      fun _ _ _ h => by cases h⟩
  have hsame : w.host.modify i id = w.host := by
    rw [Story.modify, List.modify_id]
  rw [hsame] at hedited
  have hquiet := Together.quiet ⟨hedited, ht.2⟩ v.host.host.reverse
  refine ⟨(), _, _, ?_, ⟨hquiet, hK⟩, hg⟩
  unfold showChanges
  rw [on_bind, on_tell (takeEvents_yields htwins.alike.second.conversation), Option.bind_some]
  simp only [hlines]
  rfl

abbrev reply (fuel i : Nat) (answers : Option (List Nat)) (next : Option (List Nat) → Play Unit) :
    Slice → Play Unit
  | .finished => return ()
  | .running => next answers
  | .line spoken => do
    onConsole (Console.printLine (lineText spoken))
    tell (Telling.continueLine fuel i)
    next answers
  | .choices cs => do
    let (index, answers) ← chooseIndex fuel answers cs
    if cs.length ≤ index then
      onConsole (Console.complainLine
        ("no option " ++ toString ((index + 1) % UInt64.size) ++ ", asking again"))
    else tell (Telling.selectChoice fuel i index)
    next answers

theorem slices_succ {fuel : Nat} {most : Option Nat} {answers : Option (List Nat)}
    (hmost : ∀ n, most = some n → count < n) :
    slices fuel i most (rounds + 1) count answers = (do
      let slice ← attempt (Telling.tick fuel i)
      showChanges i
      reply fuel i answers (slices fuel i most rounds (count + 1)) (← ofExcept slice)) := by
  cases most with
  | none => rfl
  | some n => exact if_neg (Nat.not_le_of_lt (hmost n rfl))

theorem ofExcept_ok_bind (a : α) (g : α → Play β) : ofExcept (.ok a) >>= g = g a := rfl

theorem ofExcept_error_bind (e : StoryError) (g : α → Play β) :
    ofExcept (.error e) >>= g = throw (.ofStory e) := rfl

theorem follows_show {f : Unit → Telling Session β} {g : Unit → Play β'} (slice : Slice)
    (present : Session → Session) (hpresent : (present x).shown = x.shown ++ [slice])
    {K : List (Conversation Session) → Prop}
    (hfg : Follows (fun w v term => Together base i h (present x) (present x).text w v term ∧
      K w.host.conversations) S R (f ()) (g ())) :
    Follows (fun w v term => Together base i h x x.text w v term ∧ K w.host.conversations) S R
      (Telling.update (fun s => { s with host := present s.host }) >>= f)
      (onConsole (Console.printLines slice.lines) >>= g) := by
  have htext : (present x).text = x.text ++ Terminal.text slice.lines := by
    simp [Session.text, hpresent, Terminal.text_append]
  refine follows_left (T := fun w v term => Together base i h (present x) x.text w v term ∧
    K w.host.conversations) fun w v term ht => ?_
  refine ⟨(), _, Telling.yields_update.mpr ⟨rfl, rfl⟩, ⟨ht.1.remember present, ht.2⟩, ?_⟩
  refine follows_right (T := fun w v term =>
    Together base i h (present x) (present x).text w v term ∧ K w.host.conversations)
    fun w v term ht => ?_
  refine ⟨(), v, _, ?_, ⟨htext ▸ ht.1.shows slice.lines, ht.2⟩, hfg⟩
  rw [on_onConsole, Terminal.perform_printLines]
  rfl

theorem follows_line {spoken : SpokenLine} {f : Bool → Telling Session β} {g : Unit → Play β'}
    (hfg : ∀ y, y.answers = x.answers → Follows (Together base i h y y.text) S R (f false) (g ()))
    (hR : ∀ x w v term, Together base i h x x.text w v term → R w v term) :
    Follows (Together base i h x x.text) S R
      (Telling.respond (n + 2) i .scripted (.line spoken) >>= f)
      (onConsole (Console.printLine (lineText spoken)) >>= fun _ =>
        tell (Telling.continueLine (n + 2) i) >>= g) := by
  have hrespond : Telling.respond (n + 2) i .scripted (.line spoken) >>= f = (do
      Telling.update fun s => { s with host := Responder.scripted.line spoken s.host }
      Telling.continueLine (n + 2) i
      f false) := by
    simp [Telling.respond]
  rw [hrespond]
  have hprint : Console.printLine (lineText spoken) =
      Console.printLines (Slice.line spoken).lines := rfl
  rw [hprint]
  refine follows_mono (follows_show (.line spoken) (Responder.scripted.line spoken) rfl
    (K := fun _ => True) ?_) fun w v term ht => ⟨ht, trivial⟩
  refine follows_mono ?_ fun w v term ht => ht.1
  exact follows_tell Telling.agree_continueLine (fun _ _ _ => hfg _ rfl) (hR _)

theorem chooseIndex_some (fuel : Nat) (answers : List Nat) (cs : List Choice) :
    chooseIndex fuel (some answers) cs = (do
      onConsole (Console.printLines (choiceLines cs))
      return (answers.headD 0, some answers.tail)) := by
  cases answers <;> rfl

theorem follows_refused {cs : List Choice} {index : Nat} (hindex : cs.length ≤ index)
    (message : String) {f : Unit → Telling Session β} {g : Unit → Play β'}
    (hfg : Follows (Together base i h x x.text) S R (f ()) (g ())) :
    Follows (fun w v term => Together base i h x x.text w v term ∧
        ∃ c, w.host.conversations[i]? = some c ∧ c.asked = some cs) S R
      (Telling.trySelect (n + 2) i cs index >>= f)
      (onConsole (Console.complainLine message) >>= g) := by
  refine follows_left (T := Together base i h x x.text) fun w v term ht => ?_
  obtain ⟨⟨⟨c, d, m, htwins, rfl⟩, hshows⟩, c', hc', hasked⟩ := ht
  cases htwins.first.conversation.symm.trans hc'
  have hcovered : m.pending.length ≤ cs.length :=
    htwins.covered cs (by rw [htwins.idle]; exact hasked)
  obtain ⟨w', hrejected, htwins'⟩ :=
    Telling.selectChoice_rejected htwins (Nat.le_trans hcovered hindex) n
  refine ⟨(), w', Telling.yields_trySelect.mpr (.inr ⟨hindex, _, hrejected⟩),
    ⟨⟨c, d, m, htwins', rfl⟩, hshows⟩, ?_⟩
  refine follows_right (T := Together base i c.handle x x.text) fun w v term ht => ?_
  obtain ⟨htwinned, complaints, rfl⟩ := ht
  exact ⟨(), v, _, rfl, ⟨htwinned, _, rfl⟩, hfg⟩

theorem follows_choices {cs : List Choice} {f : Bool → Telling Session β}
    {g : Option (List Nat) → Play β'}
    (hfg : ∀ x, Follows (Together base i h x x.text) S R (f false) (g (some x.answers)))
    (hR : ∀ x w v term, Together base i h x x.text w v term → R w v term) :
    Follows (fun w v term => Together base i h x x.text w v term ∧
        ∃ c, w.host.conversations[i]? = some c ∧ c.asked = some cs) S R
      (Telling.respond (n + 2) i .scripted (.choices cs) >>= f) (do
        let (index, answers) ← chooseIndex (n + 2) (some x.answers) cs
        if cs.length ≤ index then
          onConsole (Console.complainLine
            ("no option " ++ toString ((index + 1) % UInt64.size) ++ ", asking again"))
        else tell (Telling.selectChoice (n + 2) i index)
        g answers) := by
  rw [chooseIndex_some, bind_assoc, Telling.respond_choices]
  simp only [bind_assoc, pure_bind]
  refine follows_left (T := fun w v term => Together base i h x x.text w v term ∧
    ∃ c, w.host.conversations[i]? = some c ∧ c.asked = some cs) fun w v term ht => ?_
  refine ⟨w.host, w, Telling.yields_story.mpr ⟨rfl, rfl⟩, ht, ?_⟩
  have hx : w.host.host = x := ht.1.1.own_eq
  rw [hx]
  refine follows_show (.choices cs) (fun _ => (Responder.scripted.choose cs x).2) rfl
    (K := fun conversations => ∃ c, conversations[i]? = some c ∧ c.asked = some cs) ?_
  generalize hrest : (Responder.scripted.choose cs x).2 = x'
  have hanswers : x'.answers = x.answers.tail := hrest ▸ rfl
  have hchosen : (Responder.scripted.choose cs x).1 = x.answers.headD 0 := rfl
  rw [hchosen, ← hanswers]
  -- The answer is used up on both sides, also when it is out of range.
  by_cases hindex : cs.length ≤ x.answers.headD 0
  · simp only [hindex, if_true]
    exact follows_refused hindex _ (hfg x')
  · simp only [hindex, if_false]
    rw [Telling.trySelect_of_lt (Nat.lt_of_not_le hindex)]
    refine follows_mono (follows_tell (Telling.agree_selectChoice _)
      (fun _ _ _ => hfg x') (hR x')) fun w v term ht => ht.1

theorem follows_slices {most : Option Nat} :
    Follows (Together base i h x x.text) (fun _ _ => True)
      (fun w v term => ∃ x, Together base i h x x.text w v term)
      (Telling.playSlices (n + 2) i Responder.scripted most rounds count)
      (slices (n + 2) i most rounds count (some x.answers)) := by
  -- By induction on the rounds that are left, for all sessions: each slice adds to what was shown.
  induction rounds generalizing count x with
  | zero => exact fun _ _ _ _ => .none
  | succ rounds ih =>
    have hdone (x : Session) (w v term) (ht : Together base i h x x.text w v term) :
        ∃ x, Together base i h x x.text w v term := ⟨x, ht⟩
    by_cases hmost : ∀ n, most = some n → count < n
    · rw [Telling.playSlices_succ hmost, slices_succ hmost]
      refine follows_attempt Telling.agree_tick ?_ fun e => ?_
      · rintro slice _ rfl
        refine follows_showChanges ?_
        rw [ofExcept_ok_bind]
        cases slice with
        | running => exact follows_mono ih fun w v term ht => ht.1
        | finished => exact follows_pure trivial fun w v term ht => hdone x w v term ht.1
        | line spoken =>
          refine follows_mono (follows_line (fun y hy => ?_) hdone) fun w v term ht => ht.1
          exact hy ▸ @ih (count + 1) y
        | choices cs =>
          refine follows_mono (follows_choices (g := slices (n + 2) i most rounds (count + 1))
            (fun x => ?_) hdone) fun w v term ⟨ht, w₀, hyields⟩ =>
              ⟨ht, Telling.tick_choices hyields⟩
          exact @ih (count + 1) x
      · refine follows_mono (follows_showChanges (K := fun _ => True) ?_) fun w v term ht =>
          ⟨ht, trivial⟩
        rw [ofExcept_error_bind]
        exact follows_throw e fun w v term ht => hdone x w v term ht.1
    · obtain ⟨k, rfl, hk⟩ : ∃ k, most = some k ∧ k ≤ count := by
        simpa using hmost
      have hslices : slices (n + 2) i (some k) (rounds + 1) count (some x.answers) =
          throw (.ofStory (.slicesExhausted k)) := if_pos hk
      rw [Telling.playSlices_spent hk, hslices]
      exact follows_throw _ (hdone x)

theorem follows_drive (fuel : Nat) {c : Conversation Session} (hphase : c.phase = .created) :
    Follows (fun w v term => Together base i h x x.text w v term ∧
        w.host.conversations[i]? = some c) (fun _ _ => True)
      (fun w v term => ∃ x, Together base i h x x.text w v term)
      (Telling.play fuel i .scripted) (drive fuel i (some x.answers)) := by
  unfold Telling.play drive
  refine follows_left (T := fun w v term => Together base i h x x.text w v term ∧
    w.host.conversations[i]? = some c) fun w v term ⟨ht, hc⟩ => ?_
  refine ⟨some c, w, Telling.yields_conversation?.mpr ⟨congrArg _ hc.symm, rfl⟩, ⟨ht, hc⟩, ?_⟩
  simp only [hphase, if_true]
  refine follows_right (T := Together base i h x x.text) fun w v term ⟨ht, hc⟩ => ?_
  obtain ⟨c', d, m, htwins, -⟩ := ht.1
  cases htwins.alike.first.conversation.symm.trans hc
  refine ⟨some d, _, _, on_tell (Telling.yields_conversation?.mpr
    ⟨congrArg _ htwins.alike.second.conversation.symm, rfl⟩) term, ht.quiet _, ?_⟩
  simp only [Option.bind_some, htwins.alike.mirrors.config]
  refine follows_tell Telling.agree_start ?_ fun w v term ht => ⟨x, ht⟩
  rintro _ _ ⟨n, rfl⟩
  exact follows_slices

end Play

/-- Both hosts have come to the same end, and the terminal shows what the player of the first has
been shown. That the machines are the same includes the targets of all answers that they have
accepted, which they keep in `visited`. -/
structure SameEnd (base : Terminal) (r : Except StoryError Unit × World (Story Session))
    (r' : (Except Failure Unit × World (Story Log)) × Terminal) : Prop where
  result : r'.1.1 = r.1.mapError .ofStory
  output : base.Shows r.2.host.host.text r'.2
  state : r'.1.2.host.state = r.2.host.state
  conversation : Option.Rel (fun c d => d.phase = c.phase ∧ ∃ m : Machine Empty,
    r.2.machine? c.handle = some m.hosted ∧ r'.1.2.machine? d.handle = some m.hosted)
      r.2.host.conversations[0]? r'.1.2.host.conversations[0]?

theorem Together.sameEnd {w : World (Story Session)} {v : World (Story Log)} {t : Terminal}
    {r : Except StoryError Unit} {r' : Except Failure Unit} (ht : Together base 0 h x x.text w v t)
    (hends : Ends Failure.ofStory (fun _ _ => True) r r') : SameEnd base (r, w) ((r', v), t) := by
  obtain ⟨⟨c, d, m, htwins, -⟩, hshows⟩ := ht
  have hx : w.host.host = x := htwins.view
  refine ⟨?_, hx ▸ hshows, htwins.alike.state, ?_⟩
  · cases hends <;> rfl
  · rw [htwins.first.conversation, htwins.second.conversation]
    exact .some ⟨htwins.alike.mirrors.phase, m, htwins.first.machine?, htwins.second.machine?⟩

theorem Play.Follows.sameEnd {P : World (Story Session) → World (Story Log) → Terminal → Prop}
    {t : Telling Session Unit} {p : Play Unit} (hf : Play.Follows P (fun _ _ => True)
      (fun w v term => ∃ x, Together base 0 h x x.text w v term) t p)
    {w : World (Story Session)} {v : World (Story Log)} {term : Terminal} (hp : P w v term) :
    Option.Rel (SameEnd base) (t.run.run w) (p.on v term) := by
  have hrel := hf w v term hp
  generalize t.run.run w = o at hrel ⊢
  generalize p.on v term = o' at hrel ⊢
  cases hrel with
  | none => exact .none
  | some hr =>
    obtain ⟨hends, x, ht⟩ := hr
    exact .some (ht.sameEnd hends)

/-- A conversation that is created and driven on a terminal comes to the same as one that is created
and played by a responder with the same answers. Neither ends before the other, and since the bound
on the slices is any, they are also the same after each slice. -/
theorem Play.drive_scripted (n fuel : Nat) (data : CompiledData) (config : Config) (state : Snapshot)
    (answers : List Nat) (threshold threshold' : Severity) (base : Terminal) :
    Option.Rel (SameEnd base)
      ((do
        let i ← Telling.create n .empty data config
        Telling.play fuel i .scripted : Telling Session Unit).run.run
          (.opened (Story.logging fun _ _ x => x) ⟨answers, []⟩ state threshold))
      ((do
        let i ← Play.tell (Telling.create n .empty data config)
        Play.drive fuel i (some answers) : Play Unit).on
          (.opened Play.logged [] state threshold') base) := by
  rw [Telling.run_bind, Play.on_bind, Play.tell, Play.on_bind, Play.on_attempt]
  rcases n with _ | n
  · rw [Telling.create_zero, Telling.create_zero]
    exact .none
  rw [Telling.create_opened, Telling.create_opened]
  have hlog : Discreet id (Story.logging fun _ _ (x : Session) => x) :=
    fun _ _ s => ⟨s.host, rfl, rfl⟩
  have hlogged : Discreet (fun _ => ()) Play.logged := fun _ _ _ => ⟨_, rfl, rfl⟩
  have hshows (complaints : String) : base.Shows (Session.text ⟨answers, []⟩)
      { base with complaints := complaints } :=
    ⟨complaints, by simp [Session.text, Terminal.text]⟩
  cases hparse : Container.parse data.bytes with
  | error e =>
    -- There is no conversation on either side, only the message of the failure.
    obtain ⟨y, rfl, hw⟩ := World.same_of_logs hlog (World.logs_report
      (.opened (Story.logging fun _ _ x => x) ⟨answers, []⟩ state
        (config.severity.getD threshold)) .error ("Failed to create VM: " ++ e.message))
    obtain ⟨z, -, hv⟩ := World.same_of_logs hlogged (World.logs_report
      (.opened Play.logged [] state (config.severity.getD threshold')) .error
        ("Failed to create VM: " ++ e.message))
    simp only [hw, hv, Option.bind_some, Option.map_some, Play.on_ofExcept, Except.mapError]
    exact .some ⟨rfl, hshows _, rfl, .none⟩
  | ok k =>
    have htwinned := World.twinned_created hlog hlogged hparse config ⟨answers, []⟩ [] state
      (config.severity.getD threshold) (config.severity.getD threshold')
    have htogether : Together base 0 _ ⟨answers, []⟩ _ _ _ base := ⟨htwinned, hshows _⟩
    obtain ⟨c, hc, hphase⟩ := World.conversation_created k data config
      (.opened (Story.logging fun _ _ x => x) (⟨answers, []⟩ : Session) state
        (config.severity.getD threshold))
    simp only [Option.bind_some, Option.map_some, Play.on_ofExcept, Except.mapError]
    have hquiet := htogether.quiet (World.created (.opened Play.logged [] state
      (config.severity.getD threshold')) k data config).host.host.reverse
    exact ((Play.follows_drive fuel hphase).sameEnd ⟨hquiet, hc⟩ :)

example : ((Builder.run .offset Telling.market).build.map fun bytes =>
    (CompiledData.ofBytes bytes).map fun data =>
      ((do
        let i ← Play.tell (Telling.create 9 .empty data {})
        Play.drive 9 i (some [7, 1]) : Play Unit).on (.opened Play.logged [] .empty .error)
          ⟨[], {}, "", ""⟩).map fun r => (r.2.output, r.2.complaints)) =
    .ok (.ok (some (Terminal.text ["mara: Bread or fish?", "  1. Bread", "  2. Fish", "  1. Bread",
      "  2. Fish", "mara: Caught at dawn."], "no option 8, asking again\n"))) := by
  decide +kernel

end Dialogue
