import Dialogue.Proofs.Story.Allowance
import Dialogue.Proofs.Story.Replay

/-!
Plays in instalments. A play takes no more slices than its limit, and says so when it has taken them
all. A conversation that is played again and again, until the play says something else, is told as in
one play without a limit: turn by turn the player is shown the same and answers the same.
-/

namespace Dialogue

variable {δ : Type} {i fuel n rounds count count' : Nat} {r : Responder δ} {most : Option Nat}
  {w w' v' : World (Story δ)} {k : Config} {B : Prop}

structure Turn where
  slice : Except StoryError Slice
  chosen : Option Nat

def Responder.chosen (r : Responder δ) (host : δ) : Slice → Option Nat
  | .choices cs => some (r.choose cs host).1
  | _ => none

namespace Telling

def outcome? : Except StoryError Bool → Option (Except StoryError Unit)
  | .error e => some (.error e)
  | .ok true => some (.ok ())
  | .ok false => none

def turn (fuel i : Nat) (r : Responder δ) (w : World (Story δ)) :
    Option (Turn × Except StoryError Bool × World (Story δ)) :=
  ((tick fuel i).run.run w).bind fun
    | (.error e, w) => some (⟨.error e, none⟩, .error e, w)
    | (.ok slice, w) => ((respond fuel i r slice).run.run w).map
        (⟨.ok slice, r.chosen w.host.host slice⟩, ·)

def recordSlices (fuel i : Nat) (r : Responder δ) (maxSlices : Option Nat) :
    Nat → Nat → World (Story δ) → Option (List Turn × Except StoryError Unit × World (Story δ))
  | 0, _, _ => none
  | rounds + 1, slices, w =>
    match maxSlices.filter (· ≤ slices) with
    | some most => some ([], .error (.slicesExhausted most), w)
    | none => (turn fuel i r w).bind fun (t, answer, w) =>
      match outcome? answer with
      | some x => some ([t], x, w)
      | none => (recordSlices fuel i r maxSlices rounds (slices + 1) w).map
          fun (turns, x) => (t :: turns, x)

def recordPlay (fuel i : Nat) (r : Responder δ) (w : World (Story δ)) :
    Option (List Turn × Except StoryError Unit × World (Story δ)) :=
  match w.host.conversations[i]? with
  | none => some ([], .ok (), w)
  | some c =>
    if c.phase = .created then
      ((start fuel i).run.run w).bind fun
        | (.error e, w) => some ([], .error e, w)
        | (.ok _, w) => recordSlices fuel i r c.config.maxSlices fuel 0 w
    else recordSlices fuel i r c.config.maxSlices fuel 0 w

theorem run_conversation?_bind {β : Type} (f : Option (Conversation δ) → Telling δ β) :
    (conversation? i >>= f).run.run w = (f w.host.conversations[i]?).run.run w := rfl

theorem run_turn_bind {f : Bool → Telling δ Unit} :
    (do f (← respond fuel i r (← tick fuel i))).run.run w = (turn fuel i r w).bind fun
      | (_, .error e, w) => some (.error e, w)
      | (_, .ok last, w) => (f last).run.run w := by
  rw [run_bind, turn, Option.bind_assoc]
  congr 1
  funext x
  obtain ⟨e | slice, w₁⟩ := x
  · rfl
  · simp only [run_bind]
    cases (respond fuel i r slice).run.run w₁ with
    | none => rfl
    | some y => obtain ⟨e | last, w₂⟩ := y <;> rfl

theorem recordSlices_succ (hmost : ∀ n, most = some n → count < n) :
    recordSlices fuel i r most (rounds + 1) count w = (turn fuel i r w).bind fun (t, answer, w) =>
      match outcome? answer with
      | some x => some ([t], x, w)
      | none => (recordSlices fuel i r most rounds (count + 1) w).map
          fun (turns, x) => (t :: turns, x) := by
  have hfilter : most.filter (· ≤ count) = none := by
    cases most with
    | none => rfl
    | some n => simpa using hmost n rfl
  rw [recordSlices, hfilter]

theorem recordSlices_spent (h : n ≤ count) :
    recordSlices fuel i r (some n) (rounds + 1) count w =
      some ([], .error (.slicesExhausted n), w) := by
  have hfilter : (some n).filter (· ≤ count) = some n := by simpa using h
  rw [recordSlices, hfilter]

theorem run_playSlices : (playSlices fuel i r most rounds count).run.run w =
    (recordSlices fuel i r most rounds count w).map (·.2) := by
  induction rounds generalizing count w with
  | zero => rfl
  | succ rounds ih =>
    by_cases hmost : ∀ n, most = some n → count < n
    · rw [playSlices_succ hmost, recordSlices_succ hmost, run_turn_bind, Option.map_bind]
      congr 1
      funext x
      obtain ⟨t, e | last, w₁⟩ := x
      · rfl
      · cases last with
        | true => rfl
        | false =>
          simp only [Bool.false_eq_true, if_false, ih, outcome?, Function.comp_apply, Option.map_map]
          rfl
    · simp only [not_forall, Nat.not_lt] at hmost
      obtain ⟨n, rfl, hn⟩ := hmost
      rw [playSlices_spent hn, recordSlices_spent hn]
      rfl

theorem run_play : (play fuel i r).run.run w = (recordPlay fuel i r w).map (·.2) := by
  unfold play recordPlay
  rw [run_conversation?_bind]
  cases w.host.conversations[i]? with
  | none => rfl
  | some c =>
    by_cases hphase : c.phase = .created
    · simp only [hphase, if_true, run_bind, Option.map_bind]
      congr 1
      funext x
      obtain ⟨e | _, w₁⟩ := x
      · rfl
      · exact run_playSlices
    · simp only [hphase, if_false]
      exact run_playSlices

theorem turn_cases {t : Turn} {x : Except StoryError Bool}
    (h : turn fuel i r w = some (t, x, w')) :
    (∃ e, (tick fuel i).Yields w (.error e) w' ∧ x = .error e) ∨
      ∃ slice w₁, (tick fuel i).Yields w (.ok slice) w₁ ∧
        (respond fuel i r slice).Yields w₁ x w' := by
  obtain ⟨⟨e | slice, w₁⟩, htick, h⟩ := Option.bind_eq_some_iff.mp h
  · cases h
    exact .inl ⟨e, htick, rfl⟩
  · obtain ⟨y, hrespond, heq⟩ := Option.map_eq_some_iff.mp h
    cases heq
    exact .inr ⟨slice, w₁, htick, hrespond⟩

theorem turn_unspent {t : Turn} {e : StoryError} (h : turn fuel i r w = some (t, .error e, w'))
    (m : Nat) : e ≠ .slicesExhausted m := by
  have hrespond (slice : Slice) : Indifferent i False (respond fuel i r slice) :=
    indifferent_respond r slice
  rcases turn_cases h with ⟨e', htick, heq⟩ | ⟨slice, w₁, -, hyields⟩
  · cases heq
    exact (indifferent_tick (B := False)).unspent htick m
  · exact (hrespond slice).unspent hyields m

theorem turn_configured {t : Turn} {x : Except StoryError Bool} (hw : w.Configured i k B)
    (h : turn fuel i r w = some (t, x, w')) : w'.Configured i k B := by
  rcases turn_cases h with ⟨e, htick, -⟩ | ⟨slice, w₁, htick, hrespond⟩
  · exact indifferent_tick.configured hw htick
  · have hw₁ := indifferent_tick.configured hw htick
    exact (indifferent_respond r slice).configured hw₁ hrespond

theorem turn_limited (hw : w.Configured i k B) (most : Option Nat) :
    turn fuel i r (w.limited i most) =
      (turn fuel i r w).map fun x => (x.1, x.2.1, x.2.2.limited i most) := by
  unfold turn
  rw [indifferent_tick.run hw most]
  cases htick : (tick fuel i).run.run w with
  | none => rfl
  | some x =>
    obtain ⟨e | slice, w₁⟩ := x
    · rfl
    · have hw₁ := indifferent_tick.configured hw htick
      simp only [Option.map_some, Option.bind_some, (indifferent_respond r slice).run hw₁ most,
        Option.map_map]
      rfl

theorem recordSlices_eq_some_iff {turns : List Turn} {x : Except StoryError Unit}
    (hmost : ∀ n, most = some n → count < n) :
    recordSlices fuel i r most (rounds + 1) count w = some (turns, x, w') ↔
      ∃ t answer w₁, turn fuel i r w = some (t, answer, w₁) ∧
        (outcome? answer = some x ∧ turns = [t] ∧ w' = w₁ ∨
          outcome? answer = none ∧ ∃ rest, turns = t :: rest ∧
            recordSlices fuel i r most rounds (count + 1) w₁ = some (rest, x, w')) := by
  rw [recordSlices_succ hmost, Option.bind_eq_some_iff]
  constructor
  · rintro ⟨⟨t, answer, w₁⟩, hturn, h⟩
    refine ⟨t, answer, w₁, hturn, ?_⟩
    cases hout : outcome? answer with
    | some y =>
      simp only [hout] at h
      cases h
      exact .inl ⟨rfl, rfl, rfl⟩
    | none =>
      simp only [hout] at h
      obtain ⟨⟨rest, y⟩, hrest, heq⟩ := Option.map_eq_some_iff.mp h
      cases heq
      exact .inr ⟨rfl, rest, rfl, hrest⟩
  · rintro ⟨t, answer, w₁, hturn, ⟨hout, rfl, rfl⟩ | ⟨hout, rest, rfl, hrest⟩⟩
    · exact ⟨_, hturn, by simp only [hout]⟩
    · exact ⟨_, hturn, by simp only [hout, hrest, Option.map_some]⟩

theorem unspent_of_outcome {t : Turn} {answer : Except StoryError Bool} {x : Except StoryError Unit}
    (hturn : turn fuel i r w = some (t, answer, w')) (hout : outcome? answer = some x) (m : Nat) :
    x ≠ .error (.slicesExhausted m) := by
  rcases answer with e | _ | _
  · cases hout
    exact fun heq => turn_unspent hturn m (Except.error.inj heq)
  · cases hout
  · cases hout
    exact nofun

theorem recordSlices_length {turns : List Turn} {x : Except StoryError Unit} (hcount : count ≤ n)
    (h : recordSlices fuel i r (some n) rounds count w = some (turns, x, w')) :
    count + turns.length ≤ n ∧
      ∀ m, x = .error (.slicesExhausted m) → m = n ∧ count + turns.length = n := by
  induction rounds generalizing count w turns with
  | zero => cases h
  | succ rounds ih =>
    by_cases hspent : n ≤ count
    · rw [recordSlices_spent hspent] at h
      cases h
      refine ⟨hcount, fun m heq => ?_⟩
      cases heq
      exact ⟨rfl, Nat.le_antisymm hcount hspent⟩
    · have hmost (m : Nat) (hm : some n = some m) : count < m := by
        cases hm
        exact Nat.lt_of_not_le hspent
      obtain ⟨t, answer, w₁, hturn, ⟨hout, rfl, rfl⟩ | ⟨-, rest, rfl, hrest⟩⟩ :=
        (recordSlices_eq_some_iff hmost).mp h
      · refine ⟨by simp only [List.length_singleton]; omega, fun m heq => ?_⟩
        exact absurd heq (unspent_of_outcome hturn hout m)
      · obtain ⟨hlength, hall⟩ := ih (Nat.lt_of_not_le hspent) hrest
        refine ⟨by simp only [List.length_cons]; omega, fun m heq => ?_⟩
        obtain ⟨rfl, hlength⟩ := hall m heq
        exact ⟨rfl, by simp only [List.length_cons]; omega⟩

theorem recordSlices_unlimited {turns : List Turn} {x : Except StoryError Unit}
    (hw : w.Configured i k B)
    (h : recordSlices fuel i r none (rounds + 1) count (w.limited i none) = some (turns, x, v')) :
    ∃ t answer w₁, turn fuel i r w = some (t, answer, w₁) ∧ w₁.Configured i k B ∧
      (outcome? answer = some x ∧ turns = [t] ∧ v' = w₁.limited i none ∨
        outcome? answer = none ∧ ∃ rest, turns = t :: rest ∧
          recordSlices fuel i r none rounds (count + 1) (w₁.limited i none) =
            some (rest, x, v')) := by
  have hmost (m : Nat) (hm : none = some m) : count < m := nomatch hm
  obtain ⟨t, answer, v₁, hturn, hcases⟩ := (recordSlices_eq_some_iff hmost).mp h
  rw [turn_limited hw none] at hturn
  obtain ⟨⟨t, answer, w₁⟩, hfirst, heq⟩ := Option.map_eq_some_iff.mp hturn
  cases heq
  exact ⟨t, answer, w₁, hfirst, turn_configured hw hfirst, hcases⟩

theorem recordSlices_within {turns : List Turn} {x : Except StoryError Unit}
    (hw : w.Configured i k B)
    (h : recordSlices fuel i r none rounds count' (w.limited i none) = some (turns, x, v'))
    (hfits : count + turns.length ≤ n) :
    ∃ w', recordSlices fuel i r (some n) rounds count w = some (turns, x, w') ∧
      v' = w'.limited i none ∧ ∀ m, x ≠ .error (.slicesExhausted m) := by
  induction rounds generalizing count count' w turns with
  | zero => cases h
  | succ rounds ih =>
    obtain ⟨t, answer, w₁, hturn, hw₁, hcases⟩ := recordSlices_unlimited hw h
    have hmost (m : Nat) (hm : some n = some m) : count < m := by
      cases hm
      rcases hcases with ⟨-, rfl, -⟩ | ⟨-, rest, rfl, -⟩ <;>
      · simp only [List.length_cons, List.length_nil] at hfits
        omega
    rcases hcases with ⟨hout, rfl, rfl⟩ | ⟨hout, rest, rfl, hrest⟩
    · exact ⟨w₁, (recordSlices_eq_some_iff hmost).mpr
        ⟨t, answer, w₁, hturn, .inl ⟨hout, rfl, rfl⟩⟩, rfl, unspent_of_outcome hturn hout⟩
    · have hrest' : count + 1 + rest.length ≤ n := by
        rw [List.length_cons] at hfits
        omega
      obtain ⟨w', hrecord, hv', hx⟩ := ih hw₁ hrest hrest'
      exact ⟨w', (recordSlices_eq_some_iff hmost).mpr
        ⟨t, answer, w₁, hturn, .inr ⟨hout, rest, rfl, hrecord⟩⟩, hv', hx⟩

theorem recordSlices_cut {turns : List Turn} {x : Except StoryError Unit} {left : Nat}
    (hw : w.Configured i k B)
    (h : recordSlices fuel i r none rounds count' (w.limited i none) = some (turns, x, v'))
    (hleft : count + left = n) (hcut : left < turns.length) :
    ∃ w₁ rounds' count', recordSlices fuel i r (some n) rounds count w =
        some (turns.take left, .error (.slicesExhausted n), w₁) ∧
      w₁.Configured i k B ∧ rounds' ≤ rounds ∧
      recordSlices fuel i r none rounds' count' (w₁.limited i none) =
        some (turns.drop left, x, v') := by
  induction left generalizing rounds count count' w turns with
  | zero =>
    cases rounds with
    | zero => cases h
    | succ rounds =>
      have hspent : n ≤ count := Nat.le_of_eq hleft.symm
      exact ⟨w, rounds + 1, count', recordSlices_spent hspent, hw, Nat.le.refl, h⟩
  | succ left ih =>
    cases rounds with
    | zero => cases h
    | succ rounds =>
      obtain ⟨t, answer, w₁, hturn, hw₁, ⟨-, rfl, -⟩ | ⟨hout, rest, rfl, hrest⟩⟩ :=
        recordSlices_unlimited hw h
      · simp only [List.length_singleton] at hcut
        omega
      · have hmost (m : Nat) (hm : some n = some m) : count < m := by
          cases hm
          omega
        have hleft' : count + 1 + left = n := by omega
        have hcut' : left < rest.length := Nat.lt_of_succ_lt_succ hcut
        obtain ⟨w₂, rounds', count', hrecord, hw₂, hle, hlater⟩ := ih hw₁ hrest hleft' hcut'
        exact ⟨w₂, rounds', count', (recordSlices_eq_some_iff hmost).mpr
          ⟨t, answer, w₁, hturn, .inr ⟨hout, _, rfl, hrecord⟩⟩, hw₂, Nat.le_succ_of_le hle, hlater⟩

theorem recordSlices_rounds {rounds' : Nat}
    {y : List Turn × Except StoryError Unit × World (Story δ)}
    (h : recordSlices fuel i r none rounds count w = some y) (hle : rounds ≤ rounds') :
    recordSlices fuel i r none rounds' count w = some y := by
  induction rounds generalizing rounds' count w y with
  | zero => cases h
  | succ rounds ih =>
    obtain ⟨rounds', rfl⟩ := Nat.exists_eq_add_of_le' (Nat.le_trans (Nat.le_add_left 1 rounds) hle)
    obtain ⟨turns, x, w'⟩ := y
    have hmost (m : Nat) (hm : none = some m) : count < m := nomatch hm
    obtain ⟨t, answer, w₁, hturn, hout | ⟨hout, rest, hturns, hrest⟩⟩ :=
      (recordSlices_eq_some_iff hmost).mp h
    · exact (recordSlices_eq_some_iff hmost).mpr ⟨t, answer, w₁, hturn, .inl hout⟩
    · have hlater := ih hrest (Nat.le_of_succ_le_succ hle)
      exact (recordSlices_eq_some_iff hmost).mpr
        ⟨t, answer, w₁, hturn, .inr ⟨hout, rest, hturns, hlater⟩⟩

theorem recordPlay_started (hw : w.Configured i k True) :
    recordPlay fuel i r w = recordSlices fuel i r k.maxSlices fuel 0 w := by
  obtain ⟨-, c, hc, rfl, hphase⟩ := hw
  simp only [recordPlay, hc, hphase trivial, if_false]

theorem recordPlay_created {c : Conversation δ} (hc : w.host.conversations[i]? = some c)
    (hphase : c.phase = .created) :
    recordPlay fuel i r w = ((start fuel i).run.run w).bind fun
      | (.error e, w) => some ([], .error e, w)
      | (.ok _, w) => recordSlices fuel i r c.config.maxSlices fuel 0 w := by
  simp only [recordPlay, hc, hphase, if_true]

/-- The conversation is played until the play ends otherwise than with its slices exhausted. The
turns are listed play by play. -/
inductive PlaysOn (fuel i : Nat) (r : Responder δ) :
    World (Story δ) → List (List Turn) → Except StoryError Unit → World (Story δ) → Prop
  | last {w w' turns x} (hplay : recordPlay fuel i r w = some (turns, x, w'))
      (hends : ∀ m, x ≠ .error (.slicesExhausted m)) : PlaysOn fuel i r w [turns] x w'
  | more {w w₁ w' turns m parts x}
      (hplay : recordPlay fuel i r w = some (turns, .error (.slicesExhausted m), w₁))
      (hrest : PlaysOn fuel i r w₁ parts x w') : PlaysOn fuel i r w (turns :: parts) x w'

variable {turns : List Turn} {parts parts' : List (List Turn)} {x y : Except StoryError Unit}

theorem PlaysOn.unique (h : PlaysOn fuel i r w parts x w') (h' : PlaysOn fuel i r w parts' y v') :
    parts' = parts ∧ y = x ∧ v' = w' := by
  induction h generalizing parts' y v' with
  | last hplay hends =>
    cases h' with
    | last hplay' =>
      cases hplay.symm.trans hplay'
      exact ⟨rfl, rfl, rfl⟩
    | more hplay' =>
      cases hplay.symm.trans hplay'
      exact absurd rfl (hends _)
  | more hplay _ ih =>
    cases h' with
    | last hplay' hends =>
      cases hplay.symm.trans hplay'
      exact absurd rfl (hends _)
    | more hplay' hrest =>
      cases hplay.symm.trans hplay'
      obtain ⟨rfl, rfl, rfl⟩ := ih hrest
      exact ⟨rfl, rfl, rfl⟩

theorem PlaysOn.congr {w₁ : World (Story δ)} (h : PlaysOn fuel i r w₁ parts x w')
    (hplay : recordPlay fuel i r w = recordPlay fuel i r w₁) : PlaysOn fuel i r w parts x w' := by
  cases h with
  | last hlast hends => exact .last (hplay.trans hlast) hends
  | more hmore hrest => exact .more (hplay.trans hmore) hrest

theorem playsOn_of_recordSlices (hk : k.maxSlices = some n) (hn : 0 < n)
    (hw : w.Configured i k True) (hle : rounds ≤ fuel)
    (h : recordSlices fuel i r none rounds count (w.limited i none) = some (turns, x, v')) :
    ∃ parts w', PlaysOn fuel i r w parts x w' ∧ parts.flatten = turns ∧
      w'.limited i none = v' := by
  induction hlength : turns.length using Nat.strong_induction_on
    generalizing turns rounds count w with
  | _ length ih =>
    have hplay : recordPlay fuel i r w = recordSlices fuel i r (some n) fuel 0 w := by
      rw [recordPlay_started hw, hk]
    have hwhole := recordSlices_rounds h hle
    by_cases hfits : turns.length ≤ n
    · have hfits' : 0 + turns.length ≤ n := by rwa [Nat.zero_add]
      obtain ⟨w', hrecord, rfl, hends⟩ := recordSlices_within hw hwhole hfits'
      exact ⟨[turns], w', .last (hplay.trans hrecord) hends, List.flatten_singleton, rfl⟩
    · obtain ⟨w₁, rounds', count', hrecord, hw₁, hle', hrest⟩ :=
        recordSlices_cut hw hwhole (Nat.zero_add n) (Nat.lt_of_not_le hfits)
      have hshorter : (turns.drop n).length < length := by
        rw [List.length_drop]
        omega
      obtain ⟨parts, w', hparts, hflatten, hv'⟩ := ih _ hshorter hw₁ hle' hrest rfl
      refine ⟨turns.take n :: parts, w', .more (hplay.trans hrecord) hparts, ?_, hv'⟩
      rw [List.flatten_cons, hflatten, List.take_append_drop]

theorem recordPlay_length {c : Conversation δ} (hc : w.host.conversations[i]? = some c)
    (hn : c.config.maxSlices = some n) (h : recordPlay fuel i r w = some (turns, x, w')) :
    turns.length ≤ n ∧ ∀ m, x = .error (.slicesExhausted m) → m = n ∧ turns.length = n := by
  have hslices {w₁ : World (Story δ)}
      (h : recordSlices fuel i r c.config.maxSlices fuel 0 w₁ = some (turns, x, w')) :
      turns.length ≤ n ∧ ∀ m, x = .error (.slicesExhausted m) → m = n ∧ turns.length = n := by
    rw [hn] at h
    have hlength := recordSlices_length (Nat.zero_le n) h
    rwa [Nat.zero_add] at hlength
  by_cases hphase : c.phase = .created
  · rw [recordPlay_created hc hphase] at h
    obtain ⟨⟨e | _, w₁⟩, hstart, h⟩ := Option.bind_eq_some_iff.mp h
    · cases h
      have hunspent := (indifferent_start (B := False)).unspent hstart
      exact ⟨Nat.zero_le n, fun m heq => absurd (Except.error.inj heq) (hunspent m)⟩
    · exact hslices h
  · simp only [recordPlay, hc, hphase, if_false] at h
    exact hslices h

theorem playsOn_of_recordPlay {c : Conversation δ} (hc : w.host.conversations[i]? = some c)
    (hmost : c.config.maxSlices = some n) (hn : 0 < n) (hw : w.Heedless i)
    (h : recordPlay fuel i r (w.limited i none) = some (turns, x, v')) :
    ∃ parts w', PlaysOn fuel i r w parts x w' ∧ parts.flatten = turns ∧
      w'.limited i none = v' := by
  have hlimited : (w.limited i none).host.conversations[i]? = some (c.limited none) := by
    rw [World.limited, World.recast, Story.conversation_recast, hc, Option.map_some]
  by_cases hphase : c.phase = .created
  · have hconfigured : w.Configured i c.config False := ⟨hw, c, hc, rfl, False.elim⟩
    rw [recordPlay_created hlimited hphase, indifferent_start.run hconfigured none] at h
    cases hstart : (start fuel i).run.run w with
    | none =>
      rw [hstart] at h
      cases h
    | some y =>
      obtain ⟨e | _, w₁⟩ := y
      · rw [hstart] at h
        cases h
        have hplay : recordPlay fuel i r w = some ([], .error e, w₁) := by
          rw [recordPlay_created hc hphase, hstart]
          rfl
        have hunspent := (indifferent_start (B := False)).unspent hstart
        exact ⟨[[]], w₁, .last hplay fun m heq => hunspent m (Except.error.inj heq), rfl, rfl⟩
      · rw [hstart] at h
        have hw₁ := configured_of_start hconfigured hstart
        obtain ⟨parts, w', hparts, hturns⟩ :=
          playsOn_of_recordSlices hmost hn hw₁ Nat.le.refl h
        refine ⟨parts, w', hparts.congr ?_, hturns⟩
        rw [recordPlay_created hc hphase, hstart, recordPlay_started hw₁]
        rfl
  · have hstarted : w.Configured i c.config True := ⟨hw, c, hc, rfl, fun _ => hphase⟩
    have hphase' : (c.limited none).phase ≠ .created := hphase
    simp only [recordPlay, hlimited, hphase', if_false] at h
    exact playsOn_of_recordSlices hmost hn hstarted Nat.le.refl h

/-- A play takes at most as many slices as its limit, and says that they are exhausted after as many
only. If host code leaves the settings of the conversation to whoever holds it, playing it again and
again comes to what one play without a limit comes to, turn by turn and in everything but the
limit. -/
theorem told_in_parts {c : Conversation δ} (hc : w.host.conversations[i]? = some c)
    (hmost : c.config.maxSlices = some n) :
    (∀ x w', (play fuel i r).Yields w x w' → ∃ turns,
      recordPlay fuel i r w = some (turns, x, w') ∧ turns.length ≤ n ∧
        ∀ m, x = .error (.slicesExhausted m) → m = n ∧ turns.length = n) ∧
      (0 < n → w.Heedless i → ∀ x v', (play fuel i r).Yields (w.limited i none) x v' →
        ∃ turns parts w', recordPlay fuel i r (w.limited i none) = some (turns, x, v') ∧
          PlaysOn fuel i r w parts x w' ∧ parts.flatten = turns ∧ w'.limited i none = v' ∧
            ∀ parts' y u, PlaysOn fuel i r w parts' y u → parts' = parts ∧ y = x ∧ u = w') := by
  have hrecorded {v v₁ : World (Story δ)} {x : Except StoryError Unit}
      (h : (play fuel i r).Yields v x v₁) :
      ∃ turns, recordPlay fuel i r v = some (turns, x, v₁) := by
    rw [Yields, run_play] at h
    obtain ⟨⟨turns, y⟩, hrecord, rfl⟩ := Option.map_eq_some_iff.mp h
    exact ⟨turns, hrecord⟩
  constructor
  · intro x w' hyields
    obtain ⟨turns, hrecord⟩ := hrecorded hyields
    exact ⟨turns, hrecord, recordPlay_length hc hmost hrecord⟩
  · intro hn hw x v' hyields
    obtain ⟨turns, hrecord⟩ := hrecorded hyields
    obtain ⟨parts, w', hparts, hturns, hv'⟩ := playsOn_of_recordPlay hc hmost hn hw hrecord
    exact ⟨turns, parts, w', hrecord, hparts, hturns, hv', fun _ _ _ h => hparts.unique h⟩

/-- Of the answers 7 and 1 the first is out of range. The limit cuts the play before the choices are
shown again. -/
theorem told_in_parts_market : ∃ (data : CompiledData) (w w₁ w' v' : World (Story (List Nat)))
    (c : Conversation (List Nat)) (turns : List Turn) (parts : List (List Turn)),
    (create 9 .empty data { maxSlices := some 2 }).Yields (engine [7, 1]) (.ok 0) w ∧
      w.host.conversations[0]? = some c ∧ c.config.maxSlices = some 2 ∧ 0 < 2 ∧ w.Heedless 0 ∧
      (play 9 0 reciter).Yields w (.error (.slicesExhausted 2)) w₁ ∧
      recordPlay 9 0 reciter w = some (turns, .error (.slicesExhausted 2), w₁) ∧
      turns.length = 2 ∧ turns.map (·.chosen) = [none, some 7] ∧
      (play 9 0 reciter).Yields (w.limited 0 none) (.ok ()) v' ∧
      PlaysOn 9 0 reciter w parts (.ok ()) w' ∧ w'.limited 0 none = v' ∧
      parts.flatten.map (·.chosen) = [none, some 7, some 1, none, none] := by
  have h : ((Builder.run .offset market).build.map fun bytes =>
      (CompiledData.ofBytes bytes).map fun data =>
        ((create 9 .empty data { maxSlices := some 2 }).run.run (engine [7, 1])).any fun (r, w) =>
          decide (r = .ok 0) &&
            (w.host.conversations[0]?).any (fun c => decide (c.config.maxSlices = some 2)) &&
            (recordPlay 9 0 reciter w).any (fun (turns, x, _) =>
              decide (x = .error (.slicesExhausted 2) ∧ turns.map (·.chosen) = [none, some 7])) &&
            (recordPlay 9 0 reciter (w.limited 0 none)).any fun (turns, x, _) =>
              decide (x = .ok () ∧ turns.map (·.chosen) = [none, some 7, some 1, none, none])) =
      .ok (.ok true) := by
    decide +kernel
  obtain ⟨bytes, -, h⟩ := Except.map_eq_ok_iff.mp h
  obtain ⟨data, -, h⟩ := Except.map_eq_ok_iff.mp h.symm
  obtain ⟨r, w, hcreate, h⟩ := exists_yields h.symm
  simp only [Bool.and_eq_true, decide_eq_true_eq, Option.any_eq_true] at h
  obtain ⟨⟨⟨rfl, c, hc, hmost⟩, ⟨turns, x, w₁⟩, hfirst, rfl, hchosen⟩, h⟩ := h
  obtain ⟨⟨all, y, v'⟩, hwhole, rfl, hall⟩ := h
  have hw : w.Heedless 0 :=
    heedless_create (World.oblivious_create _ _) (fun _ _ _ h => by cases h) hcreate
  have hyields : (play 9 0 reciter).Yields w (.error (.slicesExhausted 2)) w₁ := by
    rw [Yields, run_play, hfirst]
    rfl
  have hyields' : (play 9 0 reciter).Yields (w.limited 0 none) (.ok ()) v' := by
    rw [Yields, run_play, hwhole]
    rfl
  obtain ⟨turns', hfirst', -, hspent⟩ := (told_in_parts hc hmost).1 _ _ hyields
  cases hfirst.symm.trans hfirst'
  obtain ⟨all', parts, w', hwhole', hparts, rfl, hv', -⟩ :=
    (told_in_parts hc hmost).2 (by decide) hw _ _ hyields'
  cases hwhole.symm.trans hwhole'
  exact ⟨data, w, w₁, w', v', c, turns, parts, hcreate, hc, hmost, by decide, hw, hyields, hfirst,
    (hspent 2 rfl).2, hchosen, hyields', hparts, hv', hall⟩

end Telling

end Dialogue
