import Dialogue.Proofs.Container.RoundTrip
import Dialogue.Proofs.Host.Likeness
import Dialogue.Proofs.Host.Unfolding

namespace Dialogue

variable {ε : Type}

def Operation.loans (lent : List Nat) : Operation ε → Reply → List Nat
  | .getValue .., .buffer (some n) => lent ++ [n]
  | .release n, _ => lent.erase n
  | _, _ => lent

theorem Operation.loans_of_loud {op : Operation ε} (hop : op.isQuiet = false) (lent : List Nat)
    (r : Reply) : op.loans lent r = lent := by
  cases op <;> first | rfl | cases hop

/-- What the counter shows when an operation has answered. Only a buffer that is out is taken
back. -/
structure Operation.Tallies (op : Operation ε) (lent : List Nat) (before : World ε) (r : Reply)
    (after : World ε) : Prop where
  counter : after.outstanding = (op.loans lent r).length
  answer : op = .outstanding → r = .count lent.length
  release : ∀ n, op = .release n →
    before.outstanding = after.outstanding + if n ∈ lent then 1 else 0

def Trace.loans (t : List (Occurrence ε)) : List Nat :=
  t.foldl (fun lent o => match o with
    | .returned op _ _ r _ => op.loans lent r
    | _ => lent) []

namespace World

structure Owes (w : World ε) (lent : List Nat) : Prop where
  mem_iff : ∀ n, n ∈ lent ↔ ∃ b, w.buffers[n]? = some b ∧ b.isReleased = false
  nodup : lent.Nodup
  outstanding : w.outstanding = lent.length

variable {w w' : World ε} {lent : List Nat}

theorem Owes.keepsBuffers (hw : w.Owes lent) (h : KeepsBuffers w w') : w'.Owes lent :=
  ⟨h.buffers ▸ hw.mem_iff, hw.nodup, h.outstanding ▸ hw.outstanding⟩

theorem Owes.length_not_mem (hw : w.Owes lent) : w.buffers.length ∉ lent := by
  intro h
  obtain ⟨b, hb, -⟩ := (hw.mem_iff _).mp h
  simp at hb

theorem Owes.append (hw : w.Owes lent) (v : Value) :
    Owes { w with buffers := w.buffers ++ [.ofValue v], outstanding := w.outstanding + 1 }
      (lent ++ [w.buffers.length]) := by
  refine ⟨fun n => ?_, ?_, by simp [hw.outstanding]⟩
  · simp only [List.mem_append, List.mem_singleton, hw.mem_iff]
    rcases Nat.lt_trichotomy n w.buffers.length with hn | rfl | hn
    · rw [List.getElem?_append_left hn]
      simp [Nat.ne_of_lt hn]
    · simp [Buffer.ofValue, Buffer.ofBytes, Buffer.isReleased]
    · have hold : w.buffers[n]? = none := List.getElem?_eq_none (Nat.le_of_lt hn)
      have hnew : (w.buffers ++ [Buffer.ofValue v])[n]? = none :=
        List.getElem?_eq_none (List.length_append ▸ hn)
      simp [hold, hnew, Nat.ne_of_gt hn]
  · exact hw.nodup.append (List.nodup_singleton _)
      (List.disjoint_singleton.mpr hw.length_not_mem)

theorem Owes.lend (hw : w.Owes lent) (h : Handle) (name : String) :
    (w.lend h name).2.Owes
      ((Operation.getValue h name : Operation ε).loans lent (.buffer (w.lend h name).1)) := by
  rw [lend_eq]
  unfold supply
  have hanswered := hw.keepsBuffers (keepsBuffers_answer w (w.lookup h name))
  cases (w.answer (w.lookup h name)).1 with
  | none => exact hanswered
  | some v => exact hanswered.append v

theorem Owes.release (hw : w.Owes lent) (n : Nat) : (w.release n).Owes (lent.erase n) ∧
    w.outstanding = (w.release n).outstanding + if n ∈ lent then 1 else 0 := by
  have hmem := hw.mem_iff n
  unfold World.release
  cases hb : w.buffers[n]? with
  | none =>
    have hn : n ∉ lent := by simpa [hb] using hmem
    simpa [hn, List.erase_of_not_mem hn] using hw
  | some b =>
    obtain ⟨hlt, -⟩ := List.getElem?_eq_some_iff.mp hb
    have hn : n ∈ lent ↔ b.isReleased = false := by simpa [hb] using hmem
    refine ⟨⟨fun m => ?_, hw.nodup.erase n, ?_⟩, ?_⟩
    · rw [hw.nodup.mem_erase_iff]
      by_cases hm : m = n
      · subst hm
        simp [hlt, Buffer.release, Buffer.isReleased]
      · simp [List.getElem?_set_ne (Ne.symm hm), hm, hw.mem_iff]
    · rw [List.length_erase, ← hw.outstanding]
      cases hreleased : b.isReleased <;> simp [hn, hreleased]
    · cases hreleased : b.isReleased with
      | true => simp [hn, hreleased]
      | false =>
        have hpos : 0 < lent.length := List.length_pos_of_mem (hn.mpr hreleased)
        simp [hn, hreleased, hw.outstanding]
        omega

theorem keepsBuffers_destroy (w : World ε) (h : Handle) : KeepsBuffers w (w.destroy h).2 := by
  unfold destroy
  split
  · exact ⟨rfl, rfl⟩
  · exact keepsBuffers_report w _ _

theorem Owes.exec_quiet {fuel : Nat} {op : Operation ε} {r : Reply} (hw : w.Owes lent)
    (hop : op.isQuiet = true) (hexec : exec (fuel + 1) op w = some (r, w')) :
    w'.Owes (op.loans lent r) ∧ op.Tallies lent w r w' := by
  have hkeeps (hloans : op.loans lent r = lent)
      (hanswer : op = .outstanding → r = .count lent.length) (hrelease : ∀ n, op ≠ .release n)
      (h : KeepsBuffers w w') : w'.Owes (op.loans lent r) ∧ op.Tallies lent w r w' := by
    have hw' : w'.Owes (op.loans lent r) := by
      rw [hloans]
      exact hw.keepsBuffers h
    exact ⟨hw', ⟨hw'.outstanding, hanswer, fun n heq => absurd heq (hrelease n)⟩⟩
  cases op <;> first | cases hop; done | skip
  case getValue h name =>
    cases hexec
    exact ⟨hw.lend h name, ⟨(hw.lend h name).outstanding, nofun, nofun⟩⟩
  case release n =>
    cases hexec
    obtain ⟨hw', hcount⟩ := hw.release n
    refine ⟨hw', ⟨hw'.outstanding, nofun, fun m heq => ?_⟩⟩
    cases heq
    exact hcount
  case outstanding =>
    cases hexec
    exact hkeeps rfl (fun _ => congrArg Reply.count hw.outstanding) nofun (.refl w)
  case destroy h =>
    cases hexec
    exact hkeeps rfl nofun nofun (keepsBuffers_destroy w h)
  case report severity message =>
    cases hexec
    exact hkeeps rfl nofun nofun (keepsBuffers_report w severity message)
  case isAlive | size | bufferBytes | setSeverity | resetHandler =>
    cases hexec
    exact hkeeps rfl nofun nofun ⟨rfl, rfl⟩
  all_goals
    cases hexec
    exact hkeeps rfl nofun nofun (keepsBuffers_answer w _)

end World

namespace Trace

variable {t os : List (Occurrence ε)}

theorem loans_return (t : List (Occurrence ε)) (op : Operation ε) (since : Nat) (before : World ε)
    (r : Reply) (after : World ε) :
    loans (t ++ [.returned op since before r after]) = op.loans (loans t) r := by
  rw [loans, List.foldl_append]
  rfl

theorem loans_aside (hos : ∀ o ∈ os, o.isReturn = false) : loans (t ++ os) = loans t := by
  induction os generalizing t with
  | nil => rw [List.append_nil]
  | cons o os ih =>
    obtain ⟨ho, hos⟩ := List.forall_mem_cons.mp hos
    have hone : loans (t ++ [o]) = loans t := by
      rw [loans, List.foldl_append]
      cases o <;> first | rfl | cases ho
    rw [List.append_cons, ih hos, hone]

end Trace

namespace Recorded

open Trace

structure Balanced (s : Recorded ε) : Prop where
  owes : s.world.Owes (loans s.trace)
  returns : ∀ p op since before r after q, s.trace = p ++ .returned op since before r after :: q →
    op.Tallies (loans p) before r after

variable {s s' : Recorded ε}

theorem Balanced.return {op : Operation ε} {since : Nat} {before w : World ε} {r : Reply}
    (hs : s.Balanced) (hw : w.Owes (op.loans (loans s.trace) r))
    (hop : op.Tallies (loans s.trace) before r w) :
    Balanced ⟨w, s.trace ++ [.returned op since before r w]⟩ := by
  refine ⟨by rwa [loans_return], fun p op' since' before' r' after' q heq => ?_⟩
  rcases append_eq_append_cons heq with ⟨q', ht, -⟩ | ⟨p', rfl, hp'⟩
  · exact hs.returns p op' since' before' r' after' q' ht
  · cases p' with
    | nil =>
      cases hp'
      rwa [List.append_nil]
    | cons o p' => simp at hp'

theorem Balanced.step (hs : s.Balanced) (h : AtOnce s s') : s'.Balanced := by
  cases h with
  | aside hkeeps htrace hos =>
    refine ⟨?_, fun p op since before r after q heq => ?_⟩
    · rw [htrace, loans_aside hos]
      exact hs.owes.keepsBuffers hkeeps
    · rw [htrace] at heq
      rcases append_eq_append_cons heq with ⟨q', ht, -⟩ | ⟨p', -, rfl⟩
      · exact hs.returns p op since before r after q' ht
      · cases hos _ (List.mem_append_right _ List.mem_cons_self)
  | @leave op hop since before r =>
    have hloans := Operation.loans_of_loud hop (loans s.trace) r
    refine hs.return (by rw [hloans]; exact hs.owes) ⟨?_, ?_, ?_⟩
    · rw [hloans]
      exact hs.owes.outstanding
    · rintro rfl
      cases hop
    · rintro n rfl
      cases hop
  | quiet hop hexec =>
    obtain ⟨hw, htallies⟩ := hs.owes.exec_quiet hop hexec
    exact hs.return hw htallies

theorem Balanced.unfolds (hs : s.Balanced) (h : Unfolds s s') : s'.Balanced := by
  induction h with
  | refl => exact hs
  | tail _ hstep ih => exact ih.step hstep

theorem balanced_empty (handler : Severity → String → ε → ε) (host : ε) :
    Balanced ⟨.create handler host, []⟩ :=
  ⟨⟨fun n => by simp [loans, World.create], List.nodup_nil, rfl⟩, by simp⟩

end Recorded

open Trace

/-- Whatever host code does, from whatever callbacks and functions: the counter is the number of the
buffers that are out, at the end and whenever an operation has returned. Taking a buffer back lowers
it by one if the buffer is out and does nothing otherwise. -/
theorem World.outstanding_of_perform {handler : Severity → String → ε → ε} {host : ε}
    {main : Reaction ε} {fuel : Nat} {x : HostResult} {w : World ε}
    (h : main.perform (exec fuel) (create handler host) = some (x, w)) :
    ∃ t, Recorded.perform (Recorded.exec fuel) main ⟨create handler host, []⟩ = some (x, ⟨w, t⟩) ∧
      w.outstanding = (loans t).length ∧ (loans t).Nodup ∧
      (∀ n, n ∈ loans t ↔ ∃ b, w.buffers[n]? = some b ∧ b.isReleased = false) ∧
      ∀ p op since before r after q, t = p ++ .returned op since before r after :: q →
        op.Tallies (loans p) before r after := by
  have herase := Recorded.erase_perform (Recorded.erase_exec fuel) main ⟨create handler host, []⟩
  rw [h] at herase
  obtain ⟨⟨_, w, t⟩, hperform, ⟨⟩⟩ := Option.map_eq_some_iff.mp herase
  have hunfolds := Recorded.unfolds_perform Recorded.unfolds_exec main _ hperform
  have hbalanced := (Recorded.balanced_empty handler host).unfolds hunfolds
  exact ⟨t, hperform, hbalanced.owes.outstanding, hbalanced.owes.nodup, hbalanced.owes.mem_iff,
    hbalanced.returns⟩

def Reply.count? : Reply → Option Nat
  | count n => some n
  | _ => none

def borrowing (bytes : Bytes) : Reaction (List (Option Nat)) :=
  .call (.create bytes fun _ _ => .done .nil) fun
    | .created (.ok h) =>
      .call (.getValue h "mood") fun _ => .call (.getValue h "met") fun _ =>
        .call (.release 0) fun _ => .call (.release 0) fun _ => .call .outstanding fun one =>
          .call (.destroy h) fun _ => .call (.getValue h "met") fun _ => .call (.release 1) fun _ =>
            .call .outstanding fun none => .update (fun _ => [one.count?, none.count?]) (.done .nil)
    | _ => .panic none

def givesBack (n : Nat) : List (Occurrence (List (Option Nat))) → Bool
  | .returned (.release k) _ _ .unit _ :: _ => k == n
  | _ => false

theorem exists_of_givesBack {n : Nat} {os : List (Occurrence (List (Option Nat)))}
    (h : givesBack n os = true) :
    ∃ since before after q, os = .returned (.release n) since before .unit after :: q := by
  unfold givesBack at h
  split at h
  · obtain rfl := beq_iff_eq.mp h
    exact ⟨_, _, _, _, rfl⟩
  · cases h

theorem World.outstanding_borrowing : ∃ bytes x w, ∃ t p q : List (Occurrence (List (Option Nat))),
    ∃ since before after, (Builder.run .offset Builder.greeting).build = .ok bytes ∧
      (borrowing bytes).perform (exec 4) (create (fun _ _ host => host) []) = some (x, w) ∧
        w.host = [some 1, some 0] ∧ w.outstanding = (loans t).length ∧
          t = p ++ .returned (.release 0) since before .unit after :: q ∧ loans p = [1] ∧
            before.outstanding = after.outstanding ∧ after.outstanding = 1 := by
  have h : ((Builder.run .offset Builder.greeting).build.map fun bytes =>
      (Recorded.perform (Recorded.exec 4) (borrowing bytes)
        ⟨create (fun _ _ host => host) [], []⟩).map fun y =>
          (decide (y.2.world.host = [some 1, some 0]), decide (loans (y.2.trace.take 5) = [1]),
            givesBack 0 (y.2.trace.drop 5))) =
      .ok (some (true, true, true)) := by
    decide +kernel
  obtain ⟨bytes, hbuild, h⟩ := Except.map_eq_ok_iff.mp h
  obtain ⟨⟨x, w, t⟩, hrecorded, h⟩ := Option.map_eq_some_iff.mp h.symm
  simp only [Prod.mk.injEq, decide_eq_true_eq] at h
  obtain ⟨hhost, hloans, hagain⟩ := h
  have herase := Recorded.erase_perform (Recorded.erase_exec 4) (borrowing bytes)
    ⟨create (fun _ _ host => host) [], []⟩
  rw [hrecorded] at herase
  obtain ⟨t', hrecorded', hcount, -, -, hreturns⟩ := outstanding_of_perform herase.symm
  rw [hrecorded] at hrecorded'
  cases hrecorded'
  obtain ⟨since, before, after, q, hdrop⟩ := exists_of_givesBack hagain
  have hsplit := (List.take_append_drop 5 t).symm
  rw [hdrop] at hsplit
  have htallies := hreturns _ _ _ _ _ _ _ hsplit
  have hrelease := htallies.release 0 rfl
  have hcounter := htallies.counter
  rw [hloans] at hrelease hcounter
  exact ⟨bytes, x, w, t, _, q, since, before, after, hbuild, herase.symm, hhost, hcount, hsplit,
    hloans, hrelease, hcounter⟩

end Dialogue
