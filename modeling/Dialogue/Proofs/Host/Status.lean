import Dialogue.Host.World
import Mathlib.Tactic.ByContra

namespace Dialogue

variable {ε : Type}

structure Status where
  events : List Event
  diagnostics : List MachineError
  busy : Bool
  dispatching : Bool

def Status.idle : Status := ⟨[], [], false, false⟩

def Instance.status (inst : Instance ε) : Status :=
  ⟨inst.machine.events, inst.machine.diagnostics, inst.busy, inst.dispatching⟩

def Instance.drained (inst : Instance ε) : Instance ε :=
  { inst with machine :=
      { inst.machine with
        events := if inst.dispatching then inst.machine.events else []
        diagnostics := [] } }

namespace World

variable {w w' : World ε} {i j : Nat} {inst inst' : Instance ε}

def status (w : World ε) (i : Nat) : Status := (w.instances[i]?.map Instance.status).getD .idle

theorem status_of_getElem? (h : w.instances[i]? = some inst) : w.status i = inst.status := by
  simp [status, h]

theorem status_congr (h : w'.instances[i]? = w.instances[i]?) : w'.status i = w.status i := by
  simp only [status, h]

theorem lt_of_dispatching (h : (w.status i).dispatching = true) : i < w.instances.length := by
  by_contra hi
  have hnone : w.instances[i]? = none := List.getElem?_eq_none (by omega)
  simp [status, hnone, Status.idle] at h

theorem status_setInstance_self (h : w.instances[i]? = some inst) :
    (w.setInstance i inst').status i = inst'.status := by
  obtain ⟨hi, -⟩ := List.getElem?_eq_some_iff.mp h
  apply status_of_getElem?
  simp [setInstance, hi]

theorem status_setInstance_ne (h : j ≠ i) : (w.setInstance i inst').status j = w.status j := by
  apply status_congr
  simp [setInstance, List.getElem?_set_ne h.symm]

theorem status_modifyInstance_self {f : Instance ε → Instance ε} (h : w.instances[i]? = some inst) :
    (w.modifyInstance i f).status i = (f inst).status := by
  apply status_of_getElem?
  simp [modifyInstance, h]

theorem status_modifyInstance_ne {f : Instance ε → Instance ε} (h : j ≠ i) :
    (w.modifyInstance i f).status j = w.status j := by
  apply status_congr
  simp [modifyInstance, h.symm]

@[simp] theorem report_instances (w : World ε) (s : Severity) (message : String) :
    (w.report s message).instances = w.instances := by
  unfold report
  split <;> rfl

@[simp] theorem report_arena (w : World ε) (s : Severity) (message : String) :
    (w.report s message).arena = w.arena := by
  unfold report
  split <;> rfl

structure Still (w w' : World ε) : Prop where
  instances : w'.instances = w.instances
  arena : ∀ h i, w'.arena.get? h = some i → w.arena.get? h = some i

theorem Still.refl (w : World ε) : Still w w := ⟨rfl, fun _ _ => id⟩

theorem still_report (w : World ε) (s : Severity) (message : String) :
    Still w (w.report s message) := by
  constructor <;> simp

theorem still_answer {α : Type} (w : World ε) (r : Except LibraryError α) :
    Still w (w.answer r).2 := by
  cases r with
  | ok x => exact .refl w
  | error e => exact still_report w _ _

@[simp] theorem foldl_report {α : Type} (w : World ε) (es : List α) (severity : α → Severity)
    (message : α → String) :
    (es.foldl (fun w e => w.report (severity e) (message e)) w).instances = w.instances ∧
      (es.foldl (fun w e => w.report (severity e) (message e)) w).arena = w.arena := by
  induction es generalizing w with
  | nil => exact ⟨rfl, rfl⟩
  | cons e es ih => simpa using ih (w.report (severity e) (message e))

theorem collect_events (w : World ε) (i : Nat) (inst : Instance ε) :
    (w.collect i inst).1 = if inst.dispatching then [] else inst.machine.events := by
  unfold collect
  cases inst.dispatching <;> rfl

theorem collect_arena (w : World ε) (i : Nat) (inst : Instance ε) :
    (w.collect i inst).2.arena = w.arena := by
  simp [collect, setInstance]

theorem collect_instances (w : World ε) (i : Nat) (inst : Instance ε) :
    (w.collect i inst).2.instances = (w.setInstance i inst.drained).instances := by
  unfold collect Instance.drained
  cases inst.dispatching <;> simp [Machine.takeDiagnostics, Machine.takeEvents]

theorem status_collect_self (h : w.instances[i]? = some inst) :
    (w.collect i inst).2.status i = inst.drained.status :=
  (status_congr (by rw [collect_instances])).trans (status_setInstance_self h)

theorem status_collect_ne (h : j ≠ i) : (w.collect i inst).2.status j = w.status j :=
  (status_congr (by rw [collect_instances])).trans (status_setInstance_ne h)

theorem status_dispatch_self {b : Bool} (h : i < w.instances.length) :
    (w.dispatch i b).status i = { w.status i with dispatching := b } := by
  have hinst : w.instances[i]? = some w.instances[i] := List.getElem?_eq_getElem h
  rw [dispatch, status_modifyInstance_self hinst, status_of_getElem? hinst]
  rfl

theorem find_eq_ok {h : Handle} (hf : w.find h = .ok (i, inst)) :
    w.arena.get? h = some i ∧ w.instances[i]? = some inst := by
  unfold find at hf
  split at hf
  · rename_i r hr
    cases hf
    rw [Option.bind_eq_some_iff] at hr
    obtain ⟨j, hj, hr⟩ := hr
    rw [Option.map_eq_some_iff] at hr
    obtain ⟨a, ha, hr⟩ := hr
    cases hr
    exact ⟨hj, ha⟩
  · cases hf

end World

namespace Arena

variable {α : Type} {a a' : Arena α} {h h' : Handle} {x y : α}

theorem get?_eq_some_iff : a.get? h = some x ↔
    a.slots[h.index.toNat]? = some ⟨h.generation, some x⟩ := by
  unfold get? slot?
  constructor
  · intro hx
    rw [Option.bind_eq_some_iff] at hx
    obtain ⟨⟨generation, occupant⟩, hslot, hoccupant⟩ := hx
    rw [Option.filter_eq_some_iff] at hslot
    obtain ⟨hslot, hgeneration⟩ := hslot
    simp only [beq_iff_eq] at hgeneration hoccupant
    rw [hslot, hgeneration, hoccupant]
  · intro hx
    rw [hx]
    simp [Option.filter]

theorem get?_insert (hx : (a.insert x).2.get? h = some y) :
    (h = (a.insert x).1 ∧ y = x) ∨ a.get? h = some y := by
  rw [get?_eq_some_iff] at hx
  rw [get?_eq_some_iff]
  unfold insert at hx ⊢
  split at hx
  · rename_i i free _
    simp only [List.getElem?_set] at hx
    split at hx
    · rename_i hi
      split at hx
      · rw [Option.some.injEq, ArenaSlot.mk.injEq, Option.some.injEq] at hx
        obtain ⟨hgeneration, rfl⟩ := hx
        refine .inl ⟨?_, rfl⟩
        obtain ⟨index, generation⟩ := h
        simp only [Handle.mk.injEq]
        exact ⟨by simp [hi], hgeneration.symm⟩
      · cases hx
    · exact .inr hx
  · rw [List.getElem?_append] at hx
    split at hx
    · exact .inr hx
    · rename_i hlength
      obtain ⟨index, generation⟩ := h
      simp only at hx hlength
      have hi : index.toNat - a.slots.length = 0 := by
        by_contra hne
        rw [List.getElem?_cons, if_neg hne] at hx
        cases hx
      have hlast : a.slots.length = index.toNat := by omega
      rw [hi, List.getElem?_cons_zero, Option.some.injEq, ArenaSlot.mk.injEq, Option.some.injEq] at hx
      refine .inl ⟨?_, hx.2.symm⟩
      simp only [Handle.mk.injEq]
      exact ⟨by simp [hlast], hx.1.symm⟩

theorem get?_remove (ha : a.remove? h = some a') (hx : a'.get? h' = some x) :
    a.get? h' = some x := by
  unfold remove? at ha
  rw [Option.map_eq_some_iff] at ha
  obtain ⟨y, -, rfl⟩ := ha
  rw [get?_eq_some_iff] at hx ⊢
  simp only [List.getElem?_set] at hx
  split at hx
  · split at hx <;> simp at hx
  · exact hx

end Arena

end Dialogue
