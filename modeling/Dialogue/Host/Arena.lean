namespace Dialogue

structure Handle where
  index : UInt32
  generation : UInt32
deriving DecidableEq, Inhabited

namespace Handle

def toBits (h : Handle) : UInt64 := (h.generation.toUInt64 <<< 32) ||| h.index.toUInt64

def ofBits (bits : UInt64) : Handle := ⟨bits.toUInt32, (bits >>> 32).toUInt32⟩

def text (h : Handle) : String :=
  "vm#" ++ toString h.index.toNat ++ "v" ++ toString h.generation.toNat

end Handle

structure ArenaSlot (α : Type) where
  generation : UInt32
  occupant : Option α

structure Arena (α : Type) where
  slots : List (ArenaSlot α)
  /-- Indices of empty slots; the first is used next. -/
  free : List Nat
  live : Nat

namespace Arena

variable {α : Type}

def empty : Arena α := ⟨[], [], 0⟩

def slot? (a : Arena α) (h : Handle) : Option (ArenaSlot α) :=
  a.slots[h.index.toNat]?.filter fun s => s.generation == h.generation

def get? (a : Arena α) (h : Handle) : Option α := (a.slot? h).bind (·.occupant)

def insert (a : Arena α) (x : α) : Handle × Arena α :=
  match a.free with
  | i :: free =>
    let generation := (a.slots[i]?.map (·.generation)).getD 0
    (⟨i.toUInt32, generation⟩, ⟨a.slots.set i ⟨generation, some x⟩, free, a.live + 1⟩)
  | [] =>
    (⟨a.slots.length.toUInt32, 0⟩, ⟨a.slots ++ [⟨0, some x⟩], [], a.live + 1⟩)

def remove? (a : Arena α) (h : Handle) : Option (Arena α) :=
  (a.get? h).map fun _ =>
    ⟨a.slots.set h.index.toNat ⟨h.generation + 1, none⟩, h.index.toNat :: a.free, a.live - 1⟩

end Arena

end Dialogue
