/-
A store of slots, one of them selected: the one a system starts from. An
update erases another slot, appends to it, finishes it, and selects it.

Operations that are careful (`Careful`) leave the selected slot alone until
they select a whole one. So wherever they are cut off, the system starts from
a whole slot (`Careful.whole`), and until a slot is selected from the same one
(`Careful.kept`).
-/
import EspOta.Lib.Run
import Mathlib.Logic.Function.Basic

namespace EspOta.Lib

/-- What a slot holds, and whether it was finished and is as it was then. -/
structure Slot (β : Type*) where
  data : List β
  whole : Bool

structure Slots (ι β : Type*) where
  slot : ι → Slot β
  selected : ι

inductive SlotOp (ι β : Type*)
  | erase (i : ι)
  | append (i : ι) (data : List β)
  | finish (i : ι)
  | select (i : ι)

namespace Slots

variable {ι β : Type*} [DecidableEq ι]

def set (s : Slots ι β) (i : ι) (x : Slot β) : Slots ι β := { s with slot := Function.update s.slot i x }

def apply (s : Slots ι β) : SlotOp ι β → Slots ι β
  | .erase i => s.set i ⟨[], false⟩
  | .append i data => s.set i ⟨(s.slot i).data ++ data, false⟩
  | .finish i => s.set i { s.slot i with whole := true }
  | .select i => { s with selected := i }

/-- What the system starts from. -/
def current (s : Slots ι β) : Slot β := s.slot s.selected

@[simp] theorem set_selected (s : Slots ι β) (i : ι) (x : Slot β) : (s.set i x).selected = s.selected := rfl

@[simp] theorem set_slot_self (s : Slots ι β) (i : ι) (x : Slot β) : (s.set i x).slot i = x := by
  simp [set]

theorem set_slot_of_ne (s : Slots ι β) {i j : ι} (x : Slot β) (h : j ≠ i) : (s.set i x).slot j = s.slot j := by
  simp [set, h]

theorem current_set_of_ne (s : Slots ι β) {i : ι} (x : Slot β) (h : i ≠ s.selected) : (s.set i x).current = s.current :=
  s.set_slot_of_ne x h.symm

/-! ## Careful operations -/

/-- The operation leaves the selected slot alone, or selects a whole one. -/
def Careful (s : Slots ι β) : SlotOp ι β → Prop
  | .erase i | .append i _ | .finish i => i ≠ s.selected
  | .select i => (s.slot i).whole = true

/-- **Until a careful operation selects a slot, the system starts from what it started from.** -/
theorem Careful.kept {s : Slots ι β} {op : SlotOp ι β} (h : s.Careful op) (hop : ∀ i, op ≠ .select i) :
    (s.apply op).current = s.current ∧ (s.apply op).selected = s.selected := by
  cases op with
  | erase | append | finish => exact ⟨s.current_set_of_ne _ h, rfl⟩
  | select i => exact absurd rfl (hop i)

/-- **What the system starts from is whole**, whenever careful operations are cut off. -/
theorem Careful.whole {s : Slots ι β} {op : SlotOp ι β} (h : s.Careful op) (hs : s.current.whole = true) :
    (s.apply op).current.whole = true := by
  cases op with
  | erase | append | finish => rw [(h.kept (by simp)).1]; exact hs
  | select i => exact h

end Slots

end EspOta.Lib
