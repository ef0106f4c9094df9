/-
The flash behind the OTA interface, as its documentation has it: the app
partitions are slots, the boot partition is the selected one, and a handle
stands for the partition it was opened for until `esp_ota_end`. A call that
fails may have spoiled the partition it is about. The handles are gone after
a reset.

No verification the interface does of its own is counted on: which calls are
made, in which order and about which partition, is the applications' part.
-/
import EspOta.Esp
import EspOta.Lib.Slots

namespace EspOta

open Lib

structure Flash where
  slots : Slots Partition UInt8
  handles : OtaHandle → Option Partition

namespace Flash

/-- What a call does to the partitions. A handle that is not open stands for none. -/
def op? (f : Flash) : Call → Option (SlotOp Partition UInt8)
  | .otaBegin p _ _ => some (.erase p)
  | .otaWrite handle data err => (f.handles handle).map fun p => .append p (if err = espOk then data else [])
  | .otaEnd handle err => if err = espOk then (f.handles handle).map .finish else none
  | .setBootPartition p err => if err = espOk then p.map .select else none

def opened (f : Flash) : Call → OtaHandle → Option Partition
  | .otaBegin p err handle => if err = espOk then Function.update f.handles handle (some p) else f.handles
  | .otaWrite .. => f.handles
  | .otaEnd handle _ => Function.update f.handles handle none
  | .setBootPartition .. => f.handles

def call (f : Flash) (c : Call) : Flash := ⟨(f.op? c).elim f.slots f.slots.apply, f.opened c⟩

def reset (f : Flash) : Flash := { f with handles := fun _ => none }

/-- What the device boots. -/
def image (f : Flash) : Slot UInt8 := f.slots.current

@[simp] theorem reset_image (f : Flash) : f.reset.image = f.image := rfl

theorem call_setBoot_failed (f : Flash) (p : Option Partition) {err : EspErr} (h : err ≠ espOk) :
    f.call (.setBootPartition p err) = f := by
  simp [call, op?, opened, h]

/-- What the call is about is not the boot partition; the one it makes the boot partition is whole. -/
def Careful (f : Flash) (c : Call) : Prop := ∀ op ∈ f.op? c, f.slots.Careful op

theorem op?_select {f : Flash} {c : Call} {p : Partition} (h : f.op? c = some (.select p)) :
    c = .setBootPartition (some p) espOk := by
  cases c with
  | otaBegin => cases h
  | otaWrite handle =>
    obtain ⟨q, -, hq⟩ := Option.map_eq_some_iff.mp h
    cases hq
  | otaEnd handle err =>
    simp only [op?] at h
    split at h
    · obtain ⟨q, -, hq⟩ := Option.map_eq_some_iff.mp h
      cases hq
    · cases h
  | setBootPartition q err =>
    simp only [op?] at h
    split at h
    · rename_i he
      obtain ⟨q, rfl, hq⟩ := Option.map_eq_some_iff.mp h
      cases hq
      rw [he]
    · cases h

/-- **A careful call that does not make a partition the boot partition leaves what the device boots.** -/
theorem Careful.kept {f : Flash} {c : Call} (h : f.Careful c) (hc : ∀ p, c ≠ .setBootPartition (some p) espOk) :
    (f.call c).image = f.image ∧ (f.call c).slots.selected = f.slots.selected := by
  cases hop : f.op? c with
  | none => simp [Flash.image, call, hop]
  | some op =>
    have hkept := (h op hop).kept fun p hp => hc p (op?_select (hp ▸ hop))
    simpa [Flash.image, call, hop] using hkept

/-- **After a careful call the device boots a whole image.** -/
theorem Careful.whole {f : Flash} {c : Call} (h : f.Careful c) (hf : f.image.whole = true) :
    (f.call c).image.whole = true := by
  cases hop : f.op? c with
  | none => simpa [Flash.image, call, hop] using hf
  | some op => simpa [Flash.image, call, hop] using (h op hop).whole hf

/-! ## One partition that is not the boot partition -/

/-- `p` is not the boot partition, and holds `x`. -/
structure Holds (f : Flash) (p : Partition) (x : Slot UInt8) : Prop where
  idle : p ≠ f.slots.selected
  slot : f.slots.slot p = x

theorem Holds.begun {f : Flash} {p : Partition} {x : Slot UInt8} (h : f.Holds p x) (err : EspErr)
    (handle : OtaHandle) : (f.call (.otaBegin p err handle)).Holds p ⟨[], false⟩ :=
  ⟨h.idle, f.slots.set_slot_self p _⟩

theorem Holds.written {f : Flash} {p : Partition} {x : Slot UInt8} (h : f.Holds p x) {handle : OtaHandle}
    (hp : f.handles handle = some p) (data : List UInt8) :
    (f.call (.otaWrite handle data espOk)).Holds p ⟨x.data ++ data, false⟩ := by
  refine ⟨?_, ?_⟩
  · simpa [call, op?, hp, Slots.apply] using h.idle
  · simp [call, op?, hp, Slots.apply, h.slot]

theorem Holds.ended {f : Flash} {p : Partition} {x : Slot UInt8} (h : f.Holds p x) {handle : OtaHandle}
    (hp : f.handles handle = some p) : (f.call (.otaEnd handle espOk)).Holds p { x with whole := true } := by
  refine ⟨?_, ?_⟩
  · simpa [call, op?, hp, Slots.apply] using h.idle
  · simp [call, op?, hp, Slots.apply, h.slot]

theorem Holds.booted {f : Flash} {p : Partition} {x : Slot UInt8} (h : f.Holds p x) :
    (f.call (.setBootPartition (some p) espOk)).image = x := h.slot

theorem handles_begun (f : Flash) (p : Partition) (handle : OtaHandle) :
    (f.call (.otaBegin p espOk handle)).handles handle = some p := by
  simp [call, opened]

/-- A call about one idle partition is careful. -/
theorem Holds.careful {f : Flash} {p : Partition} {x : Slot UInt8} (h : f.Holds p x) {handle : OtaHandle}
    (hp : f.handles handle = some p) (data : List UInt8) (err : EspErr) :
    f.Careful (.otaWrite handle data err) ∧ f.Careful (.otaEnd handle err) := by
  refine ⟨fun op hop => ?_, fun op hop => ?_⟩
  · simp only [op?, hp, Option.map_some, Option.mem_def, Option.some.injEq] at hop
    subst hop
    exact h.idle
  · by_cases he : err = espOk
    · simp only [op?, he, hp, if_true, Option.map_some, Option.mem_def, Option.some.injEq] at hop
      subst hop
      exact h.idle
    · simp [op?, he] at hop

end Flash

end EspOta
