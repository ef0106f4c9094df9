/-
When a device announcement makes the Zigbee server broadcast a notify. It
does while the counter is at the front of the image, which stands for "no
transfer in progress" and also for "a transfer about to begin", and which any
other client's query, END or last block brings about. With one client at a
time, and no announcement between a query and its first block, it is what the
comment in the source says: `gated_of_orderly`.
-/
import EspOta.Zigbee.Slices
import Mathlib.Data.Fintype.Basic

namespace EspOta.Zigbee.Notify

open Lib
open ServerRuns (Event rom4 queryFrom)
open Slices (Counts NoWrap)

variable {α : Type}

/-- The server with the bytes asked for, and the clients whose transfer is in progress. -/
structure World (α : Type) where
  counter : Slices.World
  inProgress : α → Bool

def World.boot : World α := ⟨.boot, fun _ => false⟩

variable [DecidableEq α]

/-- A transfer is in progress from the client's accepted query until the last byte of the image has been
handed out to it, or its END or ABORTED arrives. -/
def progress (rom : Rom) (w : World α) : Event α → α → Bool
  | .queryImage m => if m.Accepted then Function.update w.inProgress m.zclAddr true else w.inProgress
  | .nextData c index size =>
    let (ret, p, _) := zbOtaNextDataHandler rom w.counter.server index size 0
    if ret = espOk ∧ p < rom.otaFileEnd ∧ rom.otaFileEnd ≤ p + size.toNat then
      Function.update w.inProgress c false
    else w.inProgress
  | .serverStatus m => if m.Ends then Function.update w.inProgress m.zclAddr false else w.inProgress
  | .signal _ => w.inProgress

def step (rom : Rom) (w : World α) (e : Event α) : World α := ⟨Slices.step rom w.counter e, progress rom w e⟩

/-- A device announcement makes the server notify exactly when no transfer is in progress. -/
def Gated (rom : Rom) (w : World α) : Event α → Prop
  | .signal .deviceAnnce =>
    (espZbAppSignalHandler rom w.counter.server .deviceAnnce).isSome ↔ ∀ c, w.inProgress c = false
  | _ => True

/-- A device announcement finds a transfer in progress exactly when bytes were asked for since the last accepted
query, END or ABORTED, or end of the image. -/
def Underway (w : World α) : Event α → Prop
  | .signal .deviceAnnce => (∃ c, w.inProgress c = true) ↔ 0 < w.counter.asked
  | _ => True

/-! ## The counter -/

/-- The counter is the bytes asked for, and short of the image's end. -/
structure Short (rom : Rom) (w : World α) : Prop where
  counts : Counts w.counter
  short : w.counter.asked = 0 ∨ w.counter.asked < rom.size

omit [DecidableEq α] in
theorem Short.boot (rom : Rom) : Short rom (.boot : World α) := ⟨Counts.boot, .inl rfl⟩

omit [DecidableEq α] in
/-- Below 2 ^ 32 by a block, the image leaves the counter no room to wrap. -/
theorem Short.noWrap {rom : Rom} (hsize : rom.size + 255 ≤ 2 ^ 32) {w : World α} (h : Short rom w) (e : Event α) :
    NoWrap w.counter e := by
  cases e with
  | nextData c index size =>
    intro _
    have hblock := size.toNat_lt
    have := h.short
    omega
  | _ => trivial

theorem Short.step {rom : Rom} (hsize : rom.size + 255 ≤ 2 ^ 32) {w : World α} (h : Short rom w) (e : Event α) :
    Short rom (step rom w e) := by
  refine ⟨h.counts.step (h.noWrap hsize e), ?_⟩
  have hshort := h.short
  cases e with
  | signal sig => exact hshort
  | queryImage m | serverStatus m =>
    simp only [Notify.step, Slices.step, Slices.count]
    split
    · exact .inl rfl
    · exact hshort
  | nextData c index size =>
    simp only [Notify.step, Slices.step, Slices.count]
    split
    · exact hshort
    · split
      · exact .inl rfl
      · exact .inr (by omega)

omit [DecidableEq α] in
/-- **One announcement.** -/
theorem gated_iff {rom : Rom} {w : World α} (h : Short rom w) (e : Event α) : Gated rom w e ↔ Underway w e := by
  have hcounts : w.counter.server.sOtaImageOffset.toNat = w.counter.asked := h.counts
  match e with
  | .signal .deviceAnnce =>
    have hzero : w.counter.server.sOtaImageOffset = 0 ↔ ¬ 0 < w.counter.asked := by
      rw [← hcounts, Nat.not_lt, Nat.le_zero, ← UInt32.toNat_inj]
      rfl
    have hnotify : (espZbAppSignalHandler rom w.counter.server .deviceAnnce).isSome ↔ ¬ 0 < w.counter.asked := by
      rw [← hzero]
      by_cases hz : w.counter.server.sOtaImageOffset = 0 <;> simp [espZbAppSignalHandler, hz]
    have hnone : (∀ c, w.inProgress c = false) ↔ ¬ ∃ c, w.inProgress c = true := by simp
    rw [Gated, Underway, hnotify, hnone, not_iff_not]
    exact Iff.comm
  | .signal (.other _) | .queryImage _ | .nextData .. | .serverStatus _ => exact Iff.rfl

/-! ## One client at a time -/

/-- A query, a block or an end comes from a client while no other's transfer is in progress, a block while its own
is, and no announcement comes before the transfer's first block. -/
def Orderly (w : World α) : Event α → Prop
  | .queryImage m => m.Accepted → ∀ c, w.inProgress c = true → c = m.zclAddr
  | .nextData c index size => index = otaUpgradeIndex → size ≠ 0 → ∀ d, w.inProgress d = true ↔ d = c
  | .serverStatus m => m.Ends → ∀ c, w.inProgress c = true → c = m.zclAddr
  | .signal .deviceAnnce => (∃ c, w.inProgress c = true) → 0 < w.counter.asked
  | .signal (.other _) => True

instance Orderly.decidable [Fintype α] (w : World α) : ∀ e, Decidable (Orderly w e)
  | .queryImage m => inferInstanceAs (Decidable (m.Accepted → ∀ c, w.inProgress c = true → c = m.zclAddr))
  | .nextData c index size =>
    inferInstanceAs (Decidable (index = otaUpgradeIndex → size ≠ 0 → ∀ d, w.inProgress d = true ↔ d = c))
  | .serverStatus m => inferInstanceAs (Decidable (m.Ends → ∀ c, w.inProgress c = true → c = m.zclAddr))
  | .signal .deviceAnnce => inferInstanceAs (Decidable ((∃ c, w.inProgress c = true) → 0 < w.counter.asked))
  | .signal (.other _) => .isTrue trivial

/-- Bytes were asked for only by a transfer in progress, and no other is. -/
structure One (rom : Rom) (w : World α) : Prop where
  short : Short rom w
  begun : 0 < w.counter.asked → ∃ c, ∀ d, w.inProgress d = true ↔ d = c

/-- The block with the last byte of the image is the one after which none was asked for. -/
theorem progress_nextData {rom : Rom} {w : World α} (h : Counts w.counter) (c : α) (size : UInt8) :
    progress rom w (.nextData c otaUpgradeIndex size) =
      if w.counter.asked < rom.size ∧ rom.size ≤ w.counter.asked + size.toNat then
        Function.update w.inProgress c false
      else w.inProgress := by
  have hcounts : w.counter.server.sOtaImageOffset.toNat = w.counter.asked := h
  have hsize : rom.size = rom.otaFileEnd - rom.otaFileStart := rfl
  have hle := rom.start_le
  simp only [progress, zbOtaNextDataHandler_index, hcounts, true_and]
  refine if_congr ?_ rfl rfl
  omega

theorem One.step {rom : Rom} (hsize : rom.size + 255 ≤ 2 ^ 32) {w : World α} {e : Event α} (h : One rom w)
    (he : Orderly w e) : One rom (step rom w e) := by
  refine ⟨h.short.step hsize e, fun hpos => ?_⟩
  cases e with
  | signal sig => exact h.begun hpos
  | queryImage m | serverStatus m =>
    simp only [Notify.step, Slices.step, Slices.count, progress] at hpos ⊢
    split at hpos
    · exact absurd hpos (Nat.lt_irrefl 0)
    · rw [if_neg ‹_›]
      exact h.begun hpos
  | nextData c index size =>
    by_cases hi : index = otaUpgradeIndex
    · subst hi
      show ∃ c', ∀ d, progress rom w (.nextData c otaUpgradeIndex size) d = true ↔ d = c'
      simp only [Notify.step, Slices.step, Slices.count, ne_eq, not_true_eq_false, if_false] at hpos
      split at hpos
      · exact absurd hpos (Nat.lt_irrefl 0)
      · rename_i hshort
        rw [progress_nextData h.short.counts, if_neg fun hend => hshort hend.2]
        by_cases h0 : size = 0
        · exact h.begun (by simpa [h0] using hpos)
        · exact ⟨c, he rfl h0⟩
    · have hno : ¬ espFail = espOk := by decide
      simp only [Notify.step, Slices.step, Slices.count, progress, ne_eq, hi, not_false_eq_true, if_true,
        zbOtaNextDataHandler_other, hno, false_and, if_false] at hpos ⊢
      exact h.begun hpos

/-- **The notify's gate.** In a run from boot that is orderly, every device announcement makes the server notify
exactly when no client's transfer is in progress. -/
theorem gated_of_orderly {rom : Rom} (hsize : rom.size + 255 ≤ 2 ^ 32) {es : List (Event α)}
    (h : Meets (step rom) Orderly .boot es) : Meets (step rom) (Gated rom) .boot es := by
  refine h.imp (One rom) (fun _ _ hone he => hone.step hsize he) (fun w e hone he => ?_) ⟨.boot rom, nofun⟩
  refine (gated_iff hone.short e).mpr ?_
  match e with
  | .signal .deviceAnnce =>
    refine ⟨he, fun hpos => ?_⟩
    obtain ⟨c, hc⟩ := hone.begun hpos
    exact ⟨c, (hc c).mpr rfl⟩
  | .signal (.other _) | .queryImage _ | .nextData .. | .serverStatus _ => trivial

/-- Client 0 is served the image, then client 1 a block of it before it aborts; devices announce themselves before,
during and after each. -/
def announced : List (Event (Fin 2)) :=
  [.signal .deviceAnnce, .queryImage ⟨.success, 0, otaUpgradeImageType, otaUpgradeManufacturer⟩,
    .nextData 0 otaUpgradeIndex 2, .signal .deviceAnnce, .nextData 0 otaUpgradeIndex 2, .signal .deviceAnnce,
    .queryImage ⟨.success, 1, otaUpgradeImageType, otaUpgradeManufacturer⟩, .nextData 1 otaUpgradeIndex 3,
    .signal .deviceAnnce, .serverStatus ⟨.success, 1, .aborted⟩, .signal .deviceAnnce]

theorem gated_of_orderly_announced : Meets (step rom4) (Gated rom4) .boot announced :=
  gated_of_orderly (by decide) (by decide)

/-- An announcement between a query and the first block is answered by a notify. -/
theorem notify_in_progress :
    ¬ ∀ (rom : Rom) (es : List (Event UInt16)), Meets (step rom) (Gated rom) .boot es := by
  intro h
  have hgated := (h rom4 [queryFrom 1, .signal .deviceAnnce]).2.1
  have hall : ∀ c : UInt16, (step rom4 .boot (queryFrom 1)).inProgress c = false := hgated.mp (by decide)
  exact absurd (hall 1) (by decide)

end EspOta.Zigbee.Notify
