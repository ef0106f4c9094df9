/-
The Zigbee server's counter over all runs, and the slices it answers with.

Beside the server the state keeps what the counter stands for: the bytes
asked for since the last accepted query, END or ABORTED, or end of the image,
whoever asked. The two agree until the 32-bit sum wraps (`Counts.step`), and
a slice is inside the image just when the bytes asked for are
(`slices_inside_iff`): the handler hands the last one out before it looks for
the end.
-/
import EspOta.Zigbee.ServerRuns

namespace EspOta.Zigbee.Slices

open Lib
open ServerRuns (Event rom4 queryFrom)

variable {α : Type}

/-- The server, and the bytes asked for since the front of the image. Nothing reads `asked`. -/
structure World where
  server : Server
  asked : Nat
  deriving DecidableEq, Repr

def World.boot : World := ⟨.boot, 0⟩

/-- What the handlers make of the server. -/
def handle (rom : Rom) (s : Server) : Event α → Server
  | .queryImage m => (zbOtaUpgradeServerQueryImageHandler s m).2
  | .nextData _ index size => (zbOtaNextDataHandler rom s index size 0).2.2
  | .serverStatus m => (zbOtaUpgradeServerStatusHandler s m).2
  | .signal _ => s

def count (rom : Rom) (asked : Nat) : Event α → Nat
  | .queryImage m => if m.Accepted then 0 else asked
  | .nextData _ index size =>
    if index ≠ otaUpgradeIndex then asked
    else if rom.size ≤ asked + size.toNat then 0
    else asked + size.toNat
  | .serverStatus m => if m.Ends then 0 else asked
  | .signal _ => asked

def step (rom : Rom) (w : World) (e : Event α) : World := ⟨handle rom w.server e, count rom w.asked e⟩

/-- The counter is the bytes asked for. -/
def Counts (w : World) : Prop := w.server.sOtaImageOffset.toNat = w.asked

/-- The sum the handler makes does not wrap. -/
def NoWrap (w : World) : Event α → Prop
  | .nextData _ index size => index = otaUpgradeIndex → w.asked + size.toNat < 2 ^ 32
  | _ => True

theorem Counts.boot : Counts .boot := rfl

/-- **One event.** -/
theorem Counts.step {rom : Rom} {w : World} {e : Event α} (h : Counts w) (hwrap : NoWrap w e) :
    Counts (step rom w e) := by
  cases e with
  | queryImage m =>
    by_cases ha : m.Accepted
    · simp [Counts, Slices.step, handle, count, query_accepted _ ha, ha]
    · obtain ⟨_, -, heq⟩ := query_rejected w.server ha
      simpa [Counts, Slices.step, handle, count, heq, ha] using h
  | serverStatus m =>
    by_cases ha : m.Ends
    · simp [Counts, Slices.step, handle, count, status_ends _ ha, ha]
    · simpa [Counts, Slices.step, handle, count, status_not_ends _ ha, ha] using h
  | signal sig => exact h
  | nextData c index size =>
    by_cases hi : index = otaUpgradeIndex
    · subst hi
      have hsum : (w.server.sOtaImageOffset + size.toUInt32).toNat = w.asked + size.toNat := by
        rw [UInt32.toNat_add, h, UInt8.toNat_toUInt32]
        exact Nat.mod_eq_of_lt (hwrap rfl)
      have hle : UInt32.ofNat rom.size ≤ w.server.sOtaImageOffset + size.toUInt32 ↔
          rom.size ≤ w.asked + size.toNat := by
        have hlt : rom.size < 2 ^ 32 := rom.size_lt
        rw [UInt32.le_iff_toNat_le, hsum, UInt32.toNat_ofNat_of_lt' hlt]
      by_cases hend : rom.size ≤ w.asked + size.toNat
      · simp [Counts, Slices.step, handle, count, zbOtaNextDataHandler_index, hle, hend]
      · simp [Counts, Slices.step, handle, count, zbOtaNextDataHandler_index, hle, hend, hsum]
    · simpa [Counts, Slices.step, handle, count, hi] using h

/-! ## Slices -/

/-- The slice handed out lies inside the image, and the counter does not wrap. -/
def Inside (rom : Rom) (w : World) : Event α → Prop
  | .nextData _ index size =>
    let (ret, p, _) := zbOtaNextDataHandler rom w.server index size 0
    ret = espOk → rom.otaFileStart ≤ p ∧ p + size.toNat ≤ rom.otaFileEnd ∧
      w.server.sOtaImageOffset.toNat + size.toNat < 2 ^ 32
  | _ => True

/-- No more than the image is asked for from its front. -/
def WithinImage (rom : Rom) (w : World) : Event α → Prop
  | .nextData _ index size => index = otaUpgradeIndex → w.asked + size.toNat ≤ rom.size
  | _ => True

theorem WithinImage.noWrap {rom : Rom} {w : World} {e : Event α} (h : WithinImage rom w e) : NoWrap w e := by
  cases e with
  | nextData c index size =>
    intro hi
    have hlt : rom.size < 2 ^ 32 := rom.size_lt
    exact Nat.lt_of_le_of_lt (h hi) hlt
  | _ => trivial

/-- **One slice.** -/
theorem inside_iff {rom : Rom} {w : World} (h : Counts w) (e : Event α) : Inside rom w e ↔ WithinImage rom w e := by
  cases e with
  | nextData c index size =>
    by_cases hi : index = otaUpgradeIndex
    · subst hi
      have hlt : rom.size < 2 ^ 32 := rom.size_lt
      have hle := rom.start_le
      have hsize : rom.size = rom.otaFileEnd - rom.otaFileStart := rfl
      have hcount : w.server.sOtaImageOffset.toNat = w.asked := h
      simp only [Inside, WithinImage, zbOtaNextDataHandler_index, hcount, true_imp_iff]
      omega
    · have hno : ¬ espFail = espOk := by decide
      simp [Inside, WithinImage, hi, hno]
  | _ => exact Iff.rfl

/-- **Slices inside the image.** In a run from boot every slice handed out is inside the image, and the counter
never wraps, just when no more than the image is ever asked for since the last accepted query, END or ABORTED,
or end of the image. -/
theorem slices_inside_iff (rom : Rom) (es : List (Event α)) :
    Meets (step rom) (Inside rom) .boot es ↔ Meets (step rom) (WithinImage rom) .boot es := by
  refine meets_congr Counts (fun w e h hin => ?_) (fun w e h => inside_iff h e) Counts.boot es
  exact h.step ((inside_iff h e).mp hin).noWrap

/-- Two requests for three bytes of a four-byte image: the second reaches two bytes beyond it. -/
theorem not_inside :
    ¬ ∀ (rom : Rom) (es : List (Event UInt16)), 0 < rom.size → Meets (step rom) (Inside rom) .boot es := by
  intro h
  have hmeets := h rom4 [queryFrom 1, .nextData 1 otaUpgradeIndex 3, .nextData 1 otaUpgradeIndex 3] (by decide)
  have hin : Inside rom4 ⟨⟨3⟩, 3⟩ (.nextData (1 : UInt16) otaUpgradeIndex 3) := hmeets.2.2.1
  have hcounts : Counts ⟨⟨3⟩, 3⟩ := rfl
  have hwithin : 3 + 3 ≤ rom4.size := (inside_iff hcounts _).mp hin rfl
  exact absurd hwithin (by decide)

end EspOta.Zigbee.Slices
