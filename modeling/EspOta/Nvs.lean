/-
The non-volatile storage at a boot of the Wi-Fi updater or of the BLE device:
it is erased when it cannot be used as it is, and tried once more. Anything
else it answers ends the boot (`NvsInit.ready_iff`).
-/
import EspOta.Esp
import EspOta.Lib.Run

namespace EspOta

open Lib

def espErrNvsNoFreePages : EspErr := 0x110d
def espErrNvsNewVersionFound : EspErr := 0x1110

/-- The statements `app_main` begins with: `nvs_flash_init`, `nvs_flash_erase`, `nvs_flash_init` again, or the
end of them. -/
inductive NvsInit
  | first
  | erasing
  | again
  | ready
  | aborted
  deriving DecidableEq, Repr

namespace NvsInit

/-- The storage can be had by erasing it. -/
def Erases (err : EspErr) : Prop := err = espErrNvsNoFreePages ∨ err = espErrNvsNewVersionFound

instance (err : EspErr) : Decidable (Erases err) := inferInstanceAs (Decidable (_ ∨ _))

/-- The next statement, which is answered `err`. -/
def next : NvsInit → EspErr → NvsInit
  | .first, err => if Erases err then .erasing else if err = espOk then .ready else .aborted
  | .erasing, err => if err = espOk then .again else .aborted
  | .again, err => if err = espOk then .ready else .aborted
  | .ready, _ => .ready
  | .aborted, _ => .aborted

theorem run_aborted (errs : List EspErr) : run next .aborted errs = .aborted := by
  induction errs with
  | nil => rfl
  | cons err errs ih => exact ih

theorem run_ready (errs : List EspErr) : run next .ready errs = .ready := by
  induction errs with
  | nil => rfl
  | cons err errs ih => exact ih

theorem again_iff (errs : List EspErr) : run next .again errs = .ready ↔ [espOk] <+: errs := by
  cases errs with
  | nil => simp
  | cons err errs =>
    by_cases h : err = espOk
    · simp [next, h, run_ready]
    · simp [next, h, run_aborted, Ne.symm h]

theorem erasing_iff (errs : List EspErr) : run next .erasing errs = .ready ↔ [espOk, espOk] <+: errs := by
  cases errs with
  | nil => simp
  | cons err errs =>
    by_cases h : err = espOk
    · simp [next, h, again_iff]
    · simp [next, h, run_aborted, Ne.symm h]

/-- **The storage is ready just when it can be used as it is, or can be erased and used then.** -/
theorem ready_iff (errs : List EspErr) :
    run next .first errs = .ready ↔ [espOk] <+: errs ∨ ∃ err, Erases err ∧ [err, espOk, espOk] <+: errs := by
  cases errs with
  | nil => simp
  | cons err errs =>
    by_cases he : Erases err
    · have hne : espOk ≠ err := by rintro rfl; revert he; decide
      simp [next, he, erasing_iff, hne]
    · by_cases h : err = espOk
      · simp [next, h, run_ready, show ¬ Erases espOk by decide]
      · simp [next, he, h, run_aborted, Ne.symm h]

end NvsInit

end EspOta
