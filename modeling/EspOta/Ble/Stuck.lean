/-
The callback after `ota_task` has failed. Nothing takes the bytes out of the
ring buffer then, so the callback waits in `xRingbufferSend` for ever once
more than the buffer's size was delivered and not written. That is the only
way it can be stuck: `never_stuck_iff`.
-/
import EspOta.Ble.DeviceRuns

namespace EspOta.Ble

open Lib

/-- The callback waits for room that nobody will make. -/
def Device.Stuck (d : Device) : Prop := d.phase = .failed ∧ ∃ buf ∈ d.blocked, d.ring.send? buf = none

/-- The call makes `ota_task` end through `OTA_ERROR`. -/
def Action.Fails : Action → Prop
  | .task (.begin a) => selectPartition a = none ∨ a.beginErr ≠ espOk
  | .task (.write err) | .task (.otaEnd err) | .task (.setBoot err) => err ≠ espOk
  | _ => False

/-- From the failure on, what was delivered and not written fits in the ring buffer. -/
def Device.Fits (d : Device) (a : Action) : Prop :=
  d.Happens a → d.phase = .failed ∨ a.Fails → (d.pending ++ a.brings).length ≤ otaRingbufSize

theorem send?_eq_none {r : Ringbuf} {buf : List UInt8} :
    r.send? buf = none ↔ otaRingbufSize < (r.item ++ r.queued ++ buf).length := by
  unfold Ringbuf.send?
  split
  · rename_i h
    simp only [List.length_append] at h ⊢
    exact iff_of_false (Option.some_ne_none _) (by omega)
  · rename_i h
    simp only [List.length_append] at h ⊢
    exact iff_of_true trivial (by omega)

/-- A failed task's callback is stuck just when the bytes on their way exceed the buffer. -/
theorem stuck_iff {d : Device} : d.Stuck ↔ d.phase = .failed ∧ otaRingbufSize < d.pending.length := by
  refine and_congr_right fun hp => ?_
  have hpend : d.pending = d.ring.item ++ d.ring.queued ++ d.blocked.getD [] := by
    simp only [Device.pending, Device.inHand, hp]
  have hfits := d.ring.fits
  cases hb : d.blocked with
  | none => simp only [hpend, hb]; simp; omega
  | some buf => simp [hpend, hb, send?_eq_none]

/-- The task has failed after a step just when it had before, or the step is its failure. -/
theorem failed_iff {d d' : Device} {a : Action} (h : Steps d a d') :
    d'.phase = .failed ↔ d.phase = .failed ∨ a.Fails := by
  cases h <;> simp_all [Action.Fails]

/-- The failure writes nothing. -/
theorem written_of_failed {d d' : Device} {a : Action} (h : Steps d a d') (hp : d'.phase = .failed) :
    d'.written = d.written := by
  cases h with
  | wrote => cases hp
  | writeFailed err hw he => simp [Device.written, Call.written, he]
  | _ => simp [Device.written, Call.written]

/-- **No way out.** -/
theorem Device.Stuck.step {d : Device} (h : d.Stuck) (a : Action) : (d.step a).Stuck := by
  by_cases ha : d.Happens a
  · have hp := h.1
    obtain ⟨buf, hb, hr⟩ := h.2
    have hsome : d.blocked = some buf := hb
    have hs := ha.steps
    generalize d.step a = d' at hs
    cases hs with
    | announced length => exact h
    | refused => exact h
    | sent _ _ _ hnone | blocks _ _ hnone => rw [hsome] at hnone; cases hnone
    | unblocked buf' r hb' hsend =>
      rw [hsome] at hb'
      cases hb'
      rw [hr] at hsend; cases hsend
    | _ => simp_all
  · rw [Device.step_of_not_happens ha]; exact h

theorem Device.Stuck.run {d : Device} (h : d.Stuck) (es : List Action) : (run Device.step d es).Stuck :=
  run_invariant Device.Stuck (fun _ a h => h.step a) h es

/-- **One step.** -/
theorem stuck_step_iff {bytes : List UInt8} {d : Device} {a : Action} (hf : Flow bytes d) (hd : ¬ d.Stuck) :
    ¬ (d.step a).Stuck ↔ d.Fits a := by
  by_cases ha : d.Happens a
  · have hs := ha.steps
    have hpending : (d.step a).phase = .failed → (d.step a).pending = d.pending ++ a.brings := fun hp => by
      have hbytes := (hf.step hs).bytes
      rw [← hf.bytes, written_of_failed hs hp, List.append_assoc] at hbytes
      exact List.append_cancel_left hbytes
    rw [stuck_iff, failed_iff hs, Device.Fits]
    constructor
    · intro h _ hfail
      rw [← hpending ((failed_iff hs).mpr hfail)]
      exact Nat.not_lt.mp fun hlt => h ⟨hfail, hlt⟩
    · intro h hstuck
      obtain ⟨hfail, hlt⟩ := hstuck
      rw [hpending ((failed_iff hs).mpr hfail)] at hlt
      exact absurd (h ha hfail) (Nat.not_le.mpr hlt)
  · rw [Device.step_of_not_happens ha]
    exact iff_of_true hd fun h => absurd h ha

/-- **No stuck callback.** In a run from boot the callback is never stuck just when, at the failing call of
`ota_task` and at every chunk after it, the bytes delivered and not written fit in the ring buffer. -/
theorem never_stuck_iff (es : List Action) :
    (∀ fs, fs <+: es → ¬ (run Device.step .boot fs).Stuck) ↔ Meets Device.step Device.Fits .boot es := by
  have hboot : ¬ Device.boot.Stuck := fun h => by cases h.1
  rw [forall_prefix_iff (Q := fun d : Device => ¬ d.Stuck), and_iff_right hboot]
  refine meets_congr (fun d => ¬ d.Stuck ∧ ∃ bytes, Flow bytes d) ?_ ?_ ⟨hboot, [], .boot⟩ es
  · intro d a hI hns
    obtain ⟨-, bytes, hf⟩ := hI
    refine ⟨hns, ?_⟩
    by_cases ha : d.Happens a
    · exact ⟨_, hf.step ha.steps⟩
    · rw [Device.step_of_not_happens ha]; exact ⟨bytes, hf⟩
  · intro d a hI
    obtain ⟨hd, bytes, hf⟩ := hI
    exact stuck_step_iff hf hd

/-! ## A run -/

/-- No boot partition: `ota_task` fails at once. -/
def noBoot : Lookup := ⟨none, fun _ => none, fun _ _ => none, espOk, 0⟩

/-- A sector, the longest chunk the sender's format allows. -/
def sector : List UInt8 := List.replicate 4096 0

/-- The third sector after the failure has no room, and waits for ever. -/
theorem stuck_after_three :
    ¬ ∀ es : List Action, (∀ buf, .otaRecvFwCb buf ∈ es → buf.length ≤ 4096) →
      ¬ (run Device.step .boot es).Stuck := by
  intro h
  refine h [.task (.begin noBoot), .otaRecvFwCb sector, .otaRecvFwCb sector, .otaRecvFwCb sector] ?_ ?_
  · intro buf hbuf
    have hbuf : buf = sector := by simpa using hbuf
    rw [hbuf]
    exact Nat.le_of_eq List.length_replicate
  · rw [stuck_iff]
    decide +kernel

end EspOta.Ble
