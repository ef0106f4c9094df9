/-
Restarted transfers: a sender that issues START any number of times, each
announcing a firmware and beginning a stream of its bytes that may be cut
off anywhere, against `ota_task` in any interleaving.

Nothing in the device reacts to a START but the announced length: the task
counts and writes everything since boot as one stream. So when its loop
ends, what it wrote begins with what was delivered under earlier STARTs
(`ended_written`), and with the firmware announced last just when that is
nothing.
-/
import EspOta.Ble.OtaTask
import EspOta.Lib.Transfer

namespace EspOta.Ble.Restarts

open Lib

/-- A firmware a START can announce: its length has four bytes. -/
structure Firmware where
  bytes : List UInt8
  fits : bytes.length < 2 ^ 32

def Firmware.length (f : Firmware) : UInt32 := UInt32.ofNat f.bytes.length

/-- What was on its way when the task's loop ended. -/
structure LoopEnd where
  earlier : List UInt8
  firmware : Firmware

/-- The device and its sender: the firmware announced by the last START, how much of it was delivered,
and what was delivered under earlier STARTs. Nothing reads `loopEnd`. -/
structure World where
  device : Device
  earlier : List UInt8
  firmware : Firmware
  sent : Transfer firmware.bytes
  loopEnd : Option LoopEnd

inductive Event
  | start (firmware : Firmware)
  /-- The next `n` bytes of the stream are delivered. -/
  | recvFw (n : Nat)
  | unblock
  | task (call : TaskCall)

namespace World

/-- No START yet. -/
def boot : World := ⟨.boot, [], ⟨[], by decide⟩, .start [], none⟩

/-- What was delivered since boot. -/
def delivered (w : World) : List UInt8 := w.earlier ++ w.sent.got

def start (w : World) (f : Firmware) : Option World :=
  (w.device.step? (.announce f.length)).map fun d => ⟨d, w.delivered, f, .start f.bytes, w.loopEnd⟩

def recvFw (w : World) (n : Nat) : Option World :=
  if h : w.sent.moved + n ≤ w.firmware.bytes.length ∧ n ≤ otaRingbufSize then
    (w.device.step? (.otaRecvFwCb (w.sent.next n))).map fun d =>
      { w with device := d, sent := w.sent.advance n h.1 }
  else none

def task (w : World) (c : TaskCall) : Option World :=
  (w.device.step? (.task c)).map fun d =>
    { w with device := d,
             loopEnd := if d.phase = .ending then some ⟨w.earlier, w.firmware⟩ else w.loopEnd }

def step? (w : World) : Event → Option World
  | .start f => w.start f
  | .recvFw n => w.recvFw n
  | .unblock => (w.device.step? .unblock).map fun d => { w with device := d }
  | .task c => w.task c

end World

/-- An event that cannot happen in a state leaves it as it is. -/
def step (w : World) (e : Event) : World := (w.step? e).getD w

/-! ## The invariant -/

/-- As many bytes as were announced are written, and they are the first of the stream since boot. -/
structure LoopEnd.Wrote (s : LoopEnd) (written : List UInt8) : Prop where
  length : s.firmware.bytes.length ≤ written.length
  bytes : written.take s.firmware.bytes.length =
    (s.earlier ++ s.firmware.bytes).take s.firmware.bytes.length

structure Tracks (w : World) : Prop where
  flow : Flow w.delivered w.device
  length : w.device.fwLength = w.firmware.length
  before : w.loopEnd = none →
    (w.device.phase.Left → w.device.phase = .failed) ∧ ∀ k ∈ w.device.calls, ¬ Finishes k
  after : ∀ s, w.loopEnd = some s → w.device.phase.Left ∧ s.Wrote w.device.written

theorem Tracks.boot : Tracks .boot where
  flow := .boot
  length := rfl
  before _ := ⟨nofun, nofun⟩
  after := nofun

/-- The count reached the announced length, so as many bytes are written. -/
theorem Tracks.wrote {w : World} (h : Tracks w) (hle : w.device.fwLength ≤ w.device.recvLen) :
    LoopEnd.Wrote ⟨w.earlier, w.firmware⟩ w.device.written := by
  have hlen : w.firmware.bytes.length ≤ w.device.written.length := by
    rw [h.length, h.flow.count, UInt32.le_iff_toNat_le, Firmware.length] at hle
    simp only [UInt32.toNat_ofNat', Nat.mod_eq_of_lt w.firmware.fits] at hle
    exact Nat.le_trans hle (Nat.mod_le _ _)
  have hpre : w.device.written <+: w.earlier ++ w.sent.got := ⟨w.device.pending, h.flow.bytes⟩
  obtain ⟨rest, hrest⟩ := hpre.trans ((List.prefix_append_right_inj _).mpr w.sent.got_prefix)
  exact ⟨hlen, by rw [← hrest, List.take_append_of_le_length hlen]⟩

/-- The other parties do not disturb the task. -/
theorem Tracks.of_not_task {w : World} (h : Tracks w) {a : Action} {d : Device} (hs : Steps w.device a d)
    (ha : ∀ c, a ≠ .task c) {earlier : List UInt8} {f : Firmware} {sent : Transfer f.bytes}
    (hflow : Flow (earlier ++ sent.got) d) (hlength : d.fwLength = f.length) :
    Tracks ⟨d, earlier, f, sent, w.loopEnd⟩ := by
  obtain ⟨hp, hc⟩ := hs.phase_of_not_task ha
  have hw : d.written = w.device.written := by rw [Device.written, hc]; rfl
  exact ⟨hflow, hlength, by simpa only [hp, hc] using h.before, by simpa only [hp, hw] using h.after⟩

/-- What `task` makes of a world when the device steps to `d`. -/
def World.tasked (w : World) (d : Device) : World :=
  { w with device := d,
           loopEnd := if d.phase = .ending then some ⟨w.earlier, w.firmware⟩ else w.loopEnd }

/-- **A step of the task.** -/
theorem Tracks.task {w : World} (h : Tracks w) {c : TaskCall} {d : Device} (hs : Steps w.device (.task c) d) :
    Tracks (w.tasked d) := by
  have hflow : Flow w.delivered d := by simpa using h.flow.step hs
  have hlength : d.fwLength = w.firmware.length := hs.fwLength_of_task.trans h.length
  by_cases hleft : w.device.phase.Left
  · obtain ⟨hp, hd⟩ := hs.after_loop hleft
    have hne : d.phase ≠ .ending := by rcases hd with hd | hd | hd <;> rw [hd] <;> nofun
    have hw : d.written = w.device.written :=
      hs.written_of_ne (by rcases hp with hp | hp <;> rw [hp] <;> nofun)
    have hnf : w.device.phase ≠ .failed := by rcases hp with hp | hp <;> rw [hp] <;> nofun
    refine ⟨hflow, hlength, fun hn => ?_, fun s hl => ?_⟩
    · rw [World.tasked, if_neg hne] at hn
      exact absurd ((h.before hn).1 hleft) hnf
    · rw [World.tasked, if_neg hne] at hl
      exact ⟨.inr hd, hw.symm ▸ (h.after s hl).2⟩
  · have hnone : w.loopEnd = none := by
      cases hl : w.loopEnd with
      | none => rfl
      | some s => exact absurd (h.after s hl).1 hleft
    rcases hs.in_loop hleft with ⟨he, hle, hcalls⟩ | ⟨hd, hk⟩
    · have hw : d.written = w.device.written := by rw [Device.written, hcalls]; rfl
      refine ⟨hflow, hlength, fun hn => ?_, fun s hl => ?_⟩
      · rw [World.tasked, if_pos he] at hn; cases hn
      · rw [World.tasked, if_pos he] at hl; cases hl
        exact ⟨.inl he, hw.symm ▸ h.wrote hle⟩
    · have hne : d.phase ≠ .ending := fun he => by
        have := hd (.inl he)
        rw [he] at this; cases this
      refine ⟨hflow, hlength, fun _ => ⟨hd, fun k hmem => ?_⟩, fun s hl => ?_⟩
      · exact (hk k hmem).elim ((h.before hnone).2 k) id
      · rw [World.tasked, if_neg hne, hnone] at hl; cases hl

theorem Tracks.step {w : World} (h : Tracks w) (e : Event) : Tracks (step w e) := by
  unfold Restarts.step
  cases hw : w.step? e with
  | none => exact h
  | some w' =>
    rw [Option.getD_some]
    cases e with
    | start f =>
      obtain ⟨d, hd, rfl⟩ := Option.map_eq_some_iff.mp hw
      have hs := steps hd
      have hflow := h.flow.step hs
      refine h.of_not_task hs (fun c hc => by cases hc) (by simpa [World.delivered] using hflow) ?_
      cases hs; rfl
    | recvFw n =>
      simp only [World.step?, World.recvFw] at hw
      split at hw
      · rename_i hn
        obtain ⟨d, hd, rfl⟩ := Option.map_eq_some_iff.mp hw
        have hs := steps hd
        have hflow := h.flow.step hs
        have hfits : (w.sent.next n).length ≤ otaRingbufSize := by rw [w.sent.next_length n hn.1]; exact hn.2
        rw [Action.brings, if_pos hfits, World.delivered, List.append_assoc,
          ← Transfer.got_advance _ _ hn.1] at hflow
        refine h.of_not_task hs (fun c hc => by cases hc) hflow ?_
        cases hs <;> exact h.length
      · cases hw
    | unblock =>
      obtain ⟨d, hd, rfl⟩ := Option.map_eq_some_iff.mp hw
      have hs := steps hd
      have hflow := h.flow.step hs
      refine h.of_not_task hs (fun c hc => by cases hc) (by simpa [World.delivered] using hflow) ?_
      cases hs; exact h.length
    | task c =>
      obtain ⟨d, hd, rfl⟩ := Option.map_eq_some_iff.mp hw
      exact h.task (steps hd)

/-- **Every run keeps the books.** -/
theorem run_tracks (es : List Event) : Tracks (run step .boot es) :=
  run_invariant _ (fun _ e h => h.step e) .boot es

/-- **What is written when the task finishes.** Whenever `ota_task` has called `esp_ota_end` or
`esp_ota_set_boot_partition`, its loop had ended, and of the bytes written, as many as the last START
before that had announced are the first of what was delivered under earlier STARTs followed by the
firmware: the firmware itself when nothing was delivered under earlier STARTs. -/
theorem ended_written (es : List Event) :
    let w := run step .boot es
    (∃ k ∈ w.device.calls, Finishes k) →
      ∃ s, w.loopEnd = some s ∧ s.Wrote w.device.written ∧
        (s.earlier = [] → w.device.written.take s.firmware.bytes.length = s.firmware.bytes) := by
  intro w hk
  have h : Tracks w := run_tracks es
  obtain ⟨k, hmem, hfin⟩ := hk
  obtain ⟨s, hl⟩ : ∃ s, w.loopEnd = some s := by
    cases hl : w.loopEnd with
    | none => exact absurd hfin ((h.before hl).2 k hmem)
    | some s => exact ⟨s, rfl⟩
  have hw := (h.after s hl).2
  refine ⟨s, hl, hw, fun he => ?_⟩
  rw [hw.bytes, he, List.nil_append, List.take_length]

/-! ## Two runs -/

/-- Booted from the factory app, with one OTA slot, which can be begun. -/
def oneSlot : Lookup where
  bootPartition := some ⟨partitionTypeApp, partitionSubtypeAppFactory, 0x10000⟩
  nextUpdatePartition _ := none
  findFirst type subtype :=
    if type = partitionTypeApp ∧ subtype = partitionSubtypeAppOta0 then some ⟨type, subtype, 0x110000⟩
    else none
  beginErr := espOk
  beginHandle := 1

/-- One pass of the loop over an item of `n` bytes. -/
def pass (n : Nat) : List Event :=
  [.task (.receive n), .task (.write espOk), .task .returnItem, .task .compare]

/-- A transfer of 1, 2 given up before its first byte, then one of 3, 4. -/
def givenUp : List Event :=
  [.task (.begin oneSlot), .start ⟨[1, 2], by decide⟩, .start ⟨[3, 4], by decide⟩, .recvFw 2] ++
    pass 1 ++ pass 1 ++ [.task (.otaEnd espOk)]

/-- A transfer of 1, 2 cut off after one byte, then one of 3, 4. -/
def cutOff : List Event :=
  [.task (.begin oneSlot), .start ⟨[1, 2], by decide⟩, .recvFw 1, .start ⟨[3, 4], by decide⟩, .recvFw 2] ++
    pass 1 ++ pass 1 ++ [.task (.otaEnd espOk)]

theorem ended_written_two_starts :
    (run step .boot givenUp).device.written.take 2 = [3, 4] ∧
      ∃ s, (run step .boot cutOff).loopEnd = some s ∧ s.earlier = [1] ∧
        s.Wrote (run step .boot cutOff).device.written := by
  constructor
  · obtain ⟨s, hs, -, hw⟩ := ended_written givenUp ⟨.otaEnd 1 espOk, by decide, trivial⟩
    cases hs
    exact hw rfl
  · obtain ⟨s, hs, hw, -⟩ := ended_written cutOff ⟨.otaEnd 1 espOk, by decide, trivial⟩
    refine ⟨s, hs, ?_, hw⟩
    cases hs
    rfl

/-- The byte of the first transfer stays in front: 1, 3 is written where 3, 4 was announced. -/
theorem not_ended_written :
    ¬ ∀ es, let w := run step .boot es
      w.device.phase = .settingBoot → w.device.written.take w.device.fwLength.toNat = w.firmware.bytes := by
  intro h
  have hwritten : (run step .boot cutOff).device.written = [1, 3] := by decide
  have := h cutOff (by decide)
  rw [hwritten] at this
  exact absurd this (by decide)

end EspOta.Ble.Restarts
