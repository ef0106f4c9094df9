/-
The BLE device with `CONFIG_EXAMPLE_USE_PROTOCOMM`: the component posts an
event for each sector it has accepted, in order, and `event_handler` hands
4096 bytes from where its data is on to `ota_recv_fw_cb`, however long the
sector is.

So a firmware whose last sector is short is written with what stood in memory
after it: its own bytes first, and no more than fill the sector
(`writes_whole_sectors`).
-/
import EspOta.Ble.DeviceRuns
import EspOta.Ble.Restarts
import EspOta.Ble.SenderFormat

namespace EspOta.Ble

open Lib

/-! ## The handler -/

/-- The ids of `ESP_BLE_OTA_EVENT`. -/
inductive BleOtaEventId | fileRcv | other (id : Int32)
  deriving DecidableEq, Repr

/-- The ids of `PROTOCOMM_TRANSPORT_BLE_EVENT`. -/
inductive TransportEventId | connected | disconnected | other (id : Int32)
  deriving DecidableEq, Repr

/-- An event, by its base; `eventData` is the memory from where its data is. -/
inductive SystemEvent
  | bleOta (id : BleOtaEventId) (eventData : Nat → UInt8)
  | protocommTransportBle (id : TransportEventId)
  | other

/-- The bytes a callee reads through a pointer and a length. -/
def readMemory (buf : Nat → UInt8) (length : Nat) : Bytes := (List.range length).map buf

@[simp] theorem readMemory_length (buf : Nat → UInt8) (n : Nat) : (readMemory buf n).length = n := by
  simp [readMemory]

/-- `event_handler`: what it calls `ota_recv_fw_cb` with. -/
def eventHandler : SystemEvent → Option Bytes
  | .bleOta .fileRcv eventData => some (readMemory eventData 4096)
  | .bleOta (.other _) _ => none
  | .protocommTransportBle _ => none
  | .other => none

/-! ## The component -/

/-- What the component posts: the next sector, with `beyond` in memory after it, or any other event. -/
inductive Post
  | sector (beyond : Nat → UInt8)
  | transport (id : TransportEventId)
  | bleOta (id : Int32) (eventData : Nat → UInt8)
  | other

/-- The device, how many sectors were posted, and what the handler handed over, in order. -/
structure Protocomm where
  posted : Nat
  handed : Bytes
  device : Device

inductive ProtocommEvent
  | post (p : Post)
  | unblock
  | task (call : TaskCall)

namespace Protocomm

variable (firmware : Bytes)

/-- The length of the firmware is known. -/
def boot : Protocomm := ⟨0, [], { Device.boot with fwLength := UInt32.ofNat firmware.length }⟩

/-- The bytes of sector `i`, and what memory holds after them. -/
def sectorMemory (i : Nat) (beyond : Nat → UInt8) : Nat → UInt8 :=
  fun j => (sectorOf firmware i).getD j (beyond j)

def event (i : Nat) : Post → SystemEvent
  | .sector beyond => .bleOta .fileRcv (sectorMemory firmware i beyond)
  | .transport id => .protocommTransportBle id
  | .bleOta id eventData => .bleOta (.other id) eventData
  | .other => .other

/-- The event loop's task is the handler's: it posts no more while a handler waits. -/
def post (y : Protocomm) (p : Post) : Option Protocomm :=
  if y.device.blocked.isSome then none
  else
    match eventHandler (event firmware y.posted p) with
    | none => some y
    | some chunk =>
      if y.posted < sectorCount firmware then
        (y.device.step? (.otaRecvFwCb chunk)).map fun d => ⟨y.posted + 1, y.handed ++ chunk, d⟩
      else none

def step? (y : Protocomm) : ProtocommEvent → Option Protocomm
  | .post p => y.post firmware p
  | .unblock => (y.device.step? .unblock).map fun d => { y with device := d }
  | .task c => (y.device.step? (.task c)).map fun d => { y with device := d }

/-- An event that cannot happen in a state leaves it as it is. -/
def step (y : Protocomm) (e : ProtocommEvent) : Protocomm := (y.step? firmware e).getD y

/-! ## What is handed over -/

theorem event_handled (i : Nat) (p : Post) : eventHandler (event firmware i p) = none ∨
    ∃ beyond : Nat → UInt8,
      eventHandler (event firmware i p) = some (readMemory (sectorMemory firmware i beyond) 4096) := by
  cases p with
  | sector beyond => exact .inr ⟨beyond, rfl⟩
  | transport | bleOta | other => exact .inl rfl

/-- What the handler reads begins with the sector. -/
theorem take_sectorMemory (i : Nat) (beyond : Nat → UInt8) {n : Nat} (h : (sectorOf firmware i).length ≤ n) :
    (readMemory (sectorMemory firmware i beyond) n).take (sectorOf firmware i).length = sectorOf firmware i := by
  apply List.ext_getElem
  · rw [List.length_take, readMemory_length, Nat.min_eq_left h]
  · intro j _ hj
    simp only [readMemory, List.getElem_take, List.getElem_map, List.getElem_range, sectorMemory]
    rw [List.getD_eq_getElem?_getD, List.getElem?_eq_getElem hj, Option.getD_some]

variable {firmware}

/-- The chunks handed over are the sectors, filled up, one after the other. -/
structure Hands (firmware : Bytes) (posted : Nat) (handed : Bytes) : Prop where
  le : posted ≤ sectorCount firmware
  length : handed.length = posted * sectorSize
  bytes : handed.take firmware.length = firmware.take (posted * sectorSize)

theorem Hands.next {posted : Nat} {handed : Bytes} (h : Hands firmware posted handed)
    (hlt : posted < sectorCount firmware) {chunk : Bytes} (hlength : chunk.length = sectorSize)
    (hchunk : chunk.take (sectorOf firmware posted).length = sectorOf firmware posted) :
    Hands firmware (posted + 1) (handed ++ chunk) := by
  have hmore : posted * sectorSize < firmware.length := (lt_blockCount (by decide)).mp hlt
  have hsector : (sectorOf firmware posted).length = min sectorSize (firmware.length - posted * sectorSize) :=
    block_length _ _ _
  have hrest : chunk.take (firmware.length - posted * sectorSize) = sectorOf firmware posted := by
    rw [← hchunk, hsector, List.take_eq_take_iff]
    omega
  have hhanded : handed = firmware.take (posted * sectorSize) := by
    rw [← h.bytes, List.take_of_length_le]
    rw [h.length]
    omega
  refine ⟨hlt, ?_, ?_⟩
  · rw [List.length_append, h.length, hlength, Nat.succ_mul]
  · rw [List.take_append, h.length, hrest, List.take_of_length_le (by rw [h.length]; omega), hhanded,
      Nat.succ_mul, List.take_add, sectorOf, block_eq]

/-! ## Every run -/

/-- What every step keeps. -/
structure Tracks (firmware : Bytes) (y : Protocomm) : Prop where
  hands : Hands firmware y.posted y.handed
  flow : Flow y.handed y.device
  length : y.device.fwLength = UInt32.ofNat firmware.length
  late : y.device.Late firmware.length

theorem Tracks.boot (firmware : Bytes) : Tracks firmware (boot firmware) where
  hands := ⟨Nat.zero_le _, by simp [Protocomm.boot], by simp [Protocomm.boot]⟩
  flow := ⟨rfl, .inr (.inr (.inr rfl)), rfl⟩
  length := rfl
  late := Device.Late.boot firmware.length

theorem fwLength_of_recv {d d' : Device} {buf : Bytes} (hs : Steps d (.otaRecvFwCb buf) d') :
    d'.fwLength = d.fwLength := by
  cases hs <;> rfl

theorem Tracks.post {y : Protocomm} (h : Tracks firmware y) {beyond : Nat → UInt8}
    (hlt : y.posted < sectorCount firmware) {d : Device}
    (hs : Steps y.device
      (.otaRecvFwCb (readMemory (sectorMemory firmware y.posted beyond) 4096)) d) :
    Tracks firmware ⟨y.posted + 1, y.handed ++ readMemory (sectorMemory firmware y.posted beyond) 4096, d⟩ := by
  have hflow := h.flow.step hs
  rw [Action.brings, if_pos (by rw [readMemory_length]; decide)] at hflow
  have hhands := h.hands.next hlt (readMemory_length _ 4096)
    (take_sectorMemory firmware y.posted beyond (sectorOf_length_le firmware y.posted))
  exact ⟨hhands, hflow, (fwLength_of_recv hs).trans h.length, h.late.other hs (by simp)⟩

theorem Tracks.step {y : Protocomm} (h : Tracks firmware y) (hsize : firmware.length < 2 ^ 32)
    (e : ProtocommEvent) : Tracks firmware (step firmware y e) := by
  unfold Protocomm.step
  cases he : y.step? firmware e with
  | none => exact h
  | some y' =>
    rw [Option.getD_some]
    cases e with
    | post p =>
      simp only [step?, Protocomm.post] at he
      split at he
      · cases he
      · rcases event_handled firmware y.posted p with hnone | ⟨beyond, hsome⟩
        · rw [hnone] at he
          cases he
          exact h
        · rw [hsome] at he
          dsimp only at he
          split at he
          · rename_i hlt
            obtain ⟨d, hd, rfl⟩ := Option.map_eq_some_iff.mp he
            exact h.post hlt (steps hd)
          · cases he
    | unblock =>
      obtain ⟨d, hd, rfl⟩ := Option.map_eq_some_iff.mp he
      have hs := steps hd
      have hlength : d.fwLength = y.device.fwLength := by cases hs; rfl
      exact ⟨h.hands, by simpa using h.flow.step hs, hlength.trans h.length, h.late.other hs (by simp)⟩
    | task c =>
      obtain ⟨d, hd, rfl⟩ := Option.map_eq_some_iff.mp he
      have hs := steps hd
      exact ⟨h.hands, by simpa using h.flow.step hs, hs.fwLength_of_task.trans h.length,
        h.late.step hs fun _ hle => Device.written_of_count h.flow hsize h.length hle⟩

end Protocomm

/-- **A firmware is written in whole sectors.** Whatever memory holds after the last sector, and however the parties'
steps interleave and the task's calls fail: when `esp_ota_end` or `esp_ota_set_boot_partition` has been called, the
firmware is written, and after it no more than fills its last sector. -/
theorem writes_whole_sectors {firmware : Bytes} (hsize : firmware.length < 2 ^ 32) (es : List ProtocommEvent) :
    let y := run (Protocomm.step firmware) (.boot firmware) es
    (∃ k ∈ y.device.calls, Finishes k) → ∃ surplus, y.device.written = firmware ++ surplus ∧
      firmware.length + surplus.length ≤ sectorCount firmware * sectorSize := by
  intro y hfin
  have h : y.Tracks firmware :=
    run_invariant (Protocomm.Tracks firmware) (fun _ e ht => ht.step hsize e) (.boot firmware) es
  have hlen : firmware.length ≤ y.device.written.length := h.late.le (.inr hfin)
  have hpre : y.device.written <+: y.handed := ⟨y.device.pending, h.flow.bytes⟩
  have hhanded : y.handed.length ≤ sectorCount firmware * sectorSize := by
    rw [h.hands.length]
    exact Nat.mul_le_mul_right _ h.hands.le
  have hfirst : y.device.written.take firmware.length = firmware := by
    have htake : y.device.written.take firmware.length = y.handed.take firmware.length := by
      obtain ⟨rest, hrest⟩ := hpre
      rw [← hrest, List.take_append_of_le_length hlen]
    rw [htake, h.hands.bytes, ← h.hands.length, List.take_of_length_le (Nat.le_trans hlen hpre.length_le)]
  refine ⟨y.device.written.drop firmware.length, ?_, ?_⟩
  · calc y.device.written
        = y.device.written.take firmware.length ++ y.device.written.drop firmware.length :=
          (List.take_append_drop _ _).symm
      _ = firmware ++ y.device.written.drop firmware.length := by rw [hfirst]
  · have := hpre.length_le
    rw [List.length_drop]
    omega

/-- One sector handed over, and the task to the end of its update. -/
def oneSector : List ProtocommEvent :=
  [.post (.sector fun _ => 0xAB), .task (.begin Restarts.oneSlot), .task (.receive 4096), .task (.write espOk),
    .task .returnItem, .task .compare, .task (.otaEnd espOk), .task (.setBoot espOk)]

theorem writes_whole_sectors_one_byte : ∃ surplus,
    (run (Protocomm.step [7]) (.boot [7]) oneSector).device.written = [7] ++ surplus ∧
      1 + surplus.length ≤ sectorSize :=
  writes_whole_sectors (by decide : ([7] : Bytes).length < 2 ^ 32) oneSector ⟨.otaEnd 1 espOk, by decide +kernel, trivial⟩

end EspOta.Ble
