/-
`main.py`: what the BLE sender writes.

`send_command` and `send_firmware` are translated over any `write`
(`client.write_gatt_char` may raise, and changes some state `σ` the sender
never looks at). `script` is the list of writes of a firmware file, with no
control flow left: `sendFirmware_eq` says the program makes exactly these
writes in this order when the file is at most `maxSize` bytes long, and
`sendFirmware_ne_ok` that it never finishes when it is longer
(`struct.pack` raises on the sector index, or on the length).
-/
import EspOta.Lib.Bytes
import EspOta.Lib.Crc
import EspOta.Lib.Loops

namespace EspOta.Ble

open Lib

abbrev Bytes := List UInt8

/-- The characteristics the sender writes. -/
inductive Characteristic | recvFw | command
  deriving DecidableEq, Repr

structure Write where
  characteristic : Characteristic
  packet : Bytes
  deriving DecidableEq, Repr

/-- What may raise in the sender. -/
inductive PyError | structError | bleakError
  deriving DecidableEq, Repr

def startOtaCmd : Nat := 0x0001
def stopOtaCmd : Nat := 0x0002

def sectorSize : Nat := 4096
def mtuSize : Nat := 515

/-- `crc16 = crcmod.mkCrcFun(0x11021, rev=False, initCrc=0xFFFF, xorOut=0x0000)`. -/
def crc16 (data : Bytes) : Nat := (crc 0x1021#16 0xFFFF#16 data).toNat

/-- `struct.pack` of one unsigned little-endian number of `n` bytes. -/
def structPack (n v : Nat) : Except PyError Bytes :=
  if v < 256 ^ n then .ok (packLe n v) else .error .structError

variable {σ : Type}

def sendCommand (write : σ → Write → Except PyError σ) (s : σ) (commandId : Nat) (payload : Bytes) :
    Except PyError σ := do
  let data := (← structPack 2 commandId) ++ payload.rightpad 16 0
  let crc ← structPack 2 (crc16 data)
  write s ⟨.command, data ++ crc⟩

/-- One packet of the inner loop: `packet_seq` of `num_packets`. -/
def sectorPacket (sectorIndex : Nat) (sector : Bytes) (numPackets packetSeq : Nat) :
    Except PyError Bytes := do
  let start := packetSeq * (mtuSize - 4)
  let stop := start + (mtuSize - 4)
  let payload := sector.extract start stop
  let (packetSeq, payload) ←
    if packetSeq = numPackets - 1 then
      pure (0xFF, payload.rightpad (mtuSize - 6) 0 ++ (← structPack 2 (crc16 sector)))
    else pure (packetSeq, payload)
  return (← structPack 2 (sectorIndex / sectorSize)) ++ (← structPack 1 packetSeq) ++ payload

/-- The body of the outer loop; `sectorIndex` is the place of the sector in the file, as in the source. -/
def sendSector (write : σ → Write → Except PyError σ) (firmware : Bytes) (s : σ) (sectorIndex : Nat) :
    Except PyError σ :=
  let sector := firmware.extract sectorIndex (sectorIndex + sectorSize)
  let numPackets := (sector.length + mtuSize - 4 - 1) / (mtuSize - 4)
  (List.range numPackets).foldlM (fun s packetSeq => do
    let packet ← sectorPacket sectorIndex sector numPackets packetSeq
    write s ⟨.recvFw, packet⟩) s

def sendFirmware (write : σ → Write → Except PyError σ) (s : σ) (firmware : Bytes) : Except PyError σ := do
  let totalSize := firmware.length
  let s ← sendCommand write s startOtaCmd (← structPack 4 totalSize)
  -- range(0, total_size, sector_size)
  let s ← (List.range' 0 ((totalSize + sectorSize - 1) / sectorSize) sectorSize).foldlM
    (sendSector write firmware) s
  sendCommand write s stopOtaCmd (List.replicate 16 0)

/-! ## The writes, with no control flow -/

/-- The largest file whose sector indices fit their two bytes. -/
def maxSize : Nat := 65536 * sectorSize

def commandPacket (commandId : Nat) (payload : Bytes) : Bytes :=
  let data := packLe 2 commandId ++ payload.rightpad 16 0
  data ++ packLe 2 (crc16 data)

/-- How many packets a sector takes. -/
def packetCount (sector : Bytes) : Nat := blockCount (mtuSize - 4) sector.length

/-- The `j`-th packet of the `i`-th sector; the last one is marked, padded and checked. -/
def firmwarePacket (i : Nat) (sector : Bytes) (j : Nat) : Bytes :=
  let payload := block (mtuSize - 4) sector j
  if j + 1 = packetCount sector then
    packLe 2 i ++ packLe 1 0xFF ++ (payload.rightpad (mtuSize - 6) 0 ++ packLe 2 (crc16 sector))
  else packLe 2 i ++ packLe 1 j ++ payload

def sectorPackets (i : Nat) (sector : Bytes) : List Bytes :=
  (List.range (packetCount sector)).map (firmwarePacket i sector)

/-- How many sectors a file takes. -/
def sectorCount (firmware : Bytes) : Nat := blockCount sectorSize firmware.length

/-- The `i`-th sector of a file. -/
def sectorOf (firmware : Bytes) (i : Nat) : Bytes := block sectorSize firmware i

def start (firmware : Bytes) : Write := ⟨.command, commandPacket startOtaCmd (packLe 4 firmware.length)⟩

def stop : Write := ⟨.command, commandPacket stopOtaCmd (List.replicate 16 0)⟩

/-- The writes of the `i`-th sector. -/
def sectorWrites (firmware : Bytes) (i : Nat) : List Write :=
  (sectorPackets i (sectorOf firmware i)).map (⟨.recvFw, ·⟩)

/-- The writes of a file. -/
def script (firmware : Bytes) : List Write :=
  start firmware :: (List.range (sectorCount firmware)).flatMap (sectorWrites firmware) ++ [stop]

theorem crc16_lt (data : Bytes) : crc16 data < 256 ^ 2 := (crc 0x1021#16 0xFFFF#16 data).isLt

theorem structPack_ok {n v : Nat} (h : v < 256 ^ n) : structPack n v = .ok (packLe n v) := if_pos h

theorem structPack_error {n v : Nat} (h : 256 ^ n ≤ v) : structPack n v = .error .structError :=
  if_neg (Nat.not_lt.mpr h)

theorem sectorOf_length_le (firmware : Bytes) (i : Nat) : (sectorOf firmware i).length ≤ sectorSize := by
  rw [sectorOf, block_length]; exact Nat.min_le_left _ _

theorem packetCount_le {sector : Bytes} (h : sector.length ≤ sectorSize) : packetCount sector ≤ 9 := by
  simp only [packetCount, blockCount, mtuSize, sectorSize] at *; omega

theorem packetCount_pos {sector : Bytes} (h : 0 < sector.length) : 0 < packetCount sector := by
  simp only [packetCount, blockCount, mtuSize] at *; omega

theorem sectorCount_le {firmware : Bytes} (h : firmware.length ≤ maxSize) : sectorCount firmware ≤ 65536 := by
  simp only [sectorCount, blockCount, maxSize, sectorSize] at *; omega

/-! ## The program makes these writes -/

variable (write : σ → Write → Except PyError σ)

theorem sendCommand_eq (s : σ) {commandId : Nat} (h : commandId < 256 ^ 2) (payload : Bytes) :
    sendCommand write s commandId payload = write s ⟨.command, commandPacket commandId payload⟩ := by
  simp only [sendCommand, structPack_ok h, structPack_ok (crc16_lt _), ok_bind]
  rfl

theorem sectorPacket_eq {i j : Nat} {sector : Bytes} (hi : i < 65536) (hs : sector.length ≤ sectorSize)
    (hj : j < packetCount sector) :
    sectorPacket (i * sectorSize) sector (packetCount sector) j = .ok (firmwarePacket i sector j) := by
  have hk := packetCount_le hs
  have hdiv : i * sectorSize / sectorSize = i := Nat.mul_div_cancel _ (by decide)
  have hi : i < 256 ^ 2 := hi
  have hj' : j < 256 ^ 1 := by omega
  simp only [sectorPacket, firmwarePacket, hdiv, structPack_ok hi]
  by_cases hlast : j + 1 = packetCount sector
  · rw [if_pos (by omega), if_pos hlast, structPack_ok (crc16_lt _)]
    rfl
  · rw [if_neg (by omega), if_neg hlast]
    simp only [pure_bind, structPack_ok hj']
    rfl

theorem sendSector_eq {firmware : Bytes} {i : Nat} (hi : i < 65536) (s : σ) :
    sendSector write firmware s (i * sectorSize) = (sectorWrites firmware i).foldlM write s := by
  have hcount : ((sectorOf firmware i).length + mtuSize - 4 - 1) / (mtuSize - 4) =
      packetCount (sectorOf firmware i) := rfl
  show (List.range (((sectorOf firmware i).length + mtuSize - 4 - 1) / (mtuSize - 4))).foldlM _ s = _
  rw [hcount, sectorWrites, sectorPackets, List.map_map, List.map_eq_flatMap]
  refine foldlM_flatMap (fun j hj s => ?_) s
  show (sectorPacket (i * sectorSize) (sectorOf firmware i) (packetCount (sectorOf firmware i)) j >>=
    fun packet => write s ⟨.recvFw, packet⟩) = _
  rw [sectorPacket_eq hi (sectorOf_length_le _ _) (List.mem_range.mp hj), ok_bind]
  simp

/-- **The sender makes the writes of the script**, in order, as long as none of them raises. -/
theorem sendFirmware_eq {firmware : Bytes} (h : firmware.length ≤ maxSize) (s : σ) :
    sendFirmware write s firmware = (script firmware).foldlM write s := by
  have hlen : firmware.length < 256 ^ 4 := by simp only [maxSize, sectorSize] at h; omega
  have hloop : ∀ s, (List.range' 0 ((firmware.length + sectorSize - 1) / sectorSize) sectorSize).foldlM
      (sendSector write firmware) s =
      ((List.range (sectorCount firmware)).flatMap (sectorWrites firmware)).foldlM write s := by
    intro s
    rw [range'_zero_eq_map, List.foldlM_map]
    refine foldlM_flatMap (fun i hi s => ?_) s
    have hlt : i < sectorCount firmware := List.mem_range.mp hi
    exact sendSector_eq write (Nat.lt_of_lt_of_le hlt (sectorCount_le h)) s
  have hstart : startOtaCmd < 256 ^ 2 := by decide
  have hstop : stopOtaCmd < 256 ^ 2 := by decide
  simp only [sendFirmware, structPack_ok hlen, ok_bind, sendCommand_eq write _ hstart,
    sendCommand_eq write _ hstop, hloop]
  simp [script, start, stop]

theorem sectorPacket_ne_ok {sectorIndex : Nat} (h : 256 ^ 2 ≤ sectorIndex / sectorSize) (sector : Bytes)
    (numPackets packetSeq : Nat) (p : Bytes) :
    sectorPacket sectorIndex sector numPackets packetSeq ≠ .ok p := by
  intro hok
  simp only [sectorPacket, structPack_error h, error_bind] at hok
  split at hok
  · rw [structPack_ok (crc16_lt sector)] at hok
    cases hok
  · cases hok

theorem sendSector_ne_ok {firmware : Bytes} {i : Nat} (hi : 65536 ≤ i)
    (hlen : i * sectorSize < firmware.length) (s s' : σ) : sendSector write firmware s (i * sectorSize) ≠ .ok s' := by
  have hpos : 0 < packetCount (sectorOf firmware i) := by
    refine packetCount_pos (block_length_pos (by decide) ?_)
    exact (lt_blockCount (by decide)).mpr hlen
  refine foldlM_ne_ok (List.mem_range.mpr hpos) (fun s₁ s₂ hok => ?_) s s'
  obtain ⟨p, hp, -⟩ := bind_eq_ok.mp hok
  refine sectorPacket_ne_ok ?_ _ _ _ p hp
  rwa [Nat.mul_div_cancel _ (by decide)]

/-- **A longer file never completes**, whatever the writes do. -/
theorem sendFirmware_ne_ok {firmware : Bytes} (h : maxSize < firmware.length) (s s' : σ) :
    sendFirmware write s firmware ≠ .ok s' := by
  intro hok
  obtain ⟨_, -, hok⟩ := bind_eq_ok.mp hok
  obtain ⟨_, -, hok⟩ := bind_eq_ok.mp hok
  obtain ⟨s₁, hloop, -⟩ := bind_eq_ok.mp hok
  rw [range'_zero_eq_map, List.foldlM_map] at hloop
  have hmem : 65536 ∈ List.range ((firmware.length + sectorSize - 1) / sectorSize) :=
    List.mem_range.mpr ((lt_blockCount (by decide)).mpr h)
  exact foldlM_ne_ok hmem (sendSector_ne_ok write (Nat.le_refl _) h) _ _ hloop

end EspOta.Ble
