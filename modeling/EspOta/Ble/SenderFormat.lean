/-
What the sender writes is what the README describes: the packages have the
fields of its tables, and a receiver that follows it accepts every sector.

* `sectorPackets_format`: the packages of one sector.
* `receive_script`: the receiver at the end of a script.
* `transcript_format`: a transcript has the format throughout, and decodes
  to the firmware it was made from.
-/
import EspOta.Ble.Receiver

namespace EspOta.Ble

open Lib

/-! ## Fields -/

theorem commandPacket_length {payload : Bytes} (hp : payload.length ≤ 16) (id : Nat) :
    (commandPacket id payload).length = 20 := by
  simp [commandPacket]; omega

theorem commandPacket_isCommand {payload : Bytes} (hp : payload.length ≤ 16) (id : Nat) :
    IsCommand (commandPacket id payload) := by
  refine ⟨commandPacket_length hp id, ?_⟩
  have hd : (packLe 2 id ++ payload.rightpad 16 0).length = 18 := by
    simp; omega
  generalize hdata : packLe 2 id ++ payload.rightpad 16 0 = data at hd
  have heq : commandPacket id payload = data ++ packLe 2 (crc16 data) := by rw [← hdata]; rfl
  have hcrc : (commandPacket id payload).extract 18 20 = packLe 2 (crc16 data) := by
    rw [heq, List.extract_eq_take_drop, List.drop_left' hd, List.take_of_length_le (by simp)]
  have hbody : (commandPacket id payload).extract 0 18 = data := by
    rw [heq, List.extract_eq_take_drop, List.drop_zero, List.take_left' hd]
  rw [hcrc, hbody, ofLe_packLe (crc16_lt data), crc16]

theorem commandPacket_id {id : Nat} (hid : id < 256 ^ 2) (payload : Bytes) :
    commandId (commandPacket id payload) = id := by
  have : (commandPacket id payload).extract 0 2 = packLe 2 id := by
    simp [commandPacket, List.extract_eq_take_drop]
  rw [commandId, this, ofLe_packLe hid]

theorem start_announces {firmware : Bytes} (h : firmware.length < 256 ^ 4) :
    announcedLength (start firmware).packet = firmware.length := by
  have : (start firmware).packet.extract 2 6 = packLe 4 firmware.length := by
    simp [start, commandPacket, List.extract_eq_take_drop, List.rightpad]
  rw [announcedLength, this, ofLe_packLe h]

/-- A package with these fields. -/
theorem packet_fields {i seq : Nat} (hi : i < 256 ^ 2) (hseq : seq < 256 ^ 1) (payload : Bytes) :
    let p := packLe 2 i ++ packLe 1 seq ++ payload
    3 ≤ p.length ∧ packetIndex p = i ∧ packetSeq p = seq ∧ packetPayload p = payload := by
  have h1 : (packLe 2 i ++ packLe 1 seq ++ payload).extract 0 2 = packLe 2 i := by
    simp [List.extract_eq_take_drop]
  have h2 : (packLe 2 i ++ packLe 1 seq ++ payload).extract 2 3 = packLe 1 seq := by
    simp [List.extract_eq_take_drop]
  have h3 : (packLe 2 i ++ packLe 1 seq ++ payload).drop 3 = payload := by
    simp [List.drop_append]
  refine ⟨by simp; omega, ?_, ?_, h3⟩
  · rw [packetIndex, h1, ofLe_packLe hi]
  · rw [packetSeq, h2, ofLe_packLe hseq]

/-! ## The packages of a sector -/

/-- The bytes of padding in the last package of a sector. -/
def sectorPadding (sector : Bytes) : Bytes :=
  List.replicate (mtuSize - 6 - (block (mtuSize - 4) sector (packetCount sector - 1)).length) 0

/-- The last package of a sector. -/
def lastPacket (i : Nat) (sector : Bytes) : Bytes := firmwarePacket i sector (packetCount sector - 1)

/-- The packages before it. -/
def firstPackets (i : Nat) (sector : Bytes) : List Bytes :=
  (List.range (packetCount sector - 1)).map (firmwarePacket i sector)

section
variable {i : Nat} {sector : Bytes} (hi : i < 256 ^ 2) (hpos : 0 < sector.length)
  (hle : sector.length ≤ sectorSize)
include hpos

theorem sectorPackets_eq (i : Nat) :
    sectorPackets i sector = firstPackets i sector ++ [lastPacket i sector] := by
  have hk := packetCount_pos hpos
  have hsucc : packetCount sector = packetCount sector - 1 + 1 := by omega
  rw [sectorPackets, hsucc, List.range_succ, List.map_append]
  rfl

theorem lastPacket_eq (i : Nat) : lastPacket i sector =
    packLe 2 i ++ packLe 1 0xFF ++
      ((block (mtuSize - 4) sector (packetCount sector - 1) ++ sectorPadding sector) ++
        packLe 2 (crc16 sector)) := by
  have hk := packetCount_pos hpos
  rw [lastPacket, firmwarePacket, if_pos (by omega)]
  rfl

include hi

theorem lastPacket_fields : 3 ≤ (lastPacket i sector).length ∧ packetIndex (lastPacket i sector) = i ∧
    packetSeq (lastPacket i sector) = 0xFF ∧
    packetPayload (lastPacket i sector) =
      (block (mtuSize - 4) sector (packetCount sector - 1) ++ sectorPadding sector) ++
        packLe 2 (crc16 sector) := by
  rw [lastPacket_eq hpos]
  exact packet_fields hi (by decide) _

include hle

omit hpos in
theorem firmwarePacket_fields {j : Nat} (hj : j < packetCount sector - 1) :
    3 ≤ (firmwarePacket i sector j).length ∧ packetIndex (firmwarePacket i sector j) = i ∧
      packetSeq (firmwarePacket i sector j) = j ∧
      packetPayload (firmwarePacket i sector j) = block (mtuSize - 4) sector j := by
  have hk := packetCount_le hle
  rw [firmwarePacket, if_neg (by omega)]
  exact packet_fields hi (by omega) _

/-- **The payloads of a sector** are the sector, padding, and its CRC. -/
theorem payloads_eq : (sectorPackets i sector).flatMap packetPayload =
    (sector ++ sectorPadding sector) ++ packLe 2 (crc16 sector) := by
  have hk := packetCount_pos hpos
  have hsucc : packetCount sector = packetCount sector - 1 + 1 := by omega
  have hfirst : (firstPackets i sector).flatMap packetPayload =
      ((List.range (packetCount sector - 1)).map (block (mtuSize - 4) sector)).flatten := by
    rw [firstPackets, List.flatMap_map, List.flatMap_def]
    congr 1
    exact List.map_congr_left fun j hj => (firmwarePacket_fields hi hle (List.mem_range.mp hj)).2.2.2
  have hblocks : ((List.range (packetCount sector - 1)).map (block (mtuSize - 4) sector)).flatten ++
      block (mtuSize - 4) sector (packetCount sector - 1) = sector := by
    have h := flatten_blocks (n := mtuSize - 4) (by decide) sector
    have hcount : blockCount (mtuSize - 4) sector.length = packetCount sector := rfl
    rw [hcount, hsucc, List.range_succ, List.map_append, List.flatten_append] at h
    simpa using h
  rw [sectorPackets_eq hpos, List.flatMap_append, hfirst, List.flatMap_singleton,
    (lastPacket_fields hi hpos).2.2.2]
  rw [← List.append_assoc, ← List.append_assoc, hblocks]

theorem sectorBody_payloads :
    sectorBody ((sectorPackets i sector).flatMap packetPayload) = sector ++ sectorPadding sector := by
  rw [payloads_eq hi hpos hle, sectorBody]
  exact List.take_left' (by simp; omega)

theorem drop_payloads : ((sectorPackets i sector).flatMap packetPayload).drop
    (((sectorPackets i sector).flatMap packetPayload).length - 2) = packLe 2 (crc16 sector) := by
  rw [payloads_eq hi hpos hle]
  exact List.drop_left' (by simp; omega)

theorem sectorCrc_payloads : sectorCrc ((sectorPackets i sector).flatMap packetPayload) = crc16 sector := by
  rw [sectorCrc, drop_payloads hi hpos hle, ofLe_packLe (crc16_lt sector)]

end

/-- The packages of a sector, by the README: `sector` is what they carry of the `missing` bytes. -/
structure IsSector (index missing : Nat) (sector : Bytes) (ps : List Bytes) : Prop where
  pos : 0 < ps.length
  index : ∀ p ∈ ps, packetIndex p = index
  seq : ∀ j (h : j < ps.length), packetSeq ps[j] = if j + 1 = ps.length then 0xFF else j
  marker : ∀ j (h : j < ps.length), packetSeq ps[j] = 0xFF ↔ j + 1 = ps.length
  bytes : (sectorBody (ps.flatMap packetPayload)).take (min sectorSize missing) = sector
  tail : ∀ p ∈ ps.getLast?, 2 ≤ (packetPayload p).length
  crc : (ps.flatMap packetPayload).drop ((ps.flatMap packetPayload).length - 2) =
    packLe 2 (crc 0x1021#16 0xFFFF#16 sector).toNat

/-- **The packages of a sector have the format.** -/
theorem sectorPackets_format {i missing : Nat} {sector : Bytes} (hi : i < 256 ^ 2) (hpos : 0 < sector.length)
    (hm : sector.length = min sectorSize missing) : IsSector i missing sector (sectorPackets i sector) := by
  have hle : sector.length ≤ sectorSize := by omega
  have hk := packetCount_pos hpos
  have hk9 := packetCount_le hle
  have hlength : (sectorPackets i sector).length = packetCount sector := by simp [sectorPackets]
  have hlast := lastPacket_fields hi hpos
  have hseq : ∀ j, j < packetCount sector →
      packetSeq (firmwarePacket i sector j) = if j + 1 = packetCount sector then 0xFF else j := by
    intro j hj
    by_cases hend : j + 1 = packetCount sector
    · obtain rfl : j = packetCount sector - 1 := by omega
      rw [if_pos hend]; exact hlast.2.2.1
    · rw [if_neg hend]
      exact (firmwarePacket_fields hi hle (by omega)).2.2.1
  refine ⟨by omega, ?_, ?_, ?_, ?_, ?_, drop_payloads hi hpos hle⟩
  · intro p hp
    rw [sectorPackets_eq hpos, List.mem_append, firstPackets, List.mem_map] at hp
    rcases hp with ⟨j, hj, rfl⟩ | hp
    · exact (firmwarePacket_fields hi hle (List.mem_range.mp hj)).2.1
    · rw [List.mem_singleton.mp hp]; exact hlast.2.1
  · intro j hj
    rw [hlength] at hj ⊢
    simpa [sectorPackets] using hseq j hj
  · intro j hj
    rw [hlength] at hj ⊢
    simp only [sectorPackets, List.getElem_map, List.getElem_range, hseq j hj]
    split <;> omega
  · rw [sectorBody_payloads hi hpos hle]
    exact List.take_left' hm
  · intro p hp
    rw [sectorPackets_eq hpos, List.getLast?_concat] at hp
    obtain rfl : lastPacket i sector = p := by simpa using hp
    simp only [hlast.2.2.2, List.length_append, packLe_length]
    omega

/-! ## The receiver of a script -/

/-- The sectors of a file. -/
def sectors (firmware : Bytes) : List Bytes := (List.range (sectorCount firmware)).map (sectorOf firmware)

theorem sectors_flatten (firmware : Bytes) : (sectors firmware).flatten = firmware :=
  flatten_blocks (by decide) firmware

/-- The receiver of `firmware` with its first `k` sectors accepted. -/
def received (firmware : Bytes) (k : Nat) : Download :=
  ⟨firmware.length, (List.range k).map (sectorOf firmware), [], false⟩

theorem received_awaited (firmware : Bytes) (k : Nat) :
    (received firmware k).awaited = (sectorOf firmware k).length := by
  have hflat : (received firmware k).image = firmware.take (k * sectorSize) := flatten_blocks_take _ _ _
  simp only [Download.awaited, hflat, sectorOf, block_length, List.length_take]
  show min sectorSize (firmware.length - min (k * sectorSize) firmware.length) = _
  omega

theorem sectorOf_length_pos {firmware : Bytes} {k : Nat} (hk : k < sectorCount firmware) :
    0 < (sectorOf firmware k).length := block_length_pos (by decide) hk

/-- **The packages of the next sector** are accepted as that sector. -/
theorem received_sector {firmware : Bytes} {k : Nat} (hk : k < sectorCount firmware) (hi : k < 256 ^ 2) :
    (received firmware k).receivePackets (sectorPackets k (sectorOf firmware k)) =
      received firmware (k + 1) := by
  have hpos := sectorOf_length_pos hk
  have hle := sectorOf_length_le firmware k
  have hawait := received_awaited firmware k
  have hexp : (received firmware k).expected = k := by simp [received, Download.expected]
  have hlast := lastPacket_fields hi hpos
  have hbody := sectorBody_payloads hi hpos hle
  have hcrc := sectorCrc_payloads hi hpos hle
  have htake : (sectorOf firmware k ++ sectorPadding (sectorOf firmware k)).take
      (received firmware k).awaited = sectorOf firmware k := List.take_left' hawait.symm
  rw [sectorPackets_eq hpos] at hbody hcrc ⊢
  have hk9 := packetCount_le hle
  rw [Download.receive_sector rfl ?_ ⟨hlast.1, hlast.2.1.trans hexp.symm, hlast.2.2.1⟩ (by omega)
    (by rw [hbody, hawait]; simp) (by rw [hcrc, hbody, htake]), hbody, htake]
  · simp [received, List.range_succ]
  · intro p hp
    obtain ⟨j, hj, rfl⟩ := List.mem_map.mp hp
    have hj := List.mem_range.mp hj
    obtain ⟨hl, hidx, hseq, -⟩ := firmwarePacket_fields hi hle hj
    exact ⟨hl, hidx.trans hexp.symm, by omega⟩

theorem run_recvFw (d : Download) (ps : List Bytes) :
    run (fun r w => (receive r w).1) (some d) (ps.map (⟨.recvFw, ·⟩)) = some (d.receivePackets ps) := by
  induction ps generalizing d with
  | nil => rfl
  | cons p ps ih => exact ih _

theorem receive_start {firmware : Bytes} (h : firmware.length < 256 ^ 4) (r : Option Download) :
    (receive r (start firmware)).1 = some (received firmware 0) := by
  have hcmd : IsCommand (start firmware).packet := commandPacket_isCommand (by simp) _
  have hid : commandId (start firmware).packet = startOtaCmd := commandPacket_id (by decide) _
  show (receive r ⟨.command, (start firmware).packet⟩).1 = _
  simp [receive, hcmd, hid, start_announces h, received, Download.start]

theorem receive_stop (d : Download) : (receive (some d) stop).1 = some { d with stopped := true } := by
  have hcmd : IsCommand stop.packet := commandPacket_isCommand (by simp) _
  have hid : commandId stop.packet = stopOtaCmd := commandPacket_id (by decide) _
  show (receive (some d) ⟨.command, stop.packet⟩).1 = _
  simp [receive, hcmd, hid, startOtaCmd, stopOtaCmd]

theorem receive_sectors {firmware : Bytes} (h : firmware.length ≤ maxSize) {k : Nat}
    (hk : k ≤ sectorCount firmware) :
    run (fun r w => (receive r w).1) (some (received firmware 0))
      ((List.range k).flatMap (sectorWrites firmware)) = some (received firmware k) := by
  induction k with
  | zero => rfl
  | succ k ih =>
    have hi : k < 256 ^ 2 := Nat.lt_of_lt_of_le hk (sectorCount_le h)
    rw [List.range_succ, List.flatMap_append, run_append, ih (by omega), List.flatMap_singleton, sectorWrites,
      run_recvFw, received_sector hk hi]

/-- **The receiver of a whole script** has accepted every sector, whatever it held before. -/
theorem receive_script {firmware : Bytes} (h : firmware.length ≤ maxSize) (r : Option Download) :
    run (fun r w => (receive r w).1) r (script firmware) =
      some ⟨firmware.length, sectors firmware, [], true⟩ := by
  have hlen : firmware.length < 256 ^ 4 := by simp only [maxSize, sectorSize] at h; omega
  rw [script, List.cons_append, run_cons, receive_start hlen, run_append, receive_sectors h (Nat.le_refl _),
    run_cons, run_nil, receive_stop]
  rfl

theorem decode_script {firmware : Bytes} (h : firmware.length ≤ maxSize) :
    decode (script firmware) = some firmware := by
  simp [decode, receive_script h, Download.image, sectors_flatten]

/-! ## The transcript -/

/-- The writes made, in order. -/
def record (ws : List Write) (w : Write) : Except PyError (List Write) := .ok (ws ++ [w])

theorem foldlM_record (ws acc : List Write) : ws.foldlM record acc = .ok (acc ++ ws) := by
  induction ws generalizing acc with
  | nil => simp [pure, Except.pure]
  | cons w ws ih => rw [List.foldlM_cons, record, ok_bind, ih]; simp

/-- **The transcript of a firmware file has the format of the README throughout and decodes to the file.**
The packages of a sector carry 4096 bytes of it, or what is missing from the announced length. -/
theorem transcript_format (firmware : Bytes) (h : firmware.length ≤ maxSize) :
    ∃ (first last : Bytes) (packets : List (List Bytes)),
      let transcript := ⟨.command, first⟩ :: packets.flatten.map (⟨.recvFw, ·⟩) ++ [⟨.command, last⟩]
      sendFirmware record [] firmware = .ok transcript ∧
      decode transcript = some firmware ∧
      (IsCommand first ∧ commandId first = startOtaCmd ∧ announcedLength first = firmware.length) ∧
      (IsCommand last ∧ commandId last = stopOtaCmd) ∧
      packets.length = (sectors firmware).length ∧ (sectors firmware).flatten = firmware ∧
      ∀ i (hi : i < packets.length) (hi' : i < (sectors firmware).length),
        IsSector i (announcedLength first - i * sectorSize) (sectors firmware)[i] packets[i] := by
  have hlen : firmware.length < 256 ^ 4 := by simp only [maxSize, sectorSize] at h; omega
  let packets := (List.range (sectorCount firmware)).map fun i => sectorPackets i (sectorOf firmware i)
  have hscript : (⟨.command, (start firmware).packet⟩ :: packets.flatten.map (⟨.recvFw, ·⟩) ++
      [⟨.command, stop.packet⟩] : List Write) = script firmware := by
    simp only [script, packets, List.map_flatten, List.map_map, List.flatMap_def]
    rfl
  have hcount : packets.length = (sectors firmware).length := by simp [packets, sectors]
  have hann := start_announces hlen
  refine ⟨(start firmware).packet, stop.packet, packets, ?_, ?_,
    ⟨commandPacket_isCommand (by simp) _, ?_, hann⟩, ⟨commandPacket_isCommand (by simp) _, ?_⟩, hcount,
    sectors_flatten firmware, ?_⟩
  · rw [hscript, sendFirmware_eq record h, foldlM_record, List.nil_append]
  · rw [hscript, decode_script h]
  · exact commandPacket_id (by decide) _
  · exact commandPacket_id (by decide) _
  · intro i hi _
    have hk : i < sectorCount firmware := by simpa [packets] using hi
    have hi : i < 256 ^ 2 := Nat.lt_of_lt_of_le hk (sectorCount_le h)
    simp only [packets, sectors, List.getElem_map, List.getElem_range, hann]
    exact sectorPackets_format hi (sectorOf_length_pos hk) (block_length _ _ _)

-- The check values of the two commands in the log of the README.
example : (commandPacket startOtaCmd [0x40, 0x84, 0x08, 0x00]).extract 18 20 = [0x79, 0x1d] ∧
    stop.packet.extract 18 20 = [0xe8, 0xb5] := by decide +kernel

/-- A file of a full sector and a byte. -/
@[irreducible] def twoSectors : Bytes := List.replicate 4097 7

theorem twoSectors_fits : twoSectors.length ≤ maxSize := by rw [twoSectors, List.length_replicate]; decide

theorem twoSectors_ne_nil : twoSectors ≠ [] :=
  List.ne_nil_of_length_pos (by rw [twoSectors, List.length_replicate]; decide)

theorem twoSectors_count : sectorCount twoSectors = 2 := by
  rw [sectorCount, twoSectors, List.length_replicate]
  rfl

theorem transcript_format_two_sectors : ∃ ws, sendFirmware record [] twoSectors = .ok ws ∧
    decode ws = some twoSectors ∧
    ∃ w ∈ ws, w.characteristic = .recvFw ∧ packetIndex w.packet = 1 ∧ packetSeq w.packet = 0xFF := by
  obtain ⟨first, last, packets, hsend, hdecode, -, -, hcount, -, hsectors⟩ :=
    transcript_format twoSectors twoSectors_fits
  have htwo : (sectors twoSectors).length = 2 := by simp [sectors, twoSectors_count]
  have hlast : 1 < packets.length := by omega
  have hsector := hsectors 1 hlast (by omega)
  have hpos := hsector.pos
  have hend : packets[1].length - 1 < packets[1].length := by omega
  have hmem : packets[1][packets[1].length - 1] ∈ packets[1] := List.getElem_mem hend
  refine ⟨_, hsend, hdecode, ⟨.recvFw, packets[1][packets[1].length - 1]⟩, ?_, rfl, hsector.index _ hmem, ?_⟩
  · refine List.mem_append_left _ (List.mem_cons_of_mem _ (List.mem_map_of_mem ?_))
    exact List.mem_flatten_of_mem (List.getElem_mem hlast) hmem
  · exact (hsector.marker _ hend).mpr (by omega)

end EspOta.Ble
