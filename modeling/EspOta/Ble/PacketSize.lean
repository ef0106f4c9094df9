/-
The length of the firmware packages. The last one of a sector is padded to
six bytes below the MTU before two bytes of CRC are added, so it fits as long
as its data leaves room for the CRC: a full sector ends in a package of eight
bytes of data, and only the file's last, short sector can fill it.
-/
import EspOta.Ble.SenderFormat

namespace EspOta.Ble

open Lib

/-- A package's header, and as much payload as one write carries. -/
def packetCapacity : Nat := 3 + (mtuSize - 4)

theorem firmwarePacket_length_le {i j : Nat} {sector : Bytes} (hj : j + 1 ≠ packetCount sector) :
    (firmwarePacket i sector j).length ≤ packetCapacity := by
  simp only [firmwarePacket, if_neg hj, List.length_append, packLe_length, packetCapacity, block_length]
  omega

/-- The data of a sector's last package. -/
theorem lastBlock_length {sector : Bytes} (hpos : 0 < sector.length) :
    (block (mtuSize - 4) sector (packetCount sector - 1)).length =
      if sector.length % (mtuSize - 4) = 0 then mtuSize - 4 else sector.length % (mtuSize - 4) := by
  rw [block_length, packetCount, blockCount]
  split <;> simp only [mtuSize] at * <;> omega

theorem lastPacket_length {i : Nat} {sector : Bytes} (hpos : 0 < sector.length) :
    (lastPacket i sector).length ≤ packetCapacity ↔
      0 < sector.length % (mtuSize - 4) ∧ sector.length % (mtuSize - 4) + 2 ≤ mtuSize - 4 := by
  simp only [lastPacket_eq hpos, sectorPadding, List.length_append, packLe_length, List.length_replicate,
    packetCapacity]
  rw [lastBlock_length hpos]
  split <;> simp only [mtuSize] at * <;> omega

/-- **The packages of a sector.** -/
theorem sectorPackets_fit_iff {i : Nat} {sector : Bytes} (hpos : 0 < sector.length) :
    (∀ p ∈ sectorPackets i sector, p.length ≤ packetCapacity) ↔
      0 < sector.length % (mtuSize - 4) ∧ sector.length % (mtuSize - 4) + 2 ≤ mtuSize - 4 := by
  rw [← lastPacket_length (i := i) hpos, sectorPackets_eq hpos]
  constructor
  · intro h
    exact h _ (List.mem_append_right _ (List.mem_singleton_self _))
  · intro h p hp
    rcases List.mem_append.mp hp with hp | hp
    · obtain ⟨j, hj, rfl⟩ := List.mem_map.mp hp
      have hj := List.mem_range.mp hj
      exact firmwarePacket_length_le (by omega)
    · rw [List.mem_singleton.mp hp]; exact h

/-- What is left for the last sector leaves room for the CRC in its last package. -/
def LastSectorFits (firmware : Bytes) : Prop :=
  let last := firmware.length % sectorSize
  last = 0 ∨ (0 < last % (mtuSize - 4) ∧ last % (mtuSize - 4) + 2 ≤ mtuSize - 4)

instance (firmware : Bytes) : Decidable (LastSectorFits firmware) := inferInstanceAs (Decidable (_ ∨ _))

theorem mem_script {firmware : Bytes} {w : Write} (hw : w.characteristic = .recvFw) :
    w ∈ script firmware ↔
      ∃ i < sectorCount firmware, w.packet ∈ sectorPackets i (sectorOf firmware i) := by
  obtain ⟨c, p⟩ := w
  obtain rfl : c = .recvFw := hw
  simp [script, start, stop, sectorWrites]

/-- The length of a sector of a file. -/
theorem sectorOf_length {firmware : Bytes} {i : Nat} (hi : i < sectorCount firmware) :
    (sectorOf firmware i).length =
      if i = firmware.length / sectorSize then firmware.length % sectorSize else sectorSize := by
  have hlt := (lt_blockCount (by decide)).mp hi
  rw [sectorOf, block_length]
  split <;> simp only [sectorSize] at * <;> omega

/-- **The packages of a file** are what a write can carry just when its last sector leaves room. -/
theorem script_fits_iff (firmware : Bytes) :
    (∀ w ∈ script firmware, w.characteristic = .recvFw → w.packet.length ≤ packetCapacity) ↔
      LastSectorFits firmware := by
  -- A full sector ends in a package of 4096 % 511 = 8 bytes.
  have hfull : 0 < sectorSize % (mtuSize - 4) ∧ sectorSize % (mtuSize - 4) + 2 ≤ mtuSize - 4 := by decide
  constructor
  · intro h
    by_cases hr : firmware.length % sectorSize = 0
    · exact .inl hr
    · have hlast : firmware.length / sectorSize < sectorCount firmware := by
        refine (lt_blockCount (by decide)).mpr ?_
        simp only [sectorSize] at *
        omega
      have hfit := (sectorPackets_fit_iff (i := firmware.length / sectorSize) (sectorOf_length_pos hlast)).mp
        fun p hp => h ⟨.recvFw, p⟩ ((mem_script rfl).mpr ⟨_, hlast, hp⟩) rfl
      rw [sectorOf_length hlast, if_pos rfl] at hfit
      exact .inr hfit
  · intro h w hw hc
    obtain ⟨i, hi, hp⟩ := (mem_script hc).mp hw
    refine (sectorPackets_fit_iff (sectorOf_length_pos hi)).mpr ?_ _ hp
    have hpos := sectorOf_length_pos hi
    rw [sectorOf_length hi] at hpos ⊢
    by_cases hlast : i = firmware.length / sectorSize
    · rw [if_pos hlast] at hpos ⊢
      exact h.resolve_left (Nat.ne_of_gt hpos)
    · rw [if_neg hlast]
      exact hfull

/-- **The packet size.** Every firmware package `send_firmware` writes is at most 514 bytes long just when the
bytes left for the last sector, if any, do not fill the payload of its last package to 510 or 511 bytes. -/
theorem packet_size_iff (firmware : Bytes) (h : firmware.length ≤ maxSize) :
    ∃ ws, sendFirmware record [] firmware = .ok ws ∧
      ((∀ w ∈ ws, w.characteristic = .recvFw → w.packet.length ≤ 514) ↔ LastSectorFits firmware) := by
  refine ⟨script firmware, ?_, script_fits_iff firmware⟩
  rw [sendFirmware_eq record h, foldlM_record, List.nil_append]

/-- The packages of two sectors fit; those of one that ends 510 bytes into a package do not. -/
theorem packet_size_iff_two_sectors :
    (∃ ws, sendFirmware record [] twoSectors = .ok ws ∧
      ∀ w ∈ ws, w.characteristic = .recvFw → w.packet.length ≤ 514) ∧
    ∃ ws, sendFirmware record [] (List.replicate 1021 7) = .ok ws ∧
      ¬ ∀ w ∈ ws, w.characteristic = .recvFw → w.packet.length ≤ 514 := by
  constructor
  · obtain ⟨ws, hsend, hiff⟩ := packet_size_iff twoSectors twoSectors_fits
    refine ⟨ws, hsend, hiff.mpr ?_⟩
    rw [LastSectorFits, twoSectors, List.length_replicate]
    decide
  · have hlen : (List.replicate 1021 (7 : UInt8)).length ≤ maxSize := by rw [List.length_replicate]; decide
    obtain ⟨ws, hsend, hiff⟩ := packet_size_iff (List.replicate 1021 7) hlen
    refine ⟨ws, hsend, mt hiff.mp ?_⟩
    rw [LastSectorFits, List.length_replicate]
    decide

/-- A file of 510 bytes: its one package has 3 + 510 + 2 bytes. -/
theorem packet_too_long :
    ¬ ∀ firmware : Bytes, firmware.length ≤ maxSize → ∀ ws, sendFirmware record [] firmware = .ok ws →
      ∀ w ∈ ws, w.characteristic = .recvFw → w.packet.length ≤ 514 := by
  intro h
  have hlen : (List.replicate 510 (0 : UInt8)).length ≤ maxSize := by rw [List.length_replicate]; decide
  have hfits := (script_fits_iff (List.replicate 510 0)).mp (h _ hlen _ ?_)
  · rw [LastSectorFits, List.length_replicate] at hfits
    exact absurd hfits (by decide)
  · rw [sendFirmware_eq record hlen, foldlM_record, List.nil_append]

end EspOta.Ble
