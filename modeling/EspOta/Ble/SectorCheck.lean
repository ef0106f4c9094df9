/-
The strength of the check of a sector.

A register shifting on its own by the polynomial of `crc16` comes back after
32767 bits, and a full sector has 32768. So every error of one bit, of two
bits, or within sixteen consecutive bits changes the check value, but for
one: the first and the last bit of a full sector. A receiver that hears the
packages of a sector with such an error refuses it.
-/
import EspOta.Lib.CrcErrors
import EspOta.Ble.SenderFormat
import Mathlib.Tactic.NormNum.Prime

namespace EspOta.Ble

open Lib

/-! ## The period -/

/-- The generator of `crc16` without its leading term. -/
def crc16Poly : BitVec 16 := 0x1021#16

theorem crc16Poly_odd : crc16Poly.getLsbD 0 = true := by decide

theorem crc16Poly_period_iff {n : Nat} (ds : List Bool) (h : digitsNumber ds = n) :
    Function.IsPeriodicPt (shift crc16Poly) n crc16Poly ↔
      times crc16Poly crc16Poly (shiftsOfOne crc16Poly ds) = crc16Poly := by
  rw [← h, isPeriodicPt_shift_iff]

/-- 32767 = 7 · 31 · 151 is a period, and none of its quotients by the three is one. -/
theorem crc16Poly_minimalPeriod : Function.minimalPeriod (shift crc16Poly) crc16Poly = 32767 := by
  refine minimalPeriod_eq_of_div_prime
    ((crc16Poly_period_iff (List.replicate 15 true) (by decide)).mpr (by decide +kernel)) ?_
  intro p hp hdvd
  have hfactor : 32767 = 7 * 31 * 151 := by norm_num
  rw [hfactor, hp.dvd_mul, hp.dvd_mul, Nat.prime_dvd_prime_iff_eq hp (by norm_num),
    Nat.prime_dvd_prime_iff_eq hp (by norm_num), Nat.prime_dvd_prime_iff_eq hp (by norm_num)] at hdvd
  rcases hdvd with (rfl | rfl) | rfl
  · rw [crc16Poly_period_iff (n := 32767 / 7)
      [true, false, false, true, false, false, true, false, false, true, false, false, true] (by decide)]
    decide +kernel
  · rw [crc16Poly_period_iff (n := 32767 / 31)
      [true, false, false, false, false, true, false, false, false, false, true] (by decide)]
    decide +kernel
  · rw [crc16Poly_period_iff (n := 32767 / 151) [true, true, false, true, true, false, false, true] (by decide)]
    decide +kernel

/-! ## Few errors -/

/-- One bit, two bits at any distance, or any bits within sixteen consecutive places. -/
def FewErrors (es : List Bool) : Prop := es.count true = 1 ∨ es.count true = 2 ∨ InWindow 16 es

/-- The first and the last bit of a full sector; a shorter one has not as many bits. -/
def extremeBits : List Bool := true :: (List.replicate (8 * sectorSize - 2) false ++ [true])

theorem extremeBits_count : extremeBits.count true = 2 := by
  simp [extremeBits, List.count_append, List.count_replicate]

theorem extremeBits_length : extremeBits.length = 8 * sectorSize := by
  have hcount : 8 * sectorSize - 2 + 1 + 1 = 8 * sectorSize := by decide
  rw [extremeBits, List.length_cons, List.length_append, List.length_replicate, List.length_singleton, hcount]

theorem crcBits_extremeBits : crcBits crc16Poly 0#16 extremeBits = 0#16 :=
  (crcBits_two crc16Poly_odd crc16Poly_minimalPeriod extremeBits_count
    (Nat.le_of_eq extremeBits_length)).mpr rfl

theorem crcBits_few {es : List Bool} (hlen : es.length ≤ 8 * sectorSize) (htrue : true ∈ es)
    (h : FewErrors es) : crcBits crc16Poly 0#16 es = 0#16 ↔ es = extremeBits := by
  constructor
  · intro hzero
    rcases h with h | h | h
    · exact absurd hzero (crcBits_one crc16Poly_odd h)
    · exact (crcBits_two crc16Poly_odd crc16Poly_minimalPeriod h hlen).mp hzero
    · exact absurd hzero (crcBits_window crc16Poly_odd h htrue)
  · intro h
    rw [h, crcBits_extremeBits]

section
variable {sector other : Bytes} (hlen : other.length = sector.length)
include hlen

theorem crc16_eq_iff :
    crc16 other = crc16 sector ↔ crcBits crc16Poly 0#16 (differences other sector) = 0#16 := by
  rw [crc16, crc16, BitVec.toNat_inj]
  exact crc_eq_iff hlen _ _

theorem crc16_few (hsize : sector.length ≤ sectorSize) (hne : other ≠ sector)
    (hfew : FewErrors (differences other sector)) :
    crc16 other = crc16 sector ↔ differences other sector = extremeBits := by
  have hbits : (differences other sector).length ≤ 8 * sectorSize := by
    rw [differences_length hlen, hlen]
    exact Nat.mul_le_mul_left 8 hsize
  rw [crc16_eq_iff hlen]
  exact crcBits_few hbits (true_mem_differences hlen hne) hfew

end

/-! ## The receiver of such a sector -/

/-- What the packages of the `i`-th sector carry when `other` arrives in the sector's place. -/
def replacedPayload (i : Nat) (sector other : Bytes) : Bytes :=
  other ++ ((sectorPackets i sector).flatMap packetPayload).drop sector.length

/-- The packages `ps` and then `q` are those of the sector awaited, and `data` is their payload. -/
structure Download.Hears (d : Download) (ps : List Bytes) (q data : Bytes) : Prop where
  fresh : d.buffer = []
  continues : ∀ p ∈ ps, d.Continues p
  ends : d.Ends q
  payload : (ps ++ [q]).flatMap packetPayload = data

theorem Download.Hears.receive {d : Download} {ps : List Bytes} {q data : Bytes} (h : d.Hears ps q data) :
    (d.receivePackets ps).receivePacket q =
      (({ d with buffer := data } : Download).close.1,
        [.ack d.expected ({ d with buffer := data } : Download).close.2]) := by
  have hdata : ps.flatMap packetPayload ++ packetPayload q = data := by
    simpa [List.flatMap_append] using h.payload
  have hlong : ¬ q.length < 3 := Nat.not_lt.mpr h.ends.length
  have hexpected : ({ d with buffer := ps.flatMap packetPayload } : Download).expected = d.expected := rfl
  rw [receive_continues h.continues, h.fresh, List.nil_append]
  simp [receivePacket, hlong, hexpected, h.ends.index, h.ends.seq, hdata]

theorem replacedPayload_eq {i : Nat} (hi : i < 256 ^ 2) {sector : Bytes} (hpos : 0 < sector.length)
    (hsize : sector.length ≤ sectorSize) (other : Bytes) :
    replacedPayload i sector other = (other ++ sectorPadding sector) ++ packLe 2 (crc16 sector) := by
  rw [replacedPayload, payloads_eq hi hpos hsize, List.append_assoc, List.drop_left, List.append_assoc]

/-- **A sector with another's check value** is refused, and waited for again. -/
theorem Download.Hears.refuse {d : Download} {ps : List Bytes} {q : Bytes} {i : Nat} {sector other : Bytes}
    (h : d.Hears ps q (replacedPayload i sector other)) (hi : i < 256 ^ 2) (hpos : 0 < sector.length)
    (hsize : sector.length ≤ sectorSize) (hawaited : d.awaited = sector.length)
    (hlen : other.length = sector.length) (hcrc : crc16 other ≠ crc16 sector) :
    (d.receivePackets ps).receivePacket q = (d, [.ack d.expected .crcError]) := by
  have hpayload := replacedPayload_eq hi hpos hsize other
  have hbody : sectorBody (replacedPayload i sector other) = other ++ sectorPadding sector := by
    rw [hpayload, sectorBody]
    exact List.take_left' (by simp; omega)
  have hsum : sectorCrc (replacedPayload i sector other) = crc16 sector := by
    have hdrop : (replacedPayload i sector other).drop ((replacedPayload i sector other).length - 2) =
        packLe 2 (crc16 sector) := by
      rw [hpayload]
      exact List.drop_left' (by simp; omega)
    rw [sectorCrc, hdrop, ofLe_packLe (crc16_lt sector)]
  have hwaits : ({ d with buffer := replacedPayload i sector other } : Download).awaited = sector.length :=
    hawaited
  have hlong : ¬ (sector.length = 0 ∨ (other ++ sectorPadding sector).length < sector.length) := by
    rw [List.length_append]
    omega
  have htake : (other ++ sectorPadding sector).take sector.length = other := List.take_left' hlen
  rw [h.receive]
  simp only [close, hwaits, hbody, hsum, htake]
  rw [if_neg hlong, if_pos (Ne.symm hcrc)]
  simp [← h.fresh]

/-- **The check of a sector tells apart** all that differ in one bit, in two bits or within sixteen
consecutive bits, but for the first and last bit of a full sector; the receiver refuses what it tells apart. -/
theorem sector_check {sector other : Bytes} (hsize : sector.length ≤ sectorSize)
    (hlen : other.length = sector.length) (hne : other ≠ sector) (hfew : FewErrors (differences other sector)) :
    (crc16 other ≠ crc16 sector ↔ differences other sector ≠ extremeBits) ∧
      ∀ (i : Nat) (d : Download) (ps : List Bytes) (q : Bytes), i < 256 ^ 2 → d.awaited = sector.length →
        d.Hears ps q (replacedPayload i sector other) → differences other sector ≠ extremeBits →
        (d.receivePackets ps).receivePacket q = (d, [.ack d.expected .crcError]) := by
  have hcheck := crc16_few hlen hsize hne hfew
  have hpos : 0 < sector.length := by
    rcases Nat.eq_zero_or_pos sector.length with hzero | hpos
    · rw [hzero] at hlen
      rw [List.length_eq_zero_iff.mp hlen, List.length_eq_zero_iff.mp hzero] at hne
      exact absurd rfl hne
    · exact hpos
  refine ⟨not_congr hcheck, ?_⟩
  intro i d ps q hi hawaited hhears hends
  exact hhears.refuse hi hpos hsize hawaited hlen (fun hcrc => hends (hcheck.mp hcrc))

/-- A sector of two packages, and what arrives of it: one bit of either package is flipped. -/
def zeroSector : Bytes := List.replicate 600 0

def twoFlipped : Bytes := List.replicate 5 0 ++ [0x10] ++ List.replicate 590 0 ++ [0x02] ++ List.replicate 3 0

theorem sector_check_two_packages :
    let data := replacedPayload 0 zeroSector twoFlipped
    let p := packLe 2 0 ++ packLe 1 0 ++ data.take 511
    let q := packLe 2 0 ++ packLe 1 0xFF ++ data.drop 511
    crc16 twoFlipped ≠ crc16 zeroSector ∧
      ((Download.start 600).receivePackets [p]).receivePacket q = (Download.start 600, [.ack 0 .crcError]) := by
  intro data p q
  have hlen : twoFlipped.length = zeroSector.length := by decide +kernel
  have h := sector_check (by rw [zeroSector, List.length_replicate]; decide) hlen (by decide +kernel)
    (.inr (.inl (by decide +kernel)))
  have hends : differences twoFlipped zeroSector ≠ extremeBits := by
    intro heq
    have hcount := congrArg List.length heq
    rw [extremeBits_length, differences_length hlen, hlen, zeroSector, List.length_replicate] at hcount
    exact absurd hcount (by decide)
  obtain ⟨hlong, hindex, hseq, hpayload⟩ := @packet_fields 0 0 (by decide) (by decide) (data.take 511)
  obtain ⟨hlong', hindex', hseq', hpayload'⟩ := @packet_fields 0 0xFF (by decide) (by decide) (data.drop 511)
  have hhears : (Download.start 600).Hears [p] q data := by
    refine ⟨rfl, ?_, ⟨hlong', hindex', hseq'⟩, ?_⟩
    · intro r hr
      rw [List.mem_singleton.mp hr]
      exact ⟨hlong, hindex, by rw [hseq]; decide⟩
    · rw [List.singleton_append, List.flatMap_cons, List.flatMap_singleton, hpayload, hpayload',
        List.take_append_drop]
  exact ⟨h.1.mpr hends, h.2 0 (Download.start 600) [p] q (by decide) (by decide +kernel) hhears hends⟩

/-! ## The first and the last bit of a full sector -/

def zeros : Bytes := List.replicate sectorSize 0

/-- Zeros but for the first and the last bit. -/
def endsFlipped : Bytes := 0x80 :: (List.replicate (sectorSize - 2) 0 ++ [0x01])

theorem flatMap_bitsOf_zeros (n : Nat) :
    (List.replicate n (0 : UInt8)).flatMap bitsOf = List.replicate (8 * n) false := by
  induction n with
  | zero => rfl
  | succ n ih =>
    have hbits : bitsOf 0 = List.replicate 8 false := by decide
    rw [List.replicate_succ, List.flatMap_cons, ih, hbits, List.replicate_append_replicate, Nat.mul_succ,
      Nat.add_comm]

theorem endsFlipped_bits : endsFlipped.flatMap bitsOf = extremeBits := by
  have hfirst : bitsOf 0x80 = true :: List.replicate 7 false := by decide
  have hlast : bitsOf 0x01 = List.replicate 7 false ++ [true] := by decide
  have hcount : 7 + 8 * (sectorSize - 2) + 7 = 8 * sectorSize - 2 := by decide
  rw [endsFlipped, List.flatMap_cons, List.flatMap_append, flatMap_bitsOf_zeros, List.flatMap_singleton, hfirst,
    hlast, extremeBits, ← hcount, List.cons_append, ← List.append_assoc, ← List.append_assoc,
    List.replicate_append_replicate, List.replicate_append_replicate]

theorem zipWith_xor_zeros (bs : List Bool) : List.zipWith xor bs (List.replicate bs.length false) = bs := by
  induction bs with
  | nil => rfl
  | cons b bs ih => rw [List.length_cons, List.replicate_succ, List.zipWith_cons_cons, ih, Bool.xor_false]

theorem endsFlipped_differences : differences endsFlipped zeros = extremeBits := by
  rw [differences, endsFlipped_bits, zeros, flatMap_bitsOf_zeros, ← extremeBits_length, zipWith_xor_zeros]

theorem endsFlipped_length : endsFlipped.length = sectorSize := by
  have hcount : sectorSize - 2 + 1 + 1 = sectorSize := by decide
  rw [endsFlipped, List.length_cons, List.length_append, List.length_replicate, List.length_singleton, hcount]

theorem full_sector_unchecked :
    zeros.length = sectorSize ∧ sectorOf zeros 0 = zeros ∧ endsFlipped.length = zeros.length ∧
      endsFlipped ≠ zeros ∧ (differences endsFlipped zeros).count true = 2 ∧ crc16 endsFlipped = crc16 zeros := by
  have hzeros : zeros.length = sectorSize := List.length_replicate
  have hlen : endsFlipped.length = zeros.length := by rw [endsFlipped_length, hzeros]
  refine ⟨hzeros, ?_, hlen, ?_, ?_, ?_⟩
  · rw [sectorOf, block, Nat.zero_mul, Nat.zero_add, List.extract_eq_take_drop, List.drop_zero]
    exact List.take_of_length_le (Nat.le_of_eq hzeros)
  · intro heq
    have hhead : endsFlipped.head? = zeros.head? := by rw [heq]
    rw [zeros, List.head?_replicate] at hhead
    revert hhead
    decide
  · rw [endsFlipped_differences, extremeBits_count]
  · rw [crc16_eq_iff hlen, endsFlipped_differences, crcBits_extremeBits]

end EspOta.Ble
