/-
The digests the Wi-Fi updater logs when it starts, `boot.c`. What is logged
can be read back to what the array holds (`sha256_logged`), which is no digest
when `esp_partition_get_sha256` failed: nobody looks at what it returns.
-/
import EspOta.Esp
import EspOta.Lib.Hex

namespace EspOta.Wifi

open Lib

abbrev hashLen : Nat := 32

/-- `uint8_t sha_256[HASH_LEN]`. -/
abbrev Sha256 := CArray hashLen

/-- `char hash_print[HASH_LEN * 2 + 1]`. -/
abbrev HashPrint := CArray (hashLen * 2 + 1)

/-- `sprintf(&hash_print[i * 2], "%02x", image_hash[i])`. -/
def printByte (imageHash : Sha256) (hashPrint : HashPrint) (i : Nat) : Option HashPrint :=
  hashPrint.writeAt? (i * 2) (hexByte (imageHash.get i) ++ [0])

/-- `print_sha256`: what it logs, unless a byte would be written outside `hash_print`, which the stack held. -/
def printSha256 (hashPrint : HashPrint) (imageHash : Sha256) (label : String) : Option (String × CString) := do
  let hashPrint ← hashPrint.writeAt? (hashLen * 2) [0]
  let hashPrint ← (List.range hashLen).foldlM (printByte imageHash) hashPrint
  let text ← hashPrint.read?
  return (label, text)

/-- `esp_partition_get_sha256` of one partition: what it answers, and what it leaves in the array it is given. -/
abbrev GetSha256 := Sha256 → EspErr × Sha256

/-- `get_sha256_of_partitions`. -/
def getSha256OfPartitions (hashPrint hashPrint' : HashPrint) (bootloader running : GetSha256) :
    Option (List (String × CString)) := do
  let sha256 : Sha256 := .zero _
  let (_, sha256) := bootloader sha256
  let first ← printSha256 hashPrint sha256 "SHA-256 for bootloader: "
  let (_, sha256) := running sha256
  let second ← printSha256 hashPrint' sha256 "SHA-256 for current firmware: "
  return [first, second]

/-- After `k` passes: the digits of as many bytes, and a NUL at the end of the array. -/
structure Printed (imageHash : Sha256) (k : Nat) (hashPrint : HashPrint) (rest : List UInt8) : Prop where
  bytes : hashPrint.bytes = hex (imageHash.bytes.take k) ++ rest
  length : rest.length = 2 * (hashLen - k) + 1
  last : rest.getLast? = some 0

theorem printByte_printed {imageHash : Sha256} {k : Nat} {hashPrint : HashPrint} {rest : List UInt8}
    (h : Printed imageHash k hashPrint rest) (hk : k < hashLen) :
    ∃ hashPrint' rest', printByte imageHash hashPrint k = some hashPrint' ∧
      Printed imageHash (k + 1) hashPrint' rest' := by
  have hlen := imageHash.length_eq
  have hfront : (hex (imageHash.bytes.take k)).length = k * 2 := by
    rw [hex_length, List.length_take, hlen, Nat.min_eq_left (Nat.le_of_lt hk), Nat.mul_comm]
  have htake : imageHash.bytes.take (k + 1) = imageHash.bytes.take k ++ [imageHash.get k] := by
    rw [List.take_add_one, List.getElem?_eq_getElem (by omega)]
    simp [CArray.get, List.getElem?_eq_getElem (hlen.symm ▸ hk)]
  have hroom : (hexByte (imageHash.get k) ++ [0]).length ≤ rest.length := by
    rw [h.length]
    simp only [hexByte, List.length_append, List.length_cons, List.length_nil]
    omega
  obtain ⟨hashPrint', hprint, hbytes⟩ := CArray.writeAt?_append h.bytes hroom
  rw [hfront] at hprint
  refine ⟨hashPrint', 0 :: rest.drop 3, hprint, ?_, ?_, ?_⟩
  · rw [hbytes, htake, hex_append]
    simp [hexByte]
  · simp only [List.length_cons, List.length_drop, h.length]
    omega
  · rw [List.getLast?_cons, List.getLast?_drop, h.last]
    split <;> rfl

/-- The loop, pass after pass. -/
theorem printed_loop {imageHash : Sha256} {hashPrint : HashPrint} {rest : List UInt8}
    (h : Printed imageHash 0 hashPrint rest) {k : Nat} (hk : k ≤ hashLen) :
    ∃ hashPrint' rest', (List.range k).foldlM (printByte imageHash) hashPrint = some hashPrint' ∧
      Printed imageHash k hashPrint' rest' := by
  induction k with
  | zero => exact ⟨hashPrint, rest, rfl, h⟩
  | succ k ih =>
    obtain ⟨hashPrint', rest', hrun, hprinted⟩ := ih (Nat.le_of_succ_le hk)
    obtain ⟨hashPrint'', rest'', hbyte, hprinted'⟩ := printByte_printed hprinted hk
    refine ⟨hashPrint'', rest'', ?_, hprinted'⟩
    simp [List.range_succ, List.foldlM_append, hrun, hbyte]

/-- **`print_sha256` stays in its array and logs the digest**, whatever was on the stack. -/
theorem printSha256_eq (hashPrint : HashPrint) (imageHash : Sha256) (label : String) :
    printSha256 hashPrint imageHash label =
      some (label, ⟨hex imageHash.bytes, zero_not_mem_hex imageHash.bytes⟩) := by
  have hfull := hashPrint.length_eq
  have hfront : (hashPrint.bytes.take (hashLen * 2)).length = hashLen * 2 := by simp [hfull]
  have hroom : [(0 : UInt8)].length ≤ (hashPrint.bytes.drop (hashLen * 2)).length := by simp [hfull]
  obtain ⟨terminated, hterm, hbytes⟩ :=
    CArray.writeAt?_append (List.take_append_drop (hashLen * 2) hashPrint.bytes).symm hroom
  rw [hfront] at hterm
  have hprinted : Printed imageHash 0 terminated terminated.bytes := by
    refine ⟨rfl, terminated.length_eq, ?_⟩
    have hnone : hashPrint.bytes.drop (hashLen * 2 + 1) = [] := List.drop_eq_nil_of_le (Nat.le_of_eq hfull)
    rw [hbytes, List.drop_drop, List.length_singleton, hnone]
    simp
  obtain ⟨hashPrint', rest, hrun, h⟩ := printed_loop hprinted (Nat.le_refl hashLen)
  have hrest : rest = [0] := by
    obtain ⟨b, rfl⟩ := List.length_eq_one_iff.mp h.length
    exact congrArg (fun b => [b]) (Option.some.inj h.last)
  have htext : hashPrint'.read? = some ⟨hex imageHash.bytes, zero_not_mem_hex imageHash.bytes⟩ := by
    have hall : hashPrint'.bytes = hex imageHash.bytes ++ [0] := by
      rw [h.bytes, hrest, List.take_of_length_le (by rw [imageHash.length_eq])]
    rw [CArray.read?, if_pos (by simp [hall]), hall]
    exact congrArg some (CString.ofTerminated_append ⟨hex imageHash.bytes, zero_not_mem_hex imageHash.bytes⟩ [])
  simp [printSha256, hterm, hrun, htext]

theorem print_length (sha256 : Sha256) : (hex sha256.bytes).length = 64 :=
  (hex_length _).trans (congrArg (2 * ·) sha256.length_eq)

/-- **What is logged can be read back.** Nothing is written outside `hash_print`, whatever it held, and the two texts
logged are what the array holds after the one and after the other call, failed or not. -/
theorem sha256_logged (hashPrint hashPrint' : HashPrint) (bootloader running : GetSha256) :
    ∃ first second : CString,
      getSha256OfPartitions hashPrint hashPrint' bootloader running =
        some [("SHA-256 for bootloader: ", first), ("SHA-256 for current firmware: ", second)] ∧
      first.bytes.length = 64 ∧ second.bytes.length = 64 ∧
      fromHex first.bytes = some (bootloader (.zero _)).2.bytes ∧
      fromHex second.bytes = some (running (bootloader (.zero _)).2).2.bytes := by
  refine ⟨⟨_, zero_not_mem_hex (bootloader (.zero _)).2.bytes⟩,
    ⟨_, zero_not_mem_hex (running (bootloader (.zero _)).2).2.bytes⟩, ?_, print_length _, print_length _,
    fromHex_hex _, fromHex_hex _⟩
  simp [getSha256OfPartitions, printSha256_eq]

end EspOta.Wifi
