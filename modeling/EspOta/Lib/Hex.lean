/-
Bytes in hexadecimal, as `%02x` writes them: two lower-case digits each, the
high half first. They are read back (`fromHex_hex`).
-/
import EspOta.Lib.CString

namespace EspOta.Lib

def hexDigit (d : Nat) : UInt8 := UInt8.ofNat (if d < 10 then 48 + d else 87 + d)

def digitValue? (c : UInt8) : Option Nat :=
  if 48 ≤ c.toNat ∧ c.toNat ≤ 57 then some (c.toNat - 48)
  else if 97 ≤ c.toNat ∧ c.toNat ≤ 102 then some (c.toNat - 87)
  else none

def hexByte (b : UInt8) : List UInt8 := [hexDigit (b.toNat / 16), hexDigit (b.toNat % 16)]

def hex (bs : List UInt8) : List UInt8 := bs.flatMap hexByte

/-- Two digits after the other; an odd one, and anything but a digit, is no hexadecimal. -/
def fromHex : List UInt8 → Option (List UInt8)
  | [] => some []
  | [_] => none
  | c :: d :: cs =>
    match digitValue? c, digitValue? d, fromHex cs with
    | some x, some y, some bs => some (UInt8.ofNat (16 * x + y) :: bs)
    | _, _, _ => none

theorem digitValue_hexDigit : ∀ d < 16, digitValue? (hexDigit d) = some d := by decide

theorem hexDigit_ne_zero : ∀ d < 16, hexDigit d ≠ 0 := by decide

@[simp] theorem hex_nil : hex [] = [] := rfl

@[simp] theorem hex_cons (b : UInt8) (bs : List UInt8) : hex (b :: bs) = hexByte b ++ hex bs := rfl

theorem hex_append (bs cs : List UInt8) : hex (bs ++ cs) = hex bs ++ hex cs := List.flatMap_append

theorem halves_lt (b : UInt8) : b.toNat / 16 < 16 ∧ b.toNat % 16 < 16 := by
  have hb := b.toNat_lt
  omega

@[simp] theorem hex_length (bs : List UInt8) : (hex bs).length = 2 * bs.length := by
  induction bs with
  | nil => rfl
  | cons b bs ih =>
    simp only [hex_cons, hexByte, List.length_append, List.length_cons, List.length_nil, ih]
    omega

theorem zero_not_mem_hex (bs : List UInt8) : 0 ∉ hex bs := by
  induction bs with
  | nil => simp
  | cons b bs ih =>
    obtain ⟨hhigh, hlow⟩ := halves_lt b
    simp [hexByte, ih, (hexDigit_ne_zero _ hhigh).symm, (hexDigit_ne_zero _ hlow).symm]

/-- **What is written in hexadecimal is read back.** -/
theorem fromHex_hex (bs : List UInt8) : fromHex (hex bs) = some bs := by
  induction bs with
  | nil => rfl
  | cons b bs ih =>
    obtain ⟨hhigh, hlow⟩ := halves_lt b
    have hb : 16 * (b.toNat / 16) + b.toNat % 16 = b.toNat := Nat.div_add_mod b.toNat 16
    simp [hexByte, fromHex, digitValue_hexDigit _ hhigh, digitValue_hexDigit _ hlow, ih, hb]

end EspOta.Lib
