/-
Byte strings on a wire: numbers in a fixed number of little-endian bytes,
and a string cut into blocks of one size, the last one shorter.

* `ofLe_packLe`: a number that fits is read back.
* `flatten_blocks`: the blocks, one after the other, are the string.
-/
import Mathlib.Data.List.Basic
import Mathlib.Tactic.Ring

namespace EspOta.Lib

/-! ## Little-endian numbers -/

/-- `v` in `n` bytes, least significant first; what does not fit is lost. -/
def packLe (n v : Nat) : List UInt8 := (List.range n).map fun i => UInt8.ofNat (v / 256 ^ i)

/-- The number whose little-endian bytes these are. -/
def ofLe (bs : List UInt8) : Nat := bs.foldr (fun b v => b.toNat + 256 * v) 0

@[simp] theorem packLe_length (n v : Nat) : (packLe n v).length = n := by simp [packLe]

@[simp] theorem packLe_zero (v : Nat) : packLe 0 v = [] := rfl

theorem packLe_succ (n v : Nat) : packLe (n + 1) v = UInt8.ofNat v :: packLe n (v / 256) := by
  simp [packLe, List.range_succ_eq_map, Nat.div_div_eq_div_mul, Nat.pow_succ', Function.comp_def]

theorem ofLe_cons (b : UInt8) (bs : List UInt8) : ofLe (b :: bs) = b.toNat + 256 * ofLe bs := rfl

/-- **A number that fits is read back** from its bytes. -/
theorem ofLe_packLe {n : Nat} : ∀ {v : Nat}, v < 256 ^ n → ofLe (packLe n v) = v := by
  induction n with
  | zero => intro v h; simp only [Nat.pow_zero] at h; simp [ofLe]; omega
  | succ n ih =>
    intro v h
    have hv : v / 256 < 256 ^ n := by rw [Nat.pow_succ'] at h; exact Nat.div_lt_of_lt_mul h
    rw [packLe_succ, ofLe_cons, ih hv, UInt8.toNat_ofNat']
    exact Nat.mod_add_div v 256

/-! ## Blocks -/

variable {α : Type*}

/-- How many blocks of `n` it takes to hold `len`. -/
def blockCount (n len : Nat) : Nat := (len + n - 1) / n

/-- The `i`-th block of `n`. -/
def block (n : Nat) (l : List α) (i : Nat) : List α := l.extract (i * n) (i * n + n)

theorem block_eq (n : Nat) (l : List α) (i : Nat) : block n l i = (l.drop (i * n)).take n := by
  simp [block, List.extract_eq_take_drop]

theorem block_length (n : Nat) (l : List α) (i : Nat) : (block n l i).length = min n (l.length - i * n) := by
  simp [block_eq]

theorem lt_blockCount {n len i : Nat} (hn : 0 < n) : i < blockCount n len ↔ i * n < len := by
  rw [blockCount, ← Nat.succ_le_iff, Nat.le_div_iff_mul_le hn, Nat.succ_mul]
  omega

theorem block_length_pos {n i : Nat} {l : List α} (hn : 0 < n) (h : i < blockCount n l.length) :
    0 < (block n l i).length := by
  have := (lt_blockCount hn).mp h
  rw [block_length]; omega

/-- The first `k` blocks are the string as far as they reach. -/
theorem flatten_blocks_take (n : Nat) (l : List α) (k : Nat) :
    ((List.range k).map (block n l)).flatten = l.take (k * n) := by
  induction k with
  | zero => simp
  | succ k ih =>
    rw [List.range_succ, List.map_append, List.flatten_append, ih, Nat.succ_mul, List.take_add, ← block_eq]
    simp

/-- **The blocks of a string, one after the other, are the string.** -/
theorem flatten_blocks {n : Nat} (hn : 0 < n) (l : List α) :
    ((List.range (blockCount n l.length)).map (block n l)).flatten = l := by
  rw [flatten_blocks_take, List.take_of_length_le]
  by_contra h
  exact absurd ((lt_blockCount hn).mpr (Nat.lt_of_not_le h)) (Nat.lt_irrefl _)

end EspOta.Lib
