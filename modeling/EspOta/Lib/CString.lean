/-
C strings in arrays of fixed size. `strncpy?` and `strcpy?` are the library
functions where every byte they write is inside the array, and `none`
where one is not; `read?` is the string an array holds, and `none` where a
reader finds no NUL inside it.

* `get_strncpy`: every byte of the array after a `strncpy`.
* `read?_strncpy`, `read?_strcpy`: a string copied is read back.
* `read?_isSome`: an array holds a string just when it has a NUL.
-/
import Mathlib.Data.List.TakeWhile

namespace EspOta.Lib

/-- The bytes of a string before its terminating NUL. -/
structure CString where
  bytes : List UInt8
  noNul : 0 ∉ bytes
  deriving DecidableEq, Repr

namespace CString

/-- The string at the front of some bytes that have a NUL. -/
def ofTerminated (bs : List UInt8) : CString :=
  ⟨bs.takeWhile (· ≠ 0), fun h => by simpa using List.mem_takeWhile_imp h⟩

theorem ofTerminated_append (s : CString) (rest : List UInt8) : ofTerminated (s.bytes ++ 0 :: rest) = s := by
  obtain ⟨bs, h⟩ := s
  have hne : ∀ b ∈ bs, decide (b ≠ 0) = true := fun b hb => decide_eq_true fun h0 => h (h0 ▸ hb)
  simp only [ofTerminated, mk.injEq]
  rw [List.takeWhile_append_of_pos hne]
  simp

/-- Whether `strncmp(s, t, n)` is zero: the strings agree in their first `n` bytes, or up to their NULs. -/
def strncmp (s t : CString) (n : Nat) : Bool := (s.bytes ++ [0]).take n = (t.bytes ++ [0]).take n

end CString

/-- `char a[n]`. -/
structure CArray (n : Nat) where
  bytes : List UInt8
  length_eq : bytes.length = n
  deriving DecidableEq, Repr

namespace CArray

variable {n : Nat}

/-- An array of NULs, as a global has before anything writes it. -/
def zero (n : Nat) : CArray n := ⟨List.replicate n 0, List.length_replicate⟩

/-- The byte at `i`; past the end, where no reader gets, NUL. -/
def get (a : CArray n) (i : Nat) : UInt8 := a.bytes.getD i 0

/-- `src` over the front of the array. -/
def write? (a : CArray n) (src : List UInt8) : Option (CArray n) :=
  if h : src.length ≤ n then some ⟨src ++ a.bytes.drop src.length, by simp [a.length_eq, h]⟩ else none

/-- The bytes `strncpy` writes for `src` and its length: `src` up to its first NUL, then NULs. -/
def padded (src : List UInt8) : List UInt8 := (src.takeWhile (· ≠ 0)).rightpad src.length 0

/-- `strncpy(a, src, src.length)`. -/
def strncpy? (a : CArray n) (src : List UInt8) : Option (CArray n) := a.write? (padded src)

/-- `strcpy(a, s)`. -/
def strcpy? (a : CArray n) (s : CString) : Option (CArray n) := a.write? (s.bytes ++ [0])

/-- The string the array holds. -/
def read? (a : CArray n) : Option CString := if 0 ∈ a.bytes then some (.ofTerminated a.bytes) else none

theorem write?_isSome {a : CArray n} {src : List UInt8} : (a.write? src).isSome ↔ src.length ≤ n := by
  unfold write?
  split <;> simp_all

theorem get_write {a a' : CArray n} {src : List UInt8} (h : a.write? src = some a') (i : Nat) :
    a'.get i = if i < src.length then src.getD i 0 else a.get i := by
  unfold write? at h
  split at h
  · cases h
    simp only [get, List.getD_eq_getElem?_getD, List.getElem?_append]
    split
    · rfl
    · rw [List.getElem?_drop, Nat.add_sub_cancel' (by omega)]
  · cases h

theorem takeWhile_length_le (src : List UInt8) : (src.takeWhile (· ≠ 0)).length ≤ src.length :=
  (List.takeWhile_prefix _).length_le

@[simp] theorem padded_length (src : List UInt8) : (padded src).length = src.length := by
  have := takeWhile_length_le src
  simp only [padded, List.rightpad, List.length_append, List.length_replicate]
  omega

theorem strncpy?_isSome {a : CArray n} {src : List UInt8} : (a.strncpy? src).isSome ↔ src.length ≤ n := by
  rw [strncpy?, write?_isSome, padded_length]

theorem strcpy?_isSome {a : CArray n} {s : CString} : (a.strcpy? s).isSome ↔ s.bytes.length < n := by
  rw [strcpy?, write?_isSome, List.length_append, List.length_singleton]
  exact Nat.succ_le_iff

/-- A byte of `src` is copied unless there is a NUL at it or before it. -/
theorem padded_getD {src : List UInt8} {i : Nat} (hi : i < src.length) :
    (padded src).getD i 0 = if 0 ∈ src.take (i + 1) then 0 else src.getD i 0 := by
  induction src generalizing i with
  | nil => simp at hi
  | cons b src ih =>
    by_cases hb : b = 0
    · subst hb
      have hi' : i < src.length + 1 := by simpa using hi
      simp [padded, List.rightpad, hi']
    · cases i with
      | zero => simp [padded, hb, Ne.symm hb]
      | succ i =>
        have hrec := ih (i := i) (by simpa using hi)
        simp only [padded, List.rightpad] at hrec ⊢
        simpa [hb, Ne.symm hb] using hrec

/-- **Every byte after a `strncpy`.** -/
theorem get_strncpy {a a' : CArray n} {src : List UInt8} (h : a.strncpy? src = some a') (i : Nat) :
    a'.get i = if i < src.length then (if 0 ∈ src.take (i + 1) then 0 else src.getD i 0) else a.get i := by
  rw [get_write h, padded_length]
  split
  · exact padded_getD ‹_›
  · rfl

theorem write?_bytes {a a' : CArray n} {src : List UInt8} (h : a.write? src = some a') :
    a'.bytes = src ++ a.bytes.drop src.length := by
  unfold write? at h
  split at h
  · cases h; rfl
  · cases h

theorem padded_of_noNul {src : List UInt8} (h : 0 ∉ src) : padded src = src := by
  have htake : src.takeWhile (· ≠ 0) = src :=
    List.takeWhile_eq_self_iff.mpr fun b hb => decide_eq_true fun h0 => h (h0 ▸ hb)
  rw [padded, htake, List.rightpad, Nat.sub_self, List.replicate_zero, List.append_nil]

theorem bytes_eq_map_get (a : CArray n) : a.bytes = (List.range n).map a.get := by
  refine List.ext_getElem (by simp [a.length_eq]) fun i h₁ h₂ => ?_
  simp [get, List.getElem?_eq_getElem h₁]

/-- **An array holds a string just when it has a NUL.** -/
theorem read?_isSome {a : CArray n} : a.read?.isSome ↔ ∃ i < n, a.get i = 0 := by
  have hmem : 0 ∈ a.bytes ↔ ∃ i < n, a.get i = 0 := by rw [bytes_eq_map_get]; simp
  rw [← hmem, read?]
  split <;> simp_all

/-- **What `strncpy` copies is read back**, when it has no NUL and the array has one right after it. -/
theorem read?_strncpy {a a' : CArray n} {s : CString} (h : a.strncpy? s.bytes = some a')
    (hlt : s.bytes.length < n) (hterm : a.get s.bytes.length = 0) : a'.read? = some s := by
  have hlen : s.bytes.length < a.bytes.length := a.length_eq.symm ▸ hlt
  have hb := write?_bytes h
  rw [padded_of_noNul s.noNul, List.drop_eq_getElem_cons hlen] at hb
  have hzero : a.bytes[s.bytes.length] = 0 := by simpa [get, hlen] using hterm
  rw [hzero] at hb
  rw [read?, if_pos (by simp [hb]), hb, CString.ofTerminated_append]

/-- Bytes copied to an array of NULs are read back up to their first NUL. -/
theorem read?_strncpy_zero {a : CArray n} {src : List UInt8} (h : (zero n).strncpy? src = some a)
    (hlt : src.length < n) : a.read? = some (.ofTerminated src) := by
  have hb := write?_bytes h
  have htake := takeWhile_length_le src
  have hzeros : a.bytes = (CString.ofTerminated src).bytes ++
      0 :: List.replicate (n - (src.takeWhile (· ≠ 0)).length - 1) 0 := by
    rw [hb, padded_length, padded, List.rightpad, zero, List.drop_replicate, List.append_assoc,
      List.replicate_append_replicate, ← List.replicate_succ]
    congr 2
    omega
  rw [read?, if_pos (by simp [hzeros]), hzeros, CString.ofTerminated_append]

/-- `src` from `i` on. -/
def writeAt? (a : CArray n) (i : Nat) (src : List UInt8) : Option (CArray n) :=
  if h : i + src.length ≤ n then
    some ⟨a.bytes.take i ++ src ++ a.bytes.drop (i + src.length), by simp [a.length_eq]; omega⟩
  else none

/-- Bytes written after the front of an array, over the front of the rest. -/
theorem writeAt?_append {a : CArray n} {front rest src : List UInt8} (h : a.bytes = front ++ rest)
    (hlen : src.length ≤ rest.length) :
    ∃ a', a.writeAt? front.length src = some a' ∧ a'.bytes = front ++ src ++ rest.drop src.length := by
  have hn := a.length_eq
  rw [h, List.length_append] at hn
  refine ⟨⟨front ++ src ++ rest.drop src.length, ?_⟩, ?_, rfl⟩
  · simp only [List.length_append, List.length_drop]
    omega
  · rw [writeAt?, dif_pos (by omega)]
    simp [h]

/-- **What `strcpy` copies is read back.** -/
theorem read?_strcpy {a a' : CArray n} {s : CString} (h : a.strcpy? s = some a') : a'.read? = some s := by
  have hb := write?_bytes h
  rw [List.append_assoc, List.singleton_append] at hb
  rw [read?, if_pos (by simp [hb]), hb, CString.ofTerminated_append]

end CArray

end EspOta.Lib
