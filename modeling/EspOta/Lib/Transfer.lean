/-
A transfer of a byte string in order, abstractly: how much of it is across,
never more than there is. What a device that hands the bytes out, a device
that takes them in, and a stream between two devices have in common.

`got_advance` is the one law the rest rests on: what is across after a move
is what was across before, followed by the next bytes.
-/
import Mathlib.Data.List.Basic

namespace EspOta.Lib

variable {α : Type*}

/-- A transfer of `l` with `moved` items across. -/
@[ext] structure Transfer (l : List α) where
  moved : Nat
  le : moved ≤ l.length

namespace Transfer

variable {l : List α}

/-- Nothing across yet. -/
def start (l : List α) : Transfer l := ⟨0, Nat.zero_le _⟩

/-- What is across. -/
def got (t : Transfer l) : List α := l.take t.moved

/-- The next `n` items, or what is left when there are fewer. -/
def next (t : Transfer l) (n : Nat) : List α := (l.drop t.moved).take n

/-- Move `n` more items. -/
def advance (t : Transfer l) (n : Nat) (h : t.moved + n ≤ l.length) : Transfer l := ⟨t.moved + n, h⟩

/-- The place of the next item; back at the front when there is none. -/
def cursor (t : Transfer l) : Nat := t.moved % l.length

@[simp] theorem start_moved : (start l).moved = 0 := rfl
@[simp] theorem start_got : (start l).got = [] := List.take_zero
@[simp] theorem advance_moved (t : Transfer l) (n : Nat) (h) : (t.advance n h).moved = t.moved + n := rfl

theorem got_advance (t : Transfer l) (n : Nat) (h) : (t.advance n h).got = t.got ++ t.next n :=
  List.take_add

theorem got_prefix (t : Transfer l) : t.got <+: l := List.take_prefix _ _

theorem next_length (t : Transfer l) (n : Nat) (h : t.moved + n ≤ l.length) :
    (t.next n).length = n := by simp [next]; omega

theorem got_eq_of_moved (t : Transfer l) (h : t.moved = l.length) : t.got = l := by
  rw [got, h, List.take_length]

theorem cursor_of_lt {t : Transfer l} (h : t.moved < l.length) : t.cursor = t.moved := Nat.mod_eq_of_lt h

theorem cursor_of_eq {t : Transfer l} (h : t.moved = l.length) : t.cursor = 0 := by
  rw [cursor, h, Nat.mod_self]

@[simp] theorem start_cursor : (start l).cursor = 0 := Nat.zero_mod _

/-- The front is the next place only before the first item and after the last. -/
theorem cursor_eq_zero_iff {t : Transfer l} : t.cursor = 0 ↔ t.moved = 0 ∨ t.moved = l.length := by
  rcases Nat.lt_or_eq_of_le t.le with h | h
  · rw [cursor_of_lt h]; omega
  · rw [cursor_of_eq h]; omega

end Transfer

end EspOta.Lib
