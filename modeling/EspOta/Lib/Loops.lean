/-
Loops of programs that may fail: `for x in l`, each pass of which changes a
state or stops the program with an error, is `l.foldlM f s`.

* `foldlM_flatMap`: a loop whose passes are loops is one loop.
* `foldlM_ok_iff`: a loop finishes when every pass does, where that is no matter of the state.
* `foldlM_ne_ok`: a pass that fails whatever the state ends the loop.
-/
import Mathlib.Data.List.Basic

namespace EspOta.Lib

universe u v

variable {ε : Type v} {σ α β : Type u}

theorem ok_bind (a : α) (f : α → Except ε β) : (Except.ok a >>= f) = f a := rfl

theorem error_bind (e : ε) (f : α → Except ε β) : (Except.error e >>= f) = .error e := rfl

theorem bind_eq_ok {x : Except ε α} {f : α → Except ε β} {b : β} :
    (x >>= f) = .ok b ↔ ∃ a, x = .ok a ∧ f a = .ok b := by
  cases x with
  | error e => simp [error_bind]
  | ok a => simp [ok_bind]

/-- `range(0, stop, step)` counts in steps. -/
theorem range'_zero_eq_map (n step : Nat) : List.range' 0 n step = (List.range n).map (· * step) := by
  induction n with
  | zero => rfl
  | succ n ih =>
    rw [List.range'_concat, List.range_succ, List.map_append, ih]
    simp [Nat.mul_comm]

/-- A loop whose passes are themselves loops, over `g x`, is one loop. -/
theorem foldlM_flatMap {f : σ → α → Except ε σ} {f' : σ → β → Except ε σ} {g : α → List β} {l : List α}
    (h : ∀ x ∈ l, ∀ s, f s x = (g x).foldlM f' s) (s : σ) : l.foldlM f s = (l.flatMap g).foldlM f' s := by
  induction l generalizing s with
  | nil => rfl
  | cons x l ih =>
    rw [List.foldlM_cons, List.flatMap_cons, List.foldlM_append, h x (by simp)]
    congr 1
    funext s'
    exact ih (fun y hy => h y (by simp [hy])) s'

/-- A loop finishes just when each of its passes does, where that depends on what is passed alone. -/
theorem foldlM_ok_iff {f : σ → α → Except ε σ} {P : α → Prop} (h : ∀ s x, (∃ s', f s x = .ok s') ↔ P x)
    {l : List α} {s : σ} : (∃ s', l.foldlM f s = .ok s') ↔ ∀ x ∈ l, P x := by
  induction l generalizing s with
  | nil => simp [pure, Except.pure]
  | cons x l ih =>
    simp only [List.foldlM_cons, bind_eq_ok, List.forall_mem_cons]
    constructor
    · rintro ⟨s', s₁, hx, hl⟩
      exact ⟨(h s x).mp ⟨s₁, hx⟩, ih.mp ⟨s', hl⟩⟩
    · rintro ⟨hx, hl⟩
      obtain ⟨s₁, hx⟩ := (h s x).mpr hx
      obtain ⟨s', hl⟩ := ih.mpr hl
      exact ⟨s', s₁, hx, hl⟩

/-- A loop with a pass that fails in every state does not finish. -/
theorem foldlM_ne_ok {f : σ → α → Except ε σ} {l : List α} {x : α} (hx : x ∈ l)
    (h : ∀ s s', f s x ≠ .ok s') (s s' : σ) : l.foldlM f s ≠ .ok s' := by
  induction l generalizing s with
  | nil => cases hx
  | cons y l ih =>
    intro hl
    rw [List.foldlM_cons, bind_eq_ok] at hl
    obtain ⟨s₁, hy, hl⟩ := hl
    cases hx with
    | head => exact h s s₁ hy
    | tail _ hx => exact ih hx s₁ hl

end EspOta.Lib
