/-
Runs that come to an end: every step allowed lowers a rank, and only in
final states is none allowed.

* `length_le`: a run is no longer than the rank it starts with.
* `final_of_stuck`: a run that no step can go on with is final.
* `reaches`: some run reaches a final state, from wherever it starts.
-/
import EspOta.Lib.Run

namespace EspOta.Lib

variable {σ ε : Type*}

/-- In the states that meet `I`, the steps that meet `P` lower the rank, and there is one unless the state is
final. -/
structure Progress (step : σ → ε → σ) (P : σ → ε → Prop) (I final : σ → Prop) (rank : σ → Nat) : Prop where
  keeps : ∀ s e, I s → P s e → I (step s e)
  falls : ∀ s e, I s → P s e → rank (step s e) < rank s
  moves : ∀ s, I s → ¬ final s → ∃ e, P s e

namespace Progress

variable {step : σ → ε → σ} {P : σ → ε → Prop} {I final : σ → Prop} {rank : σ → Nat}

theorem length_le (h : Progress step P I final rank) {s : σ} (hs : I s) {es : List ε} (hes : Meets step P s es) :
    es.length + rank (run step s es) ≤ rank s := by
  induction es generalizing s with
  | nil => simp
  | cons e es ih =>
    have hfalls := h.falls s e hs hes.1
    have hrest := ih (h.keeps s e hs hes.1) hes.2
    rw [run_cons, List.length_cons]
    omega

theorem final_of_stuck (h : Progress step P I final rank) {s : σ} (hs : I s) {es : List ε}
    (hes : Meets step P s es) (hstuck : ∀ e, ¬ P (run step s es) e) : final (run step s es) := by
  by_contra hfinal
  obtain ⟨e, he⟩ := h.moves _ (hes.invariant I h.keeps hs) hfinal
  exact hstuck e he

theorem reaches (h : Progress step P I final rank) {s : σ} (hs : I s) :
    ∃ es, Meets step P s es ∧ final (run step s es) := by
  induction hn : rank s using Nat.strongRecOn generalizing s with
  | ind n ih =>
    by_cases hfinal : final s
    · exact ⟨[], trivial, hfinal⟩
    · obtain ⟨e, he⟩ := h.moves s hs hfinal
      have hfalls := h.falls s e hs he
      obtain ⟨es, hes, hend⟩ := ih (rank (step s e)) (hn ▸ hfalls) (h.keeps s e hs he) rfl
      exact ⟨e :: es, ⟨he, hes⟩, hend⟩

end Progress

end EspOta.Lib
