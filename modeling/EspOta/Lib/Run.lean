/-
Runs of a step function over lists of events.

`run step s es` is the state after `es`. `Meets step P s es` says every
event of the run meets `P` in the state that event finds, so a condition
on steps becomes a condition on runs; `Meets.invariant` is the induction
every safety result below is an instance of, `run_invariant` its
unconditional case.
-/
import Mathlib.Data.List.Basic

namespace EspOta.Lib

variable {σ ε : Type*}

/-- The state after the events, in order. -/
def run (step : σ → ε → σ) (s : σ) (es : List ε) : σ := es.foldl step s

@[simp] theorem run_nil (step : σ → ε → σ) (s : σ) : run step s [] = s := rfl

@[simp] theorem run_cons (step : σ → ε → σ) (s : σ) (e : ε) (es : List ε) :
    run step s (e :: es) = run step (step s e) es := rfl

theorem run_append (step : σ → ε → σ) (s : σ) (es fs : List ε) :
    run step s (es ++ fs) = run step (run step s es) fs := List.foldl_append

/-- Every event of the run from `s` meets `P` in the state it finds. -/
def Meets (step : σ → ε → σ) (P : σ → ε → Prop) : σ → List ε → Prop
  | _, [] => True
  | s, e :: es => P s e ∧ Meets step P (step s e) es

@[simp] theorem meets_nil (step : σ → ε → σ) (P : σ → ε → Prop) (s : σ) : Meets step P s [] :=
  trivial

@[simp] theorem meets_cons {step : σ → ε → σ} {P : σ → ε → Prop} {s : σ} {e : ε} {es : List ε} :
    Meets step P s (e :: es) ↔ P s e ∧ Meets step P (step s e) es := Iff.rfl

theorem meets_append {step : σ → ε → σ} {P : σ → ε → Prop} {s : σ} {es fs : List ε} :
    Meets step P s (es ++ fs) ↔ Meets step P s es ∧ Meets step P (run step s es) fs := by
  induction es generalizing s with
  | nil => simp
  | cons e es ih => rw [List.cons_append, meets_cons, meets_cons, ih, run_cons, and_assoc]

instance Meets.decidable (step : σ → ε → σ) (P : σ → ε → Prop) [∀ s e, Decidable (P s e)] :
    ∀ s es, Decidable (Meets step P s es)
  | _, [] => .isTrue trivial
  | s, e :: es => @instDecidableAnd _ _ _ (Meets.decidable step P (step s e) es)

/-- An invariant the steps meeting `P` keep holds after every run of such steps. -/
theorem Meets.invariant {step : σ → ε → σ} {P : σ → ε → Prop} (I : σ → Prop)
    (hstep : ∀ s e, I s → P s e → I (step s e)) {s : σ} {es : List ε}
    (h : Meets step P s es) (h0 : I s) : I (run step s es) := by
  induction es generalizing s with
  | nil => exact h0
  | cons e es ih => exact ih h.2 (hstep s e h0 h.1)

/-- An invariant every step keeps holds after every run. -/
theorem run_invariant {step : σ → ε → σ} (I : σ → Prop) (hstep : ∀ s e, I s → I (step s e))
    {s : σ} (h0 : I s) (es : List ε) : I (run step s es) := by
  induction es generalizing s with
  | nil => exact h0
  | cons e es ih => exact ih (hstep s e h0)

/-- An invariant that speaks of the events so far, kept by the steps meeting `P`. -/
theorem Meets.history {step : σ → ε → σ} {P : σ → ε → Prop} (I : List ε → σ → Prop)
    (hstep : ∀ es t e, I es t → P t e → I (es ++ [e]) (step t e)) {s : σ} {es : List ε}
    (h : Meets step P s es) (h0 : I [] s) : I es (run step s es) := by
  suffices ∀ fs s, I fs s → Meets step P s es → I (fs ++ es) (run step s es) from this [] s h0 h
  clear h h0
  induction es with
  | nil => intro fs s hI _; rw [List.append_nil]; exact hI
  | cons e es ih =>
    intro fs s hI h
    rw [run_cons, List.append_cons]
    exact ih _ _ (hstep fs s e hI h.1) h.2

theorem meets_of_forall {step : σ → ε → σ} {P : σ → ε → Prop} {s : σ} {es : List ε}
    (h : ∀ s, ∀ e ∈ es, P s e) : Meets step P s es := by
  induction es generalizing s with
  | nil => trivial
  | cons e es ih => exact ⟨h s e List.mem_cons_self, ih fun t e' he => h t e' (List.mem_cons_of_mem _ he)⟩

/-- An invariant that speaks of the events so far, kept by every step. -/
theorem run_history {step : σ → ε → σ} (I : List ε → σ → Prop)
    (hstep : ∀ es t e, I es t → I (es ++ [e]) (step t e)) {s : σ} (h0 : I [] s) (es : List ε) :
    I es (run step s es) := by
  have hany : Meets step (fun _ _ => True) s es := meets_of_forall fun _ _ _ => trivial
  exact hany.history I (fun es t e hI _ => hstep es t e hI) h0

theorem Meets.forall {step : σ → ε → σ} {P : σ → ε → Prop} {Q : ε → Prop} (hPQ : ∀ s e, P s e → Q e) {s : σ}
    {es : List ε} (h : Meets step P s es) : ∀ e ∈ es, Q e := by
  induction es generalizing s with
  | nil => simp
  | cons e es ih =>
    intro e' he'
    rcases List.mem_cons.mp he' with rfl | he'
    · exact hPQ s e' h.1
    · exact ih h.2 e' he'

theorem Meets.and_forall {step : σ → ε → σ} {P : σ → ε → Prop} {Q : ε → Prop} {s : σ} {es : List ε}
    (h : Meets step P s es) (hq : ∀ e ∈ es, Q e) : Meets step (fun s e => Q e ∧ P s e) s es := by
  induction es generalizing s with
  | nil => trivial
  | cons e es ih =>
    exact ⟨⟨hq e List.mem_cons_self, h.1⟩, ih h.2 fun e' he => hq e' (List.mem_cons_of_mem _ he)⟩

/-- A condition that another one gives on the states an invariant allows. -/
theorem Meets.imp {step : σ → ε → σ} {P Q : σ → ε → Prop} (I : σ → Prop)
    (hstep : ∀ s e, I s → P s e → I (step s e)) (hPQ : ∀ s e, I s → P s e → Q s e) {s : σ} (h0 : I s)
    {es : List ε} (h : Meets step P s es) : Meets step Q s es := by
  induction es generalizing s with
  | nil => trivial
  | cons e es ih => exact ⟨hPQ s e h0 h.1, ih (hstep s e h0 h.1) h.2⟩

/-- A condition that holds of every step in the states an invariant allows. -/
theorem meets_of_invariant {step : σ → ε → σ} {P : σ → ε → Prop} (I : σ → Prop)
    (hstep : ∀ s e, I s → I (step s e)) (hP : ∀ s e, I s → P s e) {s : σ} (h0 : I s) (es : List ε) :
    Meets step P s es := by
  have hany : Meets step (fun _ _ => True) s es := meets_of_forall fun _ _ _ => trivial
  exact hany.imp I (fun s e hI _ => hstep s e hI) (fun s e hI _ => hP s e hI) h0

/-- Two conditions that agree on the states an invariant of the first allows. -/
theorem meets_congr {step : σ → ε → σ} {P Q : σ → ε → Prop} (I : σ → Prop)
    (hstep : ∀ s e, I s → P s e → I (step s e)) (hPQ : ∀ s e, I s → (P s e ↔ Q s e)) {s : σ} (h0 : I s)
    (es : List ε) : Meets step P s es ↔ Meets step Q s es := by
  refine ⟨.imp I hstep (fun s e hI => (hPQ s e hI).mp) h0, .imp I ?_ (fun s e hI => (hPQ s e hI).mpr) h0⟩
  intro s e hI hq
  exact hstep s e hI ((hPQ s e hI).mpr hq)

/-- What holds of every state a run passes through is a condition on its steps. -/
theorem forall_prefix_iff {step : σ → ε → σ} {Q : σ → Prop} {s : σ} {es : List ε} :
    (∀ fs, fs <+: es → Q (run step s fs)) ↔ Q s ∧ Meets step (fun t e => Q (step t e)) s es := by
  induction es generalizing s with
  | nil => simp
  | cons e es ih =>
    rw [meets_cons, ← ih]
    constructor
    · intro h
      exact ⟨h [] List.nil_prefix, fun fs hfs => h (e :: fs) ((List.prefix_cons_inj e).mpr hfs)⟩
    · rintro ⟨hs, h⟩ fs hfs
      cases fs with
      | nil => exact hs
      | cons f fs =>
        obtain ⟨rfl, hrest⟩ := List.cons_prefix_cons.mp hfs
        exact h fs hrest

end EspOta.Lib
