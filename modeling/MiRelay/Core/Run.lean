import Mathlib

/-!
# Runs of a partial step function

A step function accepts an input in a state or rejects it without effect. A run
is the list of inputs accepted one after the other, each in a state where it was
allowed; what every allowed step preserves holds along the run.
-/

namespace MiRelay

variable {σ ι : Type}

/-- The inputs accepted from the first state to the last. -/
inductive Steps (perform : σ → ι → Option σ) (allowed : σ → ι → Prop) (s : σ) : List ι → σ → Prop
  | nil : Steps perform allowed s [] s
  | snoc {l : List ι} {t u : σ} {a : ι} (h : Steps perform allowed s l t) (ha : allowed t a)
      (hu : perform t a = some u) : Steps perform allowed s (l ++ [a]) u

namespace Steps

variable {perform : σ → ι → Option σ} {allowed : σ → ι → Prop} {s t u : σ} {l m : List ι}

/-- A condition on the inputs so far and the state that every allowed step preserves. -/
theorem invariant {I : List ι → σ → Prop} (h : Steps perform allowed s l t) (h0 : I [] s)
    (hstep : ∀ l t a u, I l t → allowed t a → perform t a = some u → I (l ++ [a]) u) : I l t := by
  induction h with
  | nil => exact h0
  | snoc _ ha hu ih => exact hstep _ _ _ _ ih ha hu

/-- Two runs one after the other are a run. -/
theorem append (h : Steps perform allowed s l t) (h' : Steps perform allowed t m u) :
    Steps perform allowed s (l ++ m) u := by
  induction h' with
  | nil =>
    rw [List.append_nil]
    exact h
  | snoc _ ha hu ih =>
    rw [← List.append_assoc]
    exact ih.snoc ha hu

/-- A run under a stronger condition is a run under a weaker one. -/
theorem mono {allowed' : σ → ι → Prop} (h : Steps perform allowed s l t)
    (hall : ∀ s a, allowed s a → allowed' s a) : Steps perform allowed' s l t := by
  induction h with
  | nil => exact .nil
  | snoc _ ha hu ih => exact ih.snoc (hall _ _ ha) hu

/-- Carry out a list of inputs as long as each is allowed and accepted. -/
def replay (perform : σ → ι → Option σ) (allowed : σ → ι → Bool) (s : σ) : List ι → Option σ
  | [] => some s
  | a :: l => if allowed s a then (perform s a).bind fun t => replay perform allowed t l else none

/-- A replayed list of inputs is a run. -/
theorem of_replay {perform : σ → ι → Option σ} {allowed : σ → ι → Bool} {l : List ι} {t : σ}
    (h : replay perform allowed s l = some t) :
    Steps perform (fun s a => allowed s a = true) s l t := by
  induction l generalizing s with
  | nil =>
    cases Option.some.inj h
    exact .nil
  | cons a l ih =>
    rw [replay] at h
    split at h
    · rename_i ha
      obtain ⟨u, hu, h⟩ := Option.bind_eq_some_iff.mp h
      exact append (l := [a]) (snoc (l := []) .nil ha hu) (ih h)
    · contradiction

/-- A replayed list of inputs with a checked end reaches such an end by a run. -/
theorem exists_of_replay (perform : σ → ι → Option σ) (allowed : σ → ι → Bool) (s : σ)
    (l : List ι) (p : σ → Bool) (h : (replay perform allowed s l).any p = true) :
    ∃ t, Steps perform (fun s a => allowed s a = true) s l t ∧ p t = true := by
  rw [Option.any_eq_true] at h
  obtain ⟨t, ht, hp⟩ := h
  exact ⟨t, of_replay ht, hp⟩

end Steps

end MiRelay
