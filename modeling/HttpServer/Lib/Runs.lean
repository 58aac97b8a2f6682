import Mathlib

set_option autoImplicit false

/-!
# Runs of a partial step function

A run starts in an initial state and takes labelled steps. A run meets a condition when each of its
steps does, in the state in which it is taken.
-/
namespace Runs

section Reached

variable {σ ℓ : Type*} {step : σ → ℓ → Option σ} {init I : σ → Prop} {ok ok' : σ → ℓ → Prop} {s t : σ}

/-- The states reached by steps that meet `ok`. -/
inductive Reached (step : σ → ℓ → Option σ) (init : σ → Prop) (ok : σ → ℓ → Prop) : σ → Prop
  | init {s : σ} (h : init s) : Reached step init ok s
  | step {s t : σ} (l : ℓ) (run : Reached step init ok s) (h : ok s l) (hs : step s l = some t) :
      Reached step init ok t

theorem Reached.invariant (start : ∀ s, init s → I s)
    (keep : ∀ s l t, I s → ok s l → step s l = some t → I t) (run : Reached step init ok s) : I s := by
  induction run with
  | init h => exact start _ h
  | step l _ h hs ih => exact keep _ l _ ih h hs

theorem Reached.mono (weaker : ∀ s l, ok s l → ok' s l) (run : Reached step init ok s) :
    Reached step init ok' s := by
  induction run with
  | init h => exact .init h
  | step l _ h hs ih => exact .step l ih (weaker _ l h) hs

def exec (step : σ → ℓ → Option σ) : List ℓ → σ → Option σ
  | [], s => some s
  | l :: ls, s => (step s l).bind (exec step ls)

def guarded (step : σ → ℓ → Option σ) (ok : σ → ℓ → Prop) [∀ s l, Decidable (ok s l)] (s : σ) (l : ℓ) :
    Option σ :=
  if ok s l then step s l else none

theorem guarded_cases [∀ s l, Decidable (ok s l)] {l : ℓ} (h : guarded step ok s l = some t) :
    ok s l ∧ step s l = some t := by
  unfold guarded at h
  split at h
  · exact ⟨‹_›, h⟩
  · cases h

theorem Reached.guarded [∀ s l, Decidable (ok s l)] {ls : List ℓ} (run : Reached step init ok s)
    (h : Runs.exec (Runs.guarded step ok) ls s = some t) : Reached step init ok t := by
  induction ls generalizing s with
  | nil =>
    cases h
    exact run
  | cons l ls ih =>
    obtain ⟨u, hu, ht⟩ := Option.bind_eq_some_iff.1 h
    obtain ⟨meets, hu⟩ := guarded_cases hu
    exact ih (run.step l meets hu) ht

theorem Reached.exec {ls : List ℓ} (run : Reached step init (fun _ _ => True) s)
    (h : Runs.exec step ls s = some t) : Reached step init (fun _ _ => True) t := by
  induction ls generalizing s with
  | nil =>
    cases h
    exact run
  | cons l ls ih =>
    obtain ⟨u, hu, ht⟩ := Option.bind_eq_some_iff.1 h
    exact ih (run.step l trivial hu) ht

end Reached

end Runs
