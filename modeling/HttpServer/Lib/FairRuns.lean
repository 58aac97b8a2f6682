import HttpServer.Lib.Runs

set_option autoImplicit false

/-!
# Fair runs

A run without an end is fair to a kind of step when such a step is taken sooner or later wherever it
stays possible. What a fair run reaches is proved with a rank and a helpful kind of step in each state.
-/
namespace Runs

section Infinite

variable {σ ℓ : Type*} {step : σ → ℓ → Option σ} {init : σ → Prop} {ok : σ → ℓ → Prop}

structure Infinite (step : σ → ℓ → Option σ) (init : σ → Prop) (ok : σ → ℓ → Prop) where
  state : ℕ → σ
  label : ℕ → ℓ
  starts : init (state 0)
  meets (t : ℕ) : ok (state t) (label t)
  goes (t : ℕ) : step (state t) (label t) = some (state (t + 1))

theorem Infinite.reached (run : Infinite step init ok) (t : ℕ) : Reached step init ok (run.state t) := by
  induction t with
  | zero => exact .init run.starts
  | succ t ih => exact .step (run.label t) ih (run.meets t) (run.goes t)

/-- A kind of step that stays possible is taken. -/
def Infinite.Fair (run : Infinite step init ok) (possible : σ → Prop) (taken : ℓ → Prop) : Prop :=
  ∀ t, (∀ u, t ≤ u → possible (run.state u)) → ∃ u, t ≤ u ∧ taken (run.label u)

/-- Where `P` holds, `Q` holds then or later. -/
def Infinite.LeadsTo (run : Infinite step init ok) (P Q : σ → Prop) : Prop :=
  ∀ t, P (run.state t) → ∃ u, t ≤ u ∧ Q (run.state u)

end Infinite

section Ranked

variable {σ ℓ κ ρ : Type*} {step : σ → ℓ → Option σ} {init : σ → Prop} {ok : σ → ℓ → Prop}
  {run : Infinite step init ok} {P Q : σ → Prop} {possible : κ → σ → Prop} {taken : κ → ℓ → Prop}
  [Preorder ρ]

/-- What a step may do on the way to `Q`: reach it, lower the rank, or change neither the rank nor the helpful
    kind of step. -/
def OnTheWay (P Q : σ → Prop) (taken : κ → ℓ → Prop) (rank : σ → ρ) (helpful : σ → κ) (s : σ) (l : ℓ) (t : σ) : Prop :=
  Q t ∨ P t ∧ (rank t < rank s ∨ rank t = rank s ∧ helpful t = helpful s ∧ ¬ taken (helpful s) l)

theorem Infinite.ranked_step (rank : σ → ρ) (helpful : σ → κ)
    (fair : ∀ k, run.Fair (possible k) (taken k))
    (enabled : ∀ s, Reached step init ok s → P s → possible (helpful s) s)
    (onTheWay : ∀ s l t, Reached step init ok s → ok s l → step s l = some t → P s →
      OnTheWay P Q taken rank helpful s l t) (t : ℕ) (hp : P (run.state t)) :
    ∃ u, t ≤ u ∧ (Q (run.state u) ∨ P (run.state u) ∧ rank (run.state u) < rank (run.state t)) := by
  by_contra never
  push Not at never
  have next : ∀ u, P (run.state u) → OnTheWay P Q taken rank helpful (run.state u) (run.label u) (run.state (u + 1)) :=
    fun u => onTheWay _ _ _ (run.reached u) (run.meets u) (run.goes u)
  -- the state stays at the same rank, with the same helpful step
  have stays : ∀ u, t ≤ u → P (run.state u) ∧ rank (run.state u) = rank (run.state t) ∧
      helpful (run.state u) = helpful (run.state t) := by
    intro u hu
    induction u, hu using Nat.le_induction with
    | base => exact ⟨hp, rfl, rfl⟩
    | succ u hu ih =>
      obtain ⟨hpu, same, kind⟩ := ih
      obtain ⟨noQ, noLess⟩ := never (u + 1) (hu.trans (Nat.le_succ u))
      rcases next u hpu with hq | ⟨hp', lower | ⟨level, kind', -⟩⟩
      · exact absurd hq noQ
      · exact absurd (same ▸ lower) (noLess hp')
      · exact ⟨hp', level.trans same, kind'.trans kind⟩
  obtain ⟨u, hu, took⟩ := fair (helpful (run.state t)) t fun u hu => by
    obtain ⟨hpu, -, kind⟩ := stays u hu
    rw [← kind]
    exact enabled _ (run.reached u) hpu
  obtain ⟨hpu, same, kind⟩ := stays u hu
  obtain ⟨noQ, noLess⟩ := never (u + 1) (hu.trans (Nat.le_succ u))
  rcases next u hpu with hq | ⟨hp', lower | ⟨-, -, notTaken⟩⟩
  · exact noQ hq
  · exact noLess hp' (same ▸ lower)
  · rw [kind] at notTaken
    exact notTaken took

/-- A fair run reaches `Q` from `P` when in each state of `P` some kind of step is possible and lowers a rank that no
    step raises. -/
theorem Infinite.LeadsTo.by_rank [WellFoundedLT ρ] (rank : σ → ρ) (helpful : σ → κ)
    (fair : ∀ k, run.Fair (possible k) (taken k))
    (enabled : ∀ s, Reached step init ok s → P s → possible (helpful s) s)
    (onTheWay : ∀ s l t, Reached step init ok s → ok s l → step s l = some t → P s →
      OnTheWay P Q taken rank helpful s l t) : run.LeadsTo P Q := by
  intro t hp
  induction hr : rank (run.state t) using WellFoundedLT.induction generalizing t with
  | ind r ih =>
    obtain ⟨u, hu, hq | ⟨hpu, lower⟩⟩ := Infinite.ranked_step rank helpful fair enabled onTheWay t hp
    · exact ⟨u, hu, hq⟩
    · obtain ⟨v, hv, hq⟩ := ih _ (hr ▸ lower) u hpu rfl
      exact ⟨v, hu.trans hv, hq⟩

end Ranked

section Prepended

variable {σ ℓ κ : Type*} {step : σ → ℓ → Option σ} {init : σ → Prop} {ok : σ → ℓ → Prop}
  {possible : κ → σ → Prop} {taken : κ → ℓ → Prop} {s t : σ}

def Infinite.after (l : ℓ) (start : init s) (meets : ok s l) (hs : step s l = some t) (run : Infinite step (· = t) ok) :
    Infinite step init ok where
  state
    | 0 => s
    | u + 1 => run.state u
  label
    | 0 => l
    | u + 1 => run.label u
  starts := start
  meets
    | 0 => meets
    | u + 1 => run.meets u
  goes
    | 0 => hs.trans (congrArg some run.starts.symm)
    | u + 1 => run.goes u

theorem Infinite.after_fair {l : ℓ} {start : init s} {meets : ok s l} {hs : step s l = some t}
    {run : Infinite step (· = t) ok} {possible : σ → Prop} {taken : ℓ → Prop} (fair : run.Fair possible taken) :
    (run.after l start meets hs).Fair possible taken := by
  intro u stays
  obtain ⟨v, hv, took⟩ := fair u fun v hv => stays (v + 1) (hv.trans (Nat.le_succ v))
  exact ⟨v + 1, hv.trans (Nat.le_succ v), took⟩

theorem Infinite.prepended [∀ s l, Decidable (ok s l)] {ls : List ℓ} (start : init s)
    (h : Runs.exec (Runs.guarded step ok) ls s = some t) (tail : Infinite step (· = t) ok)
    (fair : ∀ k, tail.Fair (possible k) (taken k)) : ∃ run : Infinite step init ok,
      (∀ k, run.Fair (possible k) (taken k)) ∧ ∀ u, run.state (ls.length + u) = tail.state u := by
  induction ls generalizing s init with
  | nil =>
    cases h
    have begins : init (tail.state 0) := by rwa [tail.starts]
    refine ⟨⟨tail.state, tail.label, begins, tail.meets, tail.goes⟩, fair, fun u => ?_⟩
    exact congrArg tail.state (Nat.zero_add u)
  | cons l ls ih =>
    obtain ⟨next, hs, h⟩ := Option.bind_eq_some_iff.1 h
    unfold Runs.guarded at hs
    split at hs
    · obtain ⟨run, fairRun, same⟩ := @ih (· = next) next rfl h
      refine ⟨run.after l start ‹_› hs, fun k => Infinite.after_fair (fairRun k), fun u => ?_⟩
      rw [List.length_cons, Nat.add_right_comm]
      exact same u
    · cases hs

end Prepended

end Runs
