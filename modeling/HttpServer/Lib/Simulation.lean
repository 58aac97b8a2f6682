import HttpServer.Lib.Runs

set_option autoImplicit false

/-!
# Simulations

A run of one machine is followed by another machine when each of its steps is matched by some steps of
the other one that show the same.
-/
namespace Runs

section Exec

variable {σ ℓ : Type*} {step : σ → ℓ → Option σ} {s t u : σ}

theorem exec_append (ls more : List ℓ) (s : σ) :
    exec step (ls ++ more) s = (exec step ls s).bind (exec step more) := by
  induction ls generalizing s with
  | nil => rfl
  | cons l ls ih =>
    change (step s l).bind (exec step (ls ++ more)) = ((step s l).bind (exec step ls)).bind (exec step more)
    rw [Option.bind_assoc]
    congr 1
    funext next
    exact ih next

theorem exec_trans {ls more : List ℓ} (first : exec step ls s = some t) (second : exec step more t = some u) :
    exec step (ls ++ more) s = some u := by
  rw [exec_append, first]
  exact second

theorem exec_single {l : ℓ} (h : step s l = some t) : exec step [l] s = some t := by
  change (step s l).bind some = some t
  rw [h]
  rfl

theorem exec_concat {ls : List ℓ} {l : ℓ} (h : exec step (ls ++ [l]) s = some u) :
    ∃ t, exec step ls s = some t ∧ step t l = some u := by
  rw [exec_append] at h
  obtain ⟨t, first, last⟩ := Option.bind_eq_some_iff.1 h
  obtain ⟨u', last, same⟩ := Option.bind_eq_some_iff.1 last
  cases same
  exact ⟨t, first, last⟩

end Exec

section Simulation

variable {σ ℓ τ κ ω : Type*} {step : σ → ℓ → Option σ} {init : σ → Prop} {ok : σ → ℓ → Prop}
  {follow : τ → κ → Option τ} {start : τ} {R : σ → τ → Prop} {seen : σ → List ω} {view : κ → List ω} {s : σ}

/-- The steps from `a` to `b` show what has been seen from `s` to `s'`. -/
def Follows (follow : τ → κ → Option τ) (view : κ → List ω) (a b : τ) (more : List ω) : Prop :=
  ∃ ks, exec follow ks a = some b ∧ ks.flatMap view = more

theorem Follows.refl (a : τ) : Follows follow view a a [] := ⟨[], rfl, rfl⟩

theorem Follows.single {a b : τ} {k : κ} (h : follow a k = some b) : Follows follow view a b (view k) :=
  ⟨[k], exec_single h, List.flatMap_singleton view k⟩

theorem Follows.trans {a b c : τ} {first second : List ω} (h : Follows follow view a b first)
    (h' : Follows follow view b c second) : Follows follow view a c (first ++ second) := by
  obtain ⟨ks, steps, rfl⟩ := h
  obtain ⟨more, steps', rfl⟩ := h'
  exact ⟨ks ++ more, exec_trans steps steps', List.flatMap_append⟩

/-- A relation that every step keeps, with what the step shows, relates the ends of whole runs. -/
theorem Reached.follows (begins : ∀ s, init s → ∃ t, R s t ∧ Follows follow view start t (seen s))
    (keep : ∀ s l s' t, R s t → ok s l → step s l = some s' →
      ∃ t' more, R s' t' ∧ seen s' = seen s ++ more ∧ Follows follow view t t' more)
    (run : Reached step init ok s) : ∃ t, R s t ∧ Follows follow view start t (seen s) := by
  induction run with
  | init h => exact begins _ h
  | step l _ h hs ih =>
    obtain ⟨t, related, follows⟩ := ih
    obtain ⟨t', more, related', same, follows'⟩ := keep _ l _ t related h hs
    exact ⟨t', related', same ▸ follows.trans follows'⟩

end Simulation

end Runs
