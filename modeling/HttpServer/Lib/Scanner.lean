import Mathlib

set_option autoImplicit false

/-!
# Byte scanners with actions that can leave the loop

A scanner reads one byte at a time. The byte selects a new control state and a
list of actions; an action falls through to the next one, leaves the scan loop,
or is undefined. The bytes left over are given as a list, so that running past
the memory that may be read shows as running out of list.
-/
namespace Scanner

inductive Flow (σ : Type) where
  | fall (s : σ)
  | out (s : σ)
  | fault

structure Machine (σ α : Type) where
  /-- The cursor has reached the end of the input. -/
  stop : σ → Bool
  /-- The transition on a byte: the state with its new control state, and the actions to run. -/
  trans : UInt8 → σ → σ × List α
  act : α → UInt8 → σ → Flow σ
  /-- What follows the last action that fell through: the error test and the cursor step. -/
  again : σ → Flow σ

variable {σ α : Type} (M : Machine σ α)

namespace Machine

def runActs (c : UInt8) : List α → σ → Flow σ
  | [], s => .fall s
  | a :: as, s =>
    match M.act a c s with
    | .fall t => runActs c as t
    | .out t => .out t
    | .fault => .fault

def step (c : UInt8) (s : σ) : Flow σ :=
  match M.runActs c (M.trans c s).2 (M.trans c s).1 with
  | .fall t => M.again t
  | .out t => .out t
  | .fault => .fault

def scan : List UInt8 → σ → Option σ
  | [], s => if M.stop s then some s else none
  | c :: cs, s =>
    if M.stop s then some s
    else match M.step c s with
      | .fall t => scan cs t
      | .out t => some t
      | .fault => none

/-- Every action run in this list starts in a state that meets `C`. -/
def ActsOk (C : α → UInt8 → σ → Prop) (c : UInt8) : List α → σ → Prop
  | [], _ => True
  | a :: as, s => C a c s ∧
    match M.act a c s with
    | .fall t => ActsOk C c as t
    | _ => True

/-- Every step of the scan meets `B` and every action run in it meets `C`. -/
def ScanOk (B : UInt8 → σ → Prop) (C : α → UInt8 → σ → Prop) : List UInt8 → σ → Prop
  | [], _ => True
  | c :: cs, s => M.stop s = true ∨
    B c s ∧ M.ActsOk C c (M.trans c s).2 (M.trans c s).1 ∧
      match M.step c s with
      | .fall t => ScanOk B C cs t
      | _ => True

instance actsOkDecidable (C : α → UInt8 → σ → Prop) [∀ a c s, Decidable (C a c s)]
    (c : UInt8) : ∀ (as : List α) (s : σ), Decidable (M.ActsOk C c as s)
  | [], _ => inferInstanceAs (Decidable True)
  | a :: as, s =>
    have : Decidable (match M.act a c s with
        | .fall t => M.ActsOk C c as t
        | _ => True) :=
      match M.act a c s with
      | .fall t => actsOkDecidable C c as t
      | .out _ => inferInstanceAs (Decidable True)
      | .fault => inferInstanceAs (Decidable True)
    inferInstanceAs (Decidable (_ ∧ _))

instance scanOkDecidable (B : UInt8 → σ → Prop) (C : α → UInt8 → σ → Prop)
    [∀ c s, Decidable (B c s)] [∀ a c s, Decidable (C a c s)] :
    ∀ (cs : List UInt8) (s : σ), Decidable (M.ScanOk B C cs s)
  | [], _ => inferInstanceAs (Decidable True)
  | c :: cs, s =>
    have : Decidable (match M.step c s with
        | .fall t => M.ScanOk B C cs t
        | _ => True) :=
      match M.step c s with
      | .fall t => scanOkDecidable B C cs t
      | .out _ => inferInstanceAs (Decidable True)
      | .fault => inferInstanceAs (Decidable True)
    inferInstanceAs (Decidable (_ ∨ _ ∧ _ ∧ _))

@[simp] theorem runActs_nil (c : UInt8) (s : σ) : M.runActs c [] s = .fall s := rfl

theorem runActs_cons (c : UInt8) (a : α) (as : List α) (s : σ) :
    M.runActs c (a :: as) s =
      match M.act a c s with
      | .fall t => M.runActs c as t
      | .out t => .out t
      | .fault => .fault := rfl

theorem runActs_fall {c : UInt8} {a : α} {s t : σ} (h : M.act a c s = .fall t) (as : List α) :
    M.runActs c (a :: as) s = M.runActs c as t := by
  rw [runActs_cons, h]

theorem runActs_out {c : UInt8} {a : α} {s t : σ} (h : M.act a c s = .out t) (as : List α) :
    M.runActs c (a :: as) s = .out t := by
  rw [runActs_cons, h]

theorem step_fall {c : UInt8} {s t : σ} (h : M.runActs c (M.trans c s).2 (M.trans c s).1 = .fall t) :
    M.step c s = M.again t := by
  rw [step, h]

theorem step_out {c : UInt8} {s t : σ} (h : M.runActs c (M.trans c s).2 (M.trans c s).1 = .out t) :
    M.step c s = .out t := by
  rw [step, h]

theorem actsOk_true (c : UInt8) (as : List α) (s : σ) :
    M.ActsOk (fun _ _ _ => True) c as s := by
  induction as generalizing s with
  | nil => trivial
  | cons a as ih =>
    refine ⟨trivial, ?_⟩
    cases M.act a c s with
    | fall t => exact ih t
    | out t => trivial
    | fault => trivial

theorem scanOk_any (cs : List UInt8) (s : σ) :
    M.ScanOk (fun _ _ => True) (fun _ _ _ => True) cs s := by
  induction cs generalizing s with
  | nil => trivial
  | cons c cs ih =>
    refine .inr ⟨trivial, actsOk_true M _ _ _, ?_⟩
    cases M.step c s with
    | fall t => exact ih t
    | out t => trivial
    | fault => trivial

theorem scan_stop {s : σ} (h : M.stop s = true) (cs : List UInt8) : M.scan cs s = some s := by
  cases cs <;> simp [scan, h]

theorem scan_cons {s : σ} (h : M.stop s = false) (c : UInt8) (cs : List UInt8) :
    M.scan (c :: cs) s =
      match M.step c s with
      | .fall t => M.scan cs t
      | .out t => some t
      | .fault => none := by
  simp [scan, h]

theorem scan_cons_fall {s t : σ} {c : UInt8} (h : M.stop s = false) (hs : M.step c s = .fall t)
    (cs : List UInt8) : M.scan (c :: cs) s = M.scan cs t := by
  rw [scan_cons M h, hs]

theorem scan_cons_out {s t : σ} {c : UInt8} (h : M.stop s = false) (hs : M.step c s = .out t)
    (cs : List UInt8) : M.scan (c :: cs) s = some t := by
  rw [scan_cons M h, hs]

end Machine

/-- A result with `F` if it falls through and `Q` if it leaves the loop; undefined only if `E`. -/
def Flow.Sat {σ : Type} (E : Prop) (F Q : σ → Prop) : Flow σ → Prop
  | .fall t => F t
  | .out t => Q t
  | .fault => E

theorem Flow.Sat.mono {σ : Type} {E : Prop} {F G Q R : σ → Prop} {r : Flow σ} (h : r.Sat E F Q)
    (hf : ∀ t, F t → G t) (hq : ∀ t, Q t → R t) : r.Sat E G R := by
  cases r with
  | fall t => exact hf t h
  | out t => exact hq t h
  | fault => exact h

theorem Flow.Sat.and {σ : Type} {E : Prop} {F F' Q Q' : σ → Prop} {r : Flow σ} (h : r.Sat E F Q)
    (h' : r.Sat E F' Q') : r.Sat E (fun t => F t ∧ F' t) (fun t => Q t ∧ Q' t) := by
  cases r with
  | fall t => exact ⟨h, h'⟩
  | out t => exact ⟨h, h'⟩
  | fault => exact h

namespace Machine

theorem runActs_append (c : UInt8) (as bs : List α) (s : σ) :
    M.runActs c (as ++ bs) s =
      match M.runActs c as s with
      | .fall t => M.runActs c bs t
      | .out t => .out t
      | .fault => .fault := by
  induction as generalizing s with
  | nil => rfl
  | cons a as ih =>
    rw [List.cons_append, runActs_cons, runActs_cons]
    cases M.act a c s with
    | fall t => exact ih t
    | out t => rfl
    | fault => rfl

theorem runActs_cons_sat {E : Prop} {P F Q : σ → Prop} {C : α → UInt8 → σ → Prop} {c : UInt8}
    {a : α} {as : List α} {s : σ} (first : C a c s → (M.act a c s).Sat E P Q)
    (rest : ∀ t, P t → M.ActsOk C c as t → (M.runActs c as t).Sat E F Q)
    (ok : M.ActsOk C c (a :: as) s) : (M.runActs c (a :: as) s).Sat E F Q := by
  have ha := first ok.1
  have tail := ok.2
  rw [runActs_cons]
  cases hr : M.act a c s with
  | fall t =>
    rw [hr] at ha tail
    exact rest t ha tail
  | out t =>
    rw [hr] at ha
    exact ha
  | fault =>
    rw [hr] at ha
    exact ha

theorem runActs_sat {E : Prop} {P Q : σ → Prop} {C : α → UInt8 → σ → Prop} {c : UInt8} {as : List α}
    (h : ∀ a ∈ as, ∀ s, P s → C a c s → (M.act a c s).Sat E P Q) {s : σ} (hs : P s)
    (ok : M.ActsOk C c as s) : (M.runActs c as s).Sat E P Q := by
  induction as generalizing s with
  | nil => exact hs
  | cons a as ih =>
    exact runActs_cons_sat M (h a (by simp) s hs)
      (fun t ht okt => ih (fun b hb => h b (by simp [hb])) ht okt) ok

theorem actsOk_append {C : α → UInt8 → σ → Prop} {c : UInt8} {as bs : List α} {s t : σ}
    (ok : M.ActsOk C c (as ++ bs) s) (hr : M.runActs c as s = .fall t) : M.ActsOk C c bs t := by
  induction as generalizing s with
  | nil =>
    cases hr
    exact ok
  | cons a as ih =>
    have tail := ok.2
    rw [runActs_cons] at hr
    cases ha : M.act a c s with
    | fall u =>
      rw [ha] at hr tail
      exact ih tail hr
    | out u => rw [ha] at hr; cases hr
    | fault => rw [ha] at hr; cases hr

theorem actsOk_left {C : α → UInt8 → σ → Prop} {c : UInt8} {as bs : List α} {s : σ}
    (ok : M.ActsOk C c (as ++ bs) s) : M.ActsOk C c as s := by
  induction as generalizing s with
  | nil => trivial
  | cons a as ih =>
    refine ⟨ok.1, ?_⟩
    have tail := ok.2
    cases ha : M.act a c s with
    | fall u =>
      rw [ha] at tail
      exact ih tail
    | out u => trivial
    | fault => trivial

theorem runActs_append_sat {E : Prop} {P F Q : σ → Prop} {C : α → UInt8 → σ → Prop} {c : UInt8}
    {as bs : List α} {s : σ} (first : M.ActsOk C c as s → (M.runActs c as s).Sat E P Q)
    (rest : ∀ t, P t → M.ActsOk C c bs t → (M.runActs c bs t).Sat E F Q)
    (ok : M.ActsOk C c (as ++ bs) s) : (M.runActs c (as ++ bs) s).Sat E F Q := by
  have ha := first (actsOk_left M ok)
  rw [runActs_append]
  cases hr : M.runActs c as s with
  | fall t =>
    rw [hr] at ha
    exact rest t ha (actsOk_append M ok hr)
  | out t =>
    rw [hr] at ha
    exact ha
  | fault =>
    rw [hr] at ha
    exact ha

theorem actsOk_mono {C C' : α → UInt8 → σ → Prop} (h : ∀ a c s, C a c s → C' a c s) {c : UInt8}
    {as : List α} {s : σ} (ok : M.ActsOk C c as s) : M.ActsOk C' c as s := by
  induction as generalizing s with
  | nil => trivial
  | cons a as ih =>
    refine ⟨h a c s ok.1, ?_⟩
    have tail := ok.2
    cases ha : M.act a c s with
    | fall u =>
      rw [ha] at tail
      exact ih tail
    | out u => trivial
    | fault => trivial

theorem scanOk_mono {B B' : UInt8 → σ → Prop} {C C' : α → UInt8 → σ → Prop}
    (hB : ∀ c s, B c s → B' c s) (hC : ∀ a c s, C a c s → C' a c s) {cs : List UInt8} {s : σ}
    (ok : M.ScanOk B C cs s) : M.ScanOk B' C' cs s := by
  induction cs generalizing s with
  | nil => trivial
  | cons c cs ih =>
    obtain hstopped | ⟨hb, hc, rest⟩ := ok
    · exact .inl hstopped
    refine .inr ⟨hB c s hb, actsOk_mono M hC hc, ?_⟩
    cases hst : M.step c s with
    | fall u =>
      rw [hst] at rest
      exact ih rest
    | out u => trivial
    | fault => trivial

theorem step_sat {E : Prop} {P F Q : σ → Prop} {c : UInt8} {s : σ}
    (acts : (M.runActs c (M.trans c s).2 (M.trans c s).1).Sat E P Q)
    (again : ∀ t, P t → (M.again t).Sat E F Q) : (M.step c s).Sat E F Q := by
  unfold step
  cases hr : M.runActs c (M.trans c s).2 (M.trans c s).1 with
  | fall t =>
    rw [hr] at acts
    exact again t acts
  | out t =>
    rw [hr] at acts
    exact acts
  | fault =>
    rw [hr] at acts
    exact acts

/-- Loop rule: `I` holds of the bytes left and the state whenever a byte is about to be examined,
    `Q` when the loop is left. -/
theorem scan_sat {E : Prop} {I : List UInt8 → σ → Prop} {Q : σ → Prop} {B : UInt8 → σ → Prop}
    {C : α → UInt8 → σ → Prop} (hend : ∀ s, I [] s → M.stop s = false → E)
    (hstop : ∀ cs s, I cs s → M.stop s = true → Q s)
    (hstep : ∀ c cs s, I (c :: cs) s → M.stop s = false → B c s →
      M.ActsOk C c (M.trans c s).2 (M.trans c s).1 → (M.step c s).Sat E (I cs) Q)
    {cs : List UInt8} {s : σ} (hs : I cs s) (ok : M.ScanOk B C cs s) : (M.scan cs s).elim E Q := by
  induction cs generalizing s with
  | nil =>
    cases he : M.stop s with
    | true =>
      rw [scan_stop M he]
      exact hstop [] s hs he
    | false =>
      simp only [scan, he, Bool.false_eq_true, if_false]
      exact hend s hs he
  | cons c cs ih =>
    cases he : M.stop s with
    | true =>
      rw [scan_stop M he]
      exact hstop _ s hs he
    | false =>
      obtain hstopped | ⟨hB, hC, rest⟩ := ok
      · rw [he] at hstopped
        cases hstopped
      have hr := hstep c cs s hs he hB hC
      rw [scan_cons M he]
      cases hst : M.step c s with
      | fall u =>
        rw [hst] at hr rest
        exact ih hr rest
      | out u =>
        rw [hst] at hr
        exact hr
      | fault =>
        rw [hst] at hr
        exact hr

/-- What holds in front of every action of a byte whose actions keep `P`. -/
theorem actsOk_of_inv {E : Prop} {P Q : σ → Prop} {C C' : α → UInt8 → σ → Prop} {c : UInt8} {as : List α}
    (h : ∀ a ∈ as, ∀ s, P s → C a c s → C' a c s ∧ (M.act a c s).Sat E P Q) {s : σ} (hs : P s)
    (ok : M.ActsOk C c as s) : M.ActsOk C' c as s := by
  induction as generalizing s with
  | nil => trivial
  | cons a as ih =>
    obtain ⟨here, tail⟩ := ok
    obtain ⟨held, kept⟩ := h a List.mem_cons_self s hs here
    refine ⟨held, ?_⟩
    cases ha : M.act a c s with
    | fall t =>
      rw [ha] at kept tail
      exact ih (fun b hb => h b (List.mem_cons_of_mem _ hb)) kept tail
    | out t => trivial
    | fault => trivial

/-- What holds at every examined byte, and in front of every action, of a scan that keeps `I`. -/
theorem scanOk_of_inv {E : Prop} {I : List UInt8 → σ → Prop} {Q : σ → Prop}
    {B B' : UInt8 → σ → Prop} {C C' : α → UInt8 → σ → Prop}
    (hstep : ∀ c cs s, I (c :: cs) s → M.stop s = false → B c s →
      M.ActsOk C c (M.trans c s).2 (M.trans c s).1 →
      B' c s ∧ M.ActsOk C' c (M.trans c s).2 (M.trans c s).1 ∧ (M.step c s).Sat E (I cs) Q)
    {cs : List UInt8} {s : σ} (hs : I cs s) (ok : M.ScanOk B C cs s) : M.ScanOk B' C' cs s := by
  induction cs generalizing s with
  | nil => trivial
  | cons c cs ih =>
    obtain hstopped | ⟨hB, hC, rest⟩ := ok
    · exact .inl hstopped
    cases he : M.stop s with
    | true => exact .inl he
    | false =>
      obtain ⟨hB', hC', hr⟩ := hstep c cs s hs he hB hC
      refine .inr ⟨hB', hC', ?_⟩
      cases hst : M.step c s with
      | fall u =>
        rw [hst] at hr rest
        exact ih hr rest
      | out u => trivial
      | fault => trivial

end Machine

section Simulation

/-! One scanner follows another, action by action. Where the second one is undefined nothing is
said about the first. -/

variable {τ β : Type}

def Flow.Rel (R Q : σ → τ → Prop) : Flow σ → Flow τ → Prop
  | _, .fault => True
  | .fall s, .fall t => R s t
  | .out s, .out t => Q s t
  | _, _ => False

variable {M} {N : Machine τ β} {R P Q : σ → τ → Prop}

namespace Machine

theorem runActs_rel_left {c : UInt8} {as : List α} {s : σ} {t : τ} {r : Flow τ}
    (hact : ∀ a ∈ as, ∀ s, R s t → ∃ s', M.act a c s = .fall s' ∧ R s' t) (hs : R s t)
    {bs : List α} (rest : ∀ s, R s t → (M.runActs c bs s).Rel P Q r) :
    (M.runActs c (as ++ bs) s).Rel P Q r := by
  induction as generalizing s with
  | nil => exact rest s hs
  | cons a as ih =>
    obtain ⟨s', hr, hs'⟩ := hact a (by simp) s hs
    rw [List.cons_append, runActs_cons, hr]
    exact ih (fun b hb => hact b (by simp [hb])) hs'

theorem runActs_rel {N : Machine τ α} {c : UInt8} {as : List α} {s : σ} {t : τ}
    (hact : ∀ a ∈ as, ∀ s t, R s t → (M.act a c s).Rel R Q (N.act a c t)) (hs : R s t) :
    (M.runActs c as s).Rel R Q (N.runActs c as t) := by
  induction as generalizing s t with
  | nil => exact hs
  | cons a as ih =>
    have first := hact a (by simp) s t hs
    rw [runActs_cons, runActs_cons]
    cases ht : N.act a c t with
    | fault => cases M.act a c s <;> trivial
    | fall t' =>
      rw [ht] at first
      cases hr : M.act a c s with
      | fall s' =>
        rw [hr] at first
        exact ih (fun b hb => hact b (by simp [hb])) first
      | out s' => rw [hr] at first; exact first.elim
      | fault => rw [hr] at first; exact first.elim
    | out t' =>
      rw [ht] at first
      cases hr : M.act a c s with
      | fall s' => rw [hr] at first; exact first.elim
      | out s' =>
        rw [hr] at first
        exact first
      | fault => rw [hr] at first; exact first.elim

theorem step_rel {N : Machine τ α} {c : UInt8} {s : σ} {t : τ}
    (acts : (M.runActs c (M.trans c s).2 (M.trans c s).1).Rel R Q
      (N.runActs c (N.trans c t).2 (N.trans c t).1))
    (again : ∀ s t, R s t → (M.again s).Rel P Q (N.again t)) : (M.step c s).Rel P Q (N.step c t) := by
  unfold step
  cases ht : N.runActs c (N.trans c t).2 (N.trans c t).1 with
  | fault => cases hr : M.runActs c (M.trans c s).2 (M.trans c s).1 <;> trivial
  | fall t' =>
    rw [ht] at acts
    cases hr : M.runActs c (M.trans c s).2 (M.trans c s).1 with
    | fall s' =>
      rw [hr] at acts
      exact again s' t' acts
    | out s' => rw [hr] at acts; exact acts.elim
    | fault => rw [hr] at acts; exact acts.elim
  | out t' =>
    rw [ht] at acts
    cases hr : M.runActs c (M.trans c s).2 (M.trans c s).1 with
    | fall s' => rw [hr] at acts; exact acts.elim
    | out s' =>
      rw [hr] at acts
      exact acts
    | fault => rw [hr] at acts; exact acts.elim

end Machine

end Simulation

end Scanner
