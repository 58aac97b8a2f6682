import Mathlib

set_option autoImplicit false

/-!
# Evaluating long tables in the kernel

A lookup in a list literal takes as many reductions as its index. The same table as one
natural number is read with a shift and a remainder, which the kernel does on machine words.
-/
namespace PackedTable

/-- A table of 16-bit entries as one number, the first entry lowest. -/
def pack : List ℕ → ℕ
  | [] => 0
  | a :: l => a + 2 ^ 16 * pack l

def unpack (N k : ℕ) : ℕ := Nat.mod (Nat.shiftRight N (Nat.mul 16 k)) 65536

theorem unpack_pack (l : List ℕ) (h : ∀ a ∈ l, a < 2 ^ 16) (k : ℕ) :
    unpack (pack l) k = l.getD k 0 := by
  induction l generalizing k with
  | nil => simp [unpack, pack]
  | cons a l ih =>
    have ha : a < 2 ^ 16 := h a (by simp)
    have hl : ∀ b ∈ l, b < 2 ^ 16 := fun b hb => h b (by simp [hb])
    cases k with
    | zero =>
      change (a + 2 ^ 16 * pack l) >>> 0 % 65536 = a
      rw [Nat.shiftRight_zero]
      omega
    | succ k =>
      change _ = l.getD k 0
      rw [← ih hl k]
      change (a + 2 ^ 16 * pack l) >>> (16 * (k + 1)) % 65536 = pack l >>> (16 * k) % 65536
      congr 1
      rw [Nat.shiftRight_eq_div_pow, Nat.shiftRight_eq_div_pow, Nat.mul_add,
        Nat.add_comm (16 * k), pow_add, ← Nat.div_div_eq_div_mul]
      congr 1
      omega

/-- `f n`, with `n` evaluated before `f` looks at it. -/
def force (f : ℕ → Bool) (n : ℕ) : Bool := Nat.rec (f 0) (fun m _ => f (Nat.succ m)) n

theorem force_eq (f : ℕ → Bool) (n : ℕ) : force f n = f n := by
  cases n <;> rfl

def allBelow (p : ℕ → Bool) (n : ℕ) : Bool :=
  Nat.rec true (fun m ih => bif p m then ih else false) n

theorem allBelow_spec {p : ℕ → Bool} {n : ℕ} (h : allBelow p n = true) : ∀ k < n, p k = true := by
  induction n with
  | zero => intro k hk; omega
  | succ n ih =>
    change (bif p n then allBelow p n else false) = true at h
    cases hp : p n with
    | false => simp [hp] at h
    | true =>
      intro k hk
      by_cases eq : k = n
      · rw [eq, hp]
      · exact ih (by simpa [hp] using h) k (by omega)

end PackedTable
