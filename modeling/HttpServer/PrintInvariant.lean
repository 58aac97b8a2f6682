import HttpServer.PrintBuffer
import HttpServer.Lib.Runs

set_option autoImplicit false

/-!
# The print buffer over any sequence of prints

Growing counts a text twice, so the size stays below the capacity only while every grown buffer has
room for its text twice.
-/
namespace HttpServer.PrintInvariant
open MachineInt PrintBuffer

/-- One call, with the block that `realloc` would return. -/
inductive Print where
  | printf (blk : NewBlock) (text : List UInt8)
  | memcpy (blk : NewBlock) (src : List UInt8)

def Print.argument : Print → List UInt8
  | .printf _ text => text
  | .memcpy _ src => src

/-- A print buffer and `*ctx->memused`. -/
abbrev Buffer := GrwprintfT × ℤ

def print (s : Buffer) : Print → Option Buffer
  | .printf blk text => grwprintf blk text s.1 s.2
  | .memcpy blk src => grwmemcpy blk src src.length s.1 s.2

/-- `ctx->capacity - ctx->size` at each `vsnprintf` of a call. -/
def spaces (s : Buffer) : Print → List ℤ
  | .memcpy _ _ => []
  | .printf _ text =>
    let needed := wrap32 (text.length + s.1.size)
    wrap32 (s.1.capacity - s.1.size) ::
      if needed > s.1.capacity then
        match growCapacity needed 34 s.1.capacity with
        | some capacity => [wrap32 (capacity - s.1.size)]
        | none => []
      else []

def total (calls : List Print) : ℕ := (calls.map fun call => call.argument.length).sum

/-- A text that makes the buffer grow finds room for itself twice: doubling stops at the first capacity
    that holds it once. -/
def RoomTwice (s : Buffer) : Print → Prop
  | .memcpy _ _ => True
  | .printf _ text => s.1.capacity < s.1.size + text.length →
      ∃ k, (∀ j < k, s.1.capacity * 2 ^ j < s.1.size + text.length) ∧
        s.1.size + 2 * text.length ≤ s.1.capacity * 2 ^ k ∧ s.1.capacity * 2 ^ k < 2147483648

/-- The bounds between two calls. -/
structure Bounded (s : Buffer) : Prop where
  capacity_pos : 0 < s.1.capacity
  capacity_lt : s.1.capacity < 2147483648
  size_nonneg : 0 ≤ s.1.size
  size_le : s.1.size ≤ s.1.capacity

/-- What one call, or some, do to the counters. -/
structure Printed (s t : Buffer) (n : ℕ) : Prop where
  bounded : Bounded t
  size_le : t.1.size ≤ s.1.size + 2 * n
  memused_eq : t.2 - s.2 = t.1.capacity - s.1.capacity

section Call

variable {s : Buffer} {text : List UInt8}

theorem vsnprintf_some (text : List UInt8) {ctx : GrwprintfT} (nonneg : 0 ≤ ctx.size) (le : ctx.size ≤ ctx.capacity)
    (lt : ctx.capacity < 2147483648) (short : text.length < 2147483648) :
    ∃ data, vsnprintf ctx text = some ({ ctx with data := data }, (text.length : ℤ)) := by
  have n : sizeT (wrap32 (ctx.capacity - ctx.size)) = ctx.capacity - ctx.size := by
    rw [wrap32_eq (by omega) (by omega)]
    exact Int.emod_eq_of_lt (by omega) (by norm_num; omega)
  unfold vsnprintf
  dsimp only
  rw [n, if_pos short]
  split
  · exact ⟨ctx.data, rfl⟩
  · rw [if_pos ⟨nonneg, by simp; omega⟩]
    exact ⟨_, rfl⟩

/-- Doubling without an overflow ends at the first capacity that is large enough. -/
theorem growCapacity_eq {needed capacity : ℤ} {k fuel : ℕ} (pos : 0 < capacity) (steps : k < fuel)
    (small : ∀ j < k, capacity * 2 ^ j < needed) (enough : needed ≤ capacity * 2 ^ k)
    (lt : capacity * 2 ^ k < 2147483648) : growCapacity needed fuel capacity = some (capacity * 2 ^ k) := by
  induction k generalizing fuel capacity with
  | zero =>
    obtain ⟨fuel, rfl⟩ := Nat.exists_eq_add_of_lt steps
    rw [pow_zero, mul_one] at enough ⊢
    rw [show 0 + fuel + 1 = fuel + 1 by omega, growCapacity, if_neg (by omega)]
  | succ k ih =>
    obtain ⟨fuel, rfl⟩ := Nat.exists_eq_add_of_lt steps
    have first := small 0 (by omega)
    rw [pow_zero, mul_one] at first
    have next : capacity * 2 ^ (k + 1) = capacity * 2 * 2 ^ k := by ring
    have pow : (0 : ℤ) < 2 ^ k := by positivity
    have doubled : capacity * 2 < 2147483648 := by nlinarith
    rw [next] at enough lt ⊢
    rw [growCapacity, if_pos (by omega), wrap32_eq (by omega) doubled]
    apply ih (by omega) (by omega) _ enough lt
    intro j hj
    have later := small (j + 1) (by omega)
    rw [show capacity * 2 ^ (j + 1) = capacity * 2 * 2 ^ j by ring] at later
    exact later

theorem printf_grown (bounded : Bounded s) (blk : NewBlock) (short : s.1.size + 2 * text.length < 2147483648)
    (beyond : s.1.capacity < s.1.size + text.length) (room : RoomTwice s (.printf blk text)) :
    ∃ t, print s (.printf blk text) = some t ∧ Printed s t text.length ∧
      ∀ space ∈ spaces s (.printf blk text), 0 ≤ space := by
  obtain ⟨pos, lt, nonneg, le⟩ := bounded
  obtain ⟨k, small, twice, fits⟩ := room beyond
  have sum : wrap32 (text.length + s.1.size) = s.1.size + text.length := by
    rw [wrap32_eq (by omega) (by omega), add_comm]
  have steps : k < 34 := by
    by_contra long
    have big : (2 : ℤ) ^ 34 ≤ 2 ^ k := pow_le_pow_right₀ (by norm_num) (by omega)
    nlinarith
  have grown := growCapacity_eq pos steps small (by omega) fits
  obtain ⟨data, first⟩ := vsnprintf_some text nonneg le lt (by omega)
  obtain ⟨data', second⟩ := vsnprintf_some text
    (show 0 ≤ (GrwprintfT.realloc { s.1 with data := data } blk (s.1.capacity * 2 ^ k)).size from nonneg)
    (by change s.1.size ≤ s.1.capacity * 2 ^ k; omega) fits (by omega)
  have size : wrap32 (s.1.size + wrap32 (text.length + text.length)) = s.1.size + 2 * text.length := by
    rw [wrap32_eq (x := (text.length : ℤ) + text.length) (by omega) (by omega), wrap32_eq (by omega) (by omega)]
    ring
  refine ⟨({ GrwprintfT.realloc { s.1 with data := data } blk (s.1.capacity * 2 ^ k) with
      data := data', size := s.1.size + 2 * text.length }, s.2 - s.1.capacity + s.1.capacity * 2 ^ k),
    ?_, ⟨⟨?_, fits, ?_, twice⟩, le_refl _, ?_⟩, ?_⟩
  · change grwprintf blk text s.1 s.2 = _
    unfold grwprintf
    rw [first]
    dsimp only
    rw [sum, if_pos beyond, grown]
    dsimp only
    rw [if_neg (by omega), second]
    dsimp only
    rw [show (GrwprintfT.realloc { s.1 with data := data } blk (s.1.capacity * 2 ^ k)).size = s.1.size from rfl, size]
  · change 0 < s.1.capacity * 2 ^ k
    omega
  · change 0 ≤ s.1.size + 2 * (text.length : ℤ)
    omega
  · change s.2 - s.1.capacity + s.1.capacity * 2 ^ k - s.2 = s.1.capacity * 2 ^ k - s.1.capacity
    ring
  · intro space mem
    unfold spaces at mem
    dsimp only at mem
    rw [sum, if_pos beyond, grown] at mem
    simp only [List.mem_cons, List.not_mem_nil, or_false] at mem
    rcases mem with rfl | rfl
    · rw [wrap32_eq (by omega) (by omega)]
      omega
    · rw [wrap32_eq (by omega) (by omega)]
      omega

theorem printf_held (bounded : Bounded s) (blk : NewBlock) (short : s.1.size + 2 * text.length < 2147483648)
    (inside : s.1.size + text.length ≤ s.1.capacity) :
    ∃ t, print s (.printf blk text) = some t ∧ Printed s t text.length ∧
      ∀ space ∈ spaces s (.printf blk text), 0 ≤ space := by
  obtain ⟨pos, lt, nonneg, le⟩ := bounded
  have sum : wrap32 (text.length + s.1.size) = s.1.size + text.length := by
    rw [wrap32_eq (by omega) (by omega), add_comm]
  obtain ⟨data, first⟩ := vsnprintf_some text nonneg le lt (by omega)
  refine ⟨({ s.1 with data := data, size := s.1.size + text.length }, s.2), ?_,
    ⟨⟨pos, lt, by change 0 ≤ s.1.size + (text.length : ℤ); omega, inside⟩, ?_, ?_⟩, ?_⟩
  · change grwprintf blk text s.1 s.2 = _
    unfold grwprintf
    rw [first]
    dsimp only
    rw [sum, if_neg (not_lt.2 inside), wrap32_eq (by omega) (by omega)]
  · change s.1.size + (text.length : ℤ) ≤ s.1.size + 2 * text.length
    omega
  · change s.2 - s.2 = s.1.capacity - s.1.capacity
    ring
  · intro space mem
    unfold spaces at mem
    dsimp only at mem
    rw [sum, if_neg (not_lt.2 inside), List.mem_singleton] at mem
    rw [mem, wrap32_eq (by omega) (by omega)]
    omega

theorem memcpy_held (bounded : Bounded s) (blk : NewBlock) (short : s.1.size + 2 * text.length < 2147483648) :
    ∃ t, print s (.memcpy blk text) = some t ∧ Printed s t text.length := by
  obtain ⟨pos, lt, nonneg, le⟩ := bounded
  have sum : wrap32 (s.1.size + text.length) = s.1.size + text.length := wrap32_eq (by omega) (by omega)
  unfold print grwmemcpy
  dsimp only
  rw [sum]
  by_cases grows : s.1.size + text.length > s.1.capacity
  · simp only [grows, if_true]
    have inside : s.1.size + (text.length : ℤ) ≤ s.1.size + text.length := le_refl _
    rw [if_pos ⟨by omega, le_refl _, nonneg, inside⟩]
    refine ⟨_, rfl, ⟨⟨?_, ?_, ?_, ?_⟩, ?_, ?_⟩⟩
    · change 0 < s.1.size + (text.length : ℤ)
      omega
    · change s.1.size + (text.length : ℤ) < 2147483648
      omega
    · change 0 ≤ wrap32 (s.1.size + (text.length : ℤ))
      omega
    · change wrap32 (s.1.size + (text.length : ℤ)) ≤ s.1.size + (text.length : ℤ)
      omega
    · change wrap32 (s.1.size + (text.length : ℤ)) ≤ s.1.size + 2 * (text.length : ℤ)
      omega
    · change s.2 - s.1.capacity + (s.1.size + (text.length : ℤ)) - s.2 = s.1.size + (text.length : ℤ) - s.1.capacity
      ring
  · simp only [grows, if_false]
    rw [if_pos ⟨by omega, le_refl _, nonneg, by omega⟩]
    refine ⟨_, rfl, ⟨⟨pos, lt, ?_, ?_⟩, ?_, ?_⟩⟩
    · change 0 ≤ wrap32 (s.1.size + (text.length : ℤ))
      omega
    · change wrap32 (s.1.size + (text.length : ℤ)) ≤ s.1.capacity
      omega
    · change wrap32 (s.1.size + (text.length : ℤ)) ≤ s.1.size + 2 * (text.length : ℤ)
      omega
    · change s.2 - s.2 = s.1.capacity - s.1.capacity
      ring

theorem print_held {call : Print} (bounded : Bounded s) (room : RoomTwice s call)
    (short : s.1.size + 2 * call.argument.length < 2147483648) :
    ∃ t, print s call = some t ∧ Printed s t call.argument.length ∧ ∀ space ∈ spaces s call, 0 ≤ space := by
  cases call with
  | memcpy blk src =>
    obtain ⟨t, eq, printed⟩ := @memcpy_held s src bounded blk short
    exact ⟨t, eq, printed, by simp [spaces]⟩
  | printf blk text =>
    by_cases beyond : s.1.capacity < s.1.size + text.length
    · exact printf_grown bounded blk short beyond room
    · exact printf_held bounded blk short (not_lt.1 beyond)

end Call

section Calls

variable {s : Buffer}

/-- Each call meets the condition in the state in which it is made. -/
def RoomsTwice : List Print → Buffer → Prop
  | [], _ => True
  | call :: calls, s => RoomTwice s call ∧ ∀ t, print s call = some t → RoomsTwice calls t

/-- The space arguments of all calls. -/
def allSpaces : List Print → Buffer → List ℤ
  | [], _ => []
  | call :: calls, s => spaces s call ++
      match print s call with
      | some t => allSpaces calls t
      | none => []

theorem prints_held {calls : List Print} (bounded : Bounded s) (rooms : RoomsTwice calls s)
    (short : s.1.size + 2 * total calls < 2147483648) :
    ∃ t, Runs.exec print calls s = some t ∧ Printed s t (total calls) ∧
      ∀ space ∈ allSpaces calls s, 0 ≤ space := by
  induction calls generalizing s with
  | nil => exact ⟨s, rfl, ⟨bounded, by simp [total], by ring⟩, by simp [allSpaces]⟩
  | cons call calls ih =>
    have sum : total (call :: calls) = call.argument.length + total calls := by simp [total]
    rw [sum] at short ⊢
    push_cast at short
    obtain ⟨t, eq, printed, nonneg⟩ := print_held bounded rooms.1 (by omega)
    have size := printed.size_le
    obtain ⟨u, rest, printed', nonneg'⟩ := ih printed.bounded (rooms.2 t eq) (by omega)
    have size' := printed'.size_le
    refine ⟨u, ?_, ⟨printed'.bounded, by push_cast; omega, ?_⟩, ?_⟩
    · rw [Runs.exec, eq, Option.bind_some, rest]
    · have used := printed.memused_eq
      have used' := printed'.memused_eq
      omega
    · rw [allSpaces, eq]
      intro space mem
      exact (List.mem_append.1 mem).elim (nonneg space) (nonneg' space)

/-- After any calls that meet the condition the next one finds the buffer in its bounds. -/
theorem print_buffer_invariant {blk : NewBlock} {capacity memused : ℤ} {calls : List Print}
    (capacity_pos : 0 < capacity) (capacity_lt : capacity < 2147483648) (total_lt : total calls < 1073741824)
    (rooms : RoomsTwice calls (grwprintfInit blk capacity memused)) :
    ∃ t : Buffer, Runs.exec print calls (grwprintfInit blk capacity memused) = some t ∧
      0 ≤ t.1.size ∧ t.1.size ≤ t.1.capacity ∧ t.2 = memused + t.1.capacity ∧
      ∀ space ∈ allSpaces calls (grwprintfInit blk capacity memused), 0 ≤ space := by
  have bounded : Bounded (grwprintfInit blk capacity memused) := ⟨capacity_pos, capacity_lt, le_refl _, capacity_pos.le⟩
  obtain ⟨t, eq, printed, nonneg⟩ := prints_held bounded rooms (by
    change 0 + 2 * (total calls : ℤ) < 2147483648
    omega)
  have used := printed.memused_eq
  change t.2 - (memused + capacity) = t.1.capacity - capacity at used
  exact ⟨t, eq, printed.bounded.size_nonneg, printed.bounded.size_le, by omega, nonneg⟩

/-- Four bytes that fit, and two that find room for themselves twice. -/
theorem print_buffer_invariant_grown :
    let blk : NewBlock := ⟨16, fun _ => 0⟩
    ∃ t : Buffer, Runs.exec print [.memcpy blk [65, 66, 67, 68], .printf blk [69, 70]] (grwprintfInit blk 5 0) = some t ∧
      t.1.size ≤ t.1.capacity := by
  intro blk
  obtain ⟨t, eq, -, le, -⟩ := @print_buffer_invariant blk 5 0
    [.memcpy blk [65, 66, 67, 68], .printf blk [69, 70]] (by decide) (by decide) (by decide)
    ⟨trivial, fun t eq => by
      cases eq
      exact ⟨fun _ => ⟨1, by decide, by decide, by decide⟩, fun _ _ => trivial⟩⟩
  exact ⟨t, eq, le⟩

/-- A text longer than an empty buffer of 1024 bytes leaves a size beyond the capacity, and the next call
    writes past the block. -/
theorem print_buffer_overrun :
    let blk : NewBlock := ⟨16, fun _ => 0⟩
    let calls : List Print := [.printf blk (List.replicate 1500 65), .printf blk [66]]
    total calls < 1073741824 ∧
      ((print (grwprintfInit blk 1024 0) (.printf blk (List.replicate 1500 65))).map fun t =>
        (t.1.size, t.1.capacity)) = some (3000, 2048) ∧
      Runs.exec print calls (grwprintfInit blk 1024 0) = none := by
  decide +kernel

end Calls

end HttpServer.PrintInvariant
