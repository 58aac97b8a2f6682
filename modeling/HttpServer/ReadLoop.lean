import HttpServer.ReadBuffer

set_option autoImplicit false

/-!
# The read loop against any socket

The results of the socket are an endless sequence, of which the loop takes as many as it needs. Each
one has to fit the window of the read that returns it, and nothing is asked of the others.
-/
namespace HttpServer.ReadLoop
open MachineInt ReadBuffer

/-- The state in which the loop makes its next read after `calls`, if it has not ended before. -/
def loopState (max : ℤ) : List ReadCall → HshBufferS → ℤ → Option (HshBufferS × ℤ)
  | [], b, memused => some (b, memused)
  | call :: calls, b, memused =>
    let b := if call.result.count > 0 then append b call.result.received else b
    match growFull max call.blk b memused with
    | none => none
    | some (b, memused) =>
      if call.result.count > 0 ∧ b.capacity < max then loopState max calls b memused else none

/-- The first `n` results of a socket. -/
def firstCalls (socket : ℕ → ReadCall) (n : ℕ) : List ReadCall := (List.range n).map socket

/-- Each result fits the window of the read that returns it. -/
def Answers (max : ℤ) (socket : ℕ → ReadCall) (b : HshBufferS) (memused : ℤ) : Prop :=
  ∀ n b' memused', loopState max (firstCalls socket n) b memused = some (b', memused') →
    (socket n).result.fits (b'.capacity - b'.length) = true

/-- The bounds that the loop keeps. -/
structure Room (max : ℤ) (b : HshBufferS) : Prop where
  capacity_pos : 0 < b.capacity
  capacity_le : b.capacity ≤ max
  length_nonneg : 0 ≤ b.length
  length_le : b.length ≤ b.capacity

/-- What one round of the loop, or all of it, does to the buffer and the counter. -/
structure Grows (b : HshBufferS) (memused : ℤ) (bs : List UInt8) (b' : HshBufferS) (memused' : ℤ) : Prop
    extends Appended true b bs b' where
  capacity_le : b.capacity ≤ b'.capacity
  memused_eq : memused' - memused = b'.capacity - b.capacity

section Round

variable {max memused : ℤ} {b : HshBufferS}

theorem Grows.trans {memused₁ memused₂ : ℤ} {bs bs' : List UInt8} {b₁ b₂ : HshBufferS}
    (h : Grows b memused bs b₁ memused₁) (h' : Grows b₁ memused₁ bs' b₂ memused₂)
    (nonneg : 0 ≤ b.length) : Grows b memused (bs ++ bs') b₂ memused₂ := by
  have used := h.memused_eq
  have used' := h'.memused_eq
  exact ⟨h.toAppended.trans h'.toAppended nonneg, h.capacity_le.trans h'.capacity_le, by omega⟩

theorem Room.takes (h : Room max b) (max_le : max ≤ 1073741824) {bs : List UInt8}
    (fits : (bs.length : ℤ) ≤ b.capacity - b.length) :
    Room max (append b bs) ∧ Grows b memused bs (append b bs) memused := by
  obtain ⟨pos, le, nonneg, len_le⟩ := h
  have added : Appended true b bs (append b bs) := append_appended nonneg (by omega)
  have len := added.length_eq
  refine ⟨⟨pos, le, by omega, ?_⟩, ⟨added, le_refl _, by simp [append]⟩⟩
  change _ ≤ b.capacity
  omega

theorem grownCapacity_eq (h : Room max b) (max_le : max ≤ 1073741824) (below : b.capacity < max) :
    grownCapacity max b.capacity = min (b.capacity * 2) max := by
  have pos := h.capacity_pos
  unfold grownCapacity
  rw [wrap32_eq (x := b.capacity * 2) (by omega) (by omega)]
  dsimp only
  split
  · rw [wrap32_eq (by omega) (by omega)]
    omega
  · omega

theorem Room.grow (h : Room max b) (max_le : max ≤ 1073741824) (blk : NewBlock) :
    ∃ b' memused', growFull max blk b memused = some (b', memused') ∧ Room max b' ∧
      Grows b memused [] b' memused' := by
  obtain ⟨pos, le, nonneg, len_le⟩ := id h
  unfold growFull
  split
  case isFalse => exact ⟨b, memused, rfl, h, ⟨.refl true b, le_refl _, by simp⟩⟩
  case isTrue full =>
    have below : b.capacity < max := by omega
    have grown := grownCapacity_eq h max_le below
    dsimp only
    rw [if_neg (by omega)]
    refine ⟨_, _, rfl, ⟨?_, ?_, nonneg, ?_⟩, ⟨⟨by simp [HshBufferS.realloc], rfl, rfl, ?_, fun _ => rfl⟩, ?_, ?_⟩⟩
    · change 0 < grownCapacity max b.capacity
      omega
    · change grownCapacity max b.capacity ≤ max
      omega
    · change b.length ≤ grownCapacity max b.capacity
      omega
    · intro _ i lo hi
      simp only [HshBufferS.realloc]
      rw [if_pos (by omega)]
    · change b.capacity ≤ grownCapacity max b.capacity
      omega
    · change memused - b.capacity + grownCapacity max b.capacity - memused = grownCapacity max b.capacity - b.capacity
      ring

theorem Room.round (h : Room max b) (max_le : max ≤ 1073741824) {call : ReadCall}
    (fits : call.result.fits (b.capacity - b.length) = true) :
    ∃ b' memused',
      growFull max call.blk (if call.result.count > 0 then append b call.result.received else b) memused =
        some (b', memused') ∧
      Room max b' ∧ Grows b memused call.result.received b' memused' ∧
      (call.result.count > 0 → b.length < b'.length) := by
  have nothing : call.result.received = [] → ¬ call.result.count > 0 → ∃ b' memused',
      growFull max call.blk (if call.result.count > 0 then append b call.result.received else b) memused =
        some (b', memused') ∧
      Room max b' ∧ Grows b memused call.result.received b' memused' ∧
      (call.result.count > 0 → b.length < b'.length) := by
    intro empty none
    obtain ⟨b', memused', eq, room, grows⟩ := @Room.grow max memused b h max_le call.blk
    rw [if_neg none, empty]
    exact ⟨b', memused', eq, room, grows, fun some => absurd some none⟩
  cases hc : call.result with
  | eof => exact hc ▸ nothing (by rw [hc]; rfl) (by rw [hc]; decide)
  | fail => exact hc ▸ nothing (by rw [hc]; rfl) (by rw [hc]; decide)
  | bytes bs =>
    rw [hc] at fits
    simp only [ReadResult.fits, Bool.and_eq_true, decide_eq_true_eq] at fits
    have pos := List.length_pos_iff.2 fits.1
    have some : (ReadResult.bytes bs).count > 0 := by
      simp only [ReadResult.count]
      omega
    rw [if_pos some]
    obtain ⟨room, added⟩ := @Room.takes max memused b h max_le bs fits.2
    obtain ⟨b', memused', eq, room', grows⟩ := @Room.grow max memused _ room max_le call.blk
    have all := added.trans grows h.length_nonneg
    rw [List.append_nil] at all
    have len := all.length_eq
    exact ⟨b', memused', eq, room', all, fun _ => by omega⟩

end Round

section Loop

variable {max memused : ℤ} {b : HshBufferS} {socket : ℕ → ReadCall}

theorem firstCalls_succ (socket : ℕ → ReadCall) (n : ℕ) :
    firstCalls socket (n + 1) = socket 0 :: firstCalls (fun k => socket (k + 1)) n := by
  unfold firstCalls
  rw [List.range_succ_eq_map, List.map_cons, List.map_map]
  rfl

theorem Answers.first (h : Answers max socket b memused) :
    (socket 0).result.fits (b.capacity - b.length) = true :=
  h 0 b memused rfl

theorem Answers.rest {b' : HshBufferS} {memused' : ℤ} (h : Answers max socket b memused)
    (grown : growFull max (socket 0).blk
      (if (socket 0).result.count > 0 then append b (socket 0).result.received else b) memused =
        some (b', memused'))
    (goes : (socket 0).result.count > 0 ∧ b'.capacity < max) :
    Answers max (fun k => socket (k + 1)) b' memused' := by
  intro n b'' memused'' state
  apply h (n + 1) b'' memused''
  rw [firstCalls_succ, loopState, grown]
  dsimp only
  rw [if_pos goes]
  exact state

/-- What the loop has done when it stops. -/
structure Ended (max : ℤ) (b : HshBufferS) (memused : ℤ) (calls : List ReadCall) (r : ReadReturn) :
    Prop where
  loop : hsReadIntoBuffer max calls b memused = some r
  reads : (calls.length : ℤ) ≤ max - b.length + 1
  room : Room max r.buffer
  grows : Grows b memused (received calls) r.buffer r.serverMemused
  stopped : (∃ call, calls.getLast? = some call ∧ call.result.received = []) ∨ r.buffer.capacity = max

/-- Each round but the last adds a byte, so the loop ends. -/
theorem loop_ends (max_le : max ≤ 1073741824) (room : Room max b) (answers : Answers max socket b memused) :
    ∃ n r, Ended max b memused (firstCalls socket n) r := by
  induction h : (max - b.length).toNat using Nat.strong_induction_on generalizing socket b memused with
  | _ left ih =>
    obtain ⟨b', memused', grown, room', grows, longer⟩ := @Room.round max memused b room max_le _ answers.first
    have bounds := room.length_le
    have bound := room.capacity_le
    have bounds' := room'.length_le
    have bound' := room'.capacity_le
    by_cases goes : (socket 0).result.count > 0 ∧ b'.capacity < max
    · have more := longer goes.1
      obtain ⟨n, r, loop, reads, last, rest, stopped⟩ :=
        ih (max - b'.length).toNat (by omega) room' (answers.rest grown goes) rfl
      refine ⟨n + 1, r, ?_, ?_, last, ?_, ?_⟩
      · rw [firstCalls_succ, hsReadIntoBuffer, if_pos answers.first]
        dsimp only
        rw [grown]
        dsimp only
        rw [if_pos goes]
        exact loop
      · rw [firstCalls_succ, List.length_cons]
        omega
      · rw [firstCalls_succ]
        exact grows.trans rest room.length_nonneg
      · rw [firstCalls_succ]
        refine stopped.imp_left fun last => ?_
        obtain ⟨call, hlast, empty⟩ := last
        refine ⟨call, ?_, empty⟩
        rw [List.getLast?_cons, hlast]
        rfl
    · refine ⟨1, ⟨(socket 0).result.count, { b' with sequenceId := wrap8 (b'.sequenceId + 1) }, memused'⟩, ?_, ?_,
        ⟨room'.capacity_pos, room'.capacity_le, room'.length_nonneg, room'.length_le⟩, ?_, ?_⟩
      · rw [firstCalls_succ, hsReadIntoBuffer, if_pos answers.first]
        dsimp only
        rw [grown]
        dsimp only
        rw [if_neg goes]
        rfl
      · change (1 : ℤ) ≤ _
        omega
      · have one : received (firstCalls socket 1) = (socket 0).result.received := by
          simp [firstCalls, received]
        rw [one]
        exact ⟨grows.toAppended.withSequenceId _, grows.capacity_le, grows.memused_eq⟩
      · by_cases none : (socket 0).result.count > 0
        · right
          change b'.capacity = max
          omega
        · left
          refine ⟨socket 0, rfl, ?_⟩
          have fits := answers.first
          cases hc : (socket 0).result with
          | eof => rfl
          | fail => rfl
          | bytes bs =>
            rw [hc] at fits none
            simp only [ReadResult.fits, Bool.and_eq_true, decide_eq_true_eq] at fits
            have pos := List.length_pos_iff.2 fits.1
            simp only [ReadResult.count] at none
            omega

/-- Reading ends after at most `max + 1` reads. -/
theorem read_loop_ends (capacity_pos : 0 < b.capacity) (capacity_le : b.capacity ≤ max)
    (max_le : max ≤ 1073741824) (length_nonneg : 0 ≤ b.length) (length_le : b.length ≤ b.capacity)
    (answers : Answers max socket b memused) :
    ∃ (n : ℕ) (r : ReadReturn),
      hsReadIntoBuffer max (firstCalls socket n) b memused = some r ∧ (n : ℤ) ≤ max + 1 ∧
      (∀ i, 0 ≤ i → i < b.length → r.buffer.data i = b.data i) ∧
      r.buffer.length = b.length + (received (firstCalls socket n)).length ∧
      slice r.buffer.data b.length (received (firstCalls socket n)).length = received (firstCalls socket n) ∧
      r.buffer.length ≤ r.buffer.capacity ∧ r.buffer.capacity ≤ max ∧ b.capacity ≤ r.buffer.capacity ∧
      r.serverMemused - memused = r.buffer.capacity - b.capacity ∧
      ((∃ call, (firstCalls socket n).getLast? = some call ∧ call.result.received = []) ∨
        r.buffer.capacity = max) := by
  obtain ⟨n, r, loop, reads, room, grows, stopped⟩ :=
    loop_ends max_le ⟨capacity_pos, capacity_le, length_nonneg, length_le⟩ answers
  have length : (firstCalls socket n).length = n := by simp [firstCalls]
  exact ⟨n, r, loop, by omega, grows.old rfl, grows.length_eq, grows.new rfl, room.length_le, room.capacity_le,
    grows.capacity_le, grows.memused_eq, stopped⟩

/-- One byte that fills the block, and then nothing. -/
theorem read_loop_ends_grown :
    let b : HshBufferS := { buf := 16, capacity := 1 }
    let socket := fun n => if n = 0 then ⟨.bytes [97], 32, fun _ => 0⟩ else ⟨.fail, 32, fun _ => 0⟩
    ∃ (n : ℕ) (r : ReadReturn),
      hsReadIntoBuffer 8 (firstCalls socket n) b 1 = some r ∧ (n : ℤ) ≤ 9 ∧ r.buffer.capacity ≤ 8 := by
  intro b socket
  have answers : Answers 8 socket b 1 := by
    intro n b' memused' state
    cases n with
    | zero =>
      cases state
      rfl
    | succ n => rfl
  obtain ⟨n, r, loop, reads, -, -, -, -, bound, -⟩ := read_loop_ends (by decide) (by decide) (by decide) (by decide)
    (by decide) answers
  exact ⟨n, r, loop, reads, bound⟩

end Loop

end HttpServer.ReadLoop
