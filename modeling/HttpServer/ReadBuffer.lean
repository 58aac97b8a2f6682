import HttpServer.Common

set_option autoImplicit false

/-!
# read_socket.c: filling the request buffer

What the socket returns is a list of calls, one for each `read` that is made. A result of more
bytes than the block has room for is undefined, as is a block size that no allocation can have.
-/
namespace HttpServer.ReadBuffer
open MachineInt

/-- What one `read` returns: some bytes, 0, or -1. -/
inductive ReadResult where
  | bytes (bs : List UInt8)
  | eof
  | fail
deriving DecidableEq

namespace ReadResult

def count : ReadResult → ℤ
  | .bytes bs => bs.length
  | .eof => 0
  | .fail => -1

def received : ReadResult → List UInt8
  | .bytes bs => bs
  | .eof => []
  | .fail => []

/-- The results `read` can have when it is given room for `window` bytes. -/
def fits (window : ℤ) : ReadResult → Bool
  | .bytes bs => bs ≠ [] && decide ((bs.length : ℤ) ≤ window)
  | .eof => true
  | .fail => true

end ReadResult

/-- One round of the loop: what `read` returns, and the block that `realloc` would return. -/
structure ReadCall where
  result : ReadResult
  blk : NewBlock

structure ReadReturn where
  bytes : ℤ
  buffer : HshBufferS
  serverMemused : ℤ

def hsBufferInit (blk : NewBlock) (initialCapacity memused : ℤ) : HshBufferS × ℤ :=
  ({ buf := blk.addr, capacity := initialCapacity }, memused + initialCapacity)

/-- `read(request_socket, buffer->buf + buffer->length, …)` and `buffer->length += bytes` -/
def append (b : HshBufferS) (bs : List UInt8) : HshBufferS :=
  { b with
      data := fun i =>
        if b.length ≤ i ∧ i < b.length + bs.length then bs.getD (i - b.length).toNat 0 else b.data i
      length := wrap32 (b.length + bs.length) }

/-- The capacity after a full buffer has grown. -/
def grownCapacity (maxRequestBufCapacity capacity : ℤ) : ℤ :=
  let doubled := wrap32 (capacity * 2)
  if doubled > maxRequestBufCapacity then wrap32 maxRequestBufCapacity else doubled

def growFull (maxRequestBufCapacity : ℤ) (blk : NewBlock) (b : HshBufferS) (memused : ℤ) :
    Option (HshBufferS × ℤ) :=
  if b.length = b.capacity ∧ b.capacity ≠ maxRequestBufCapacity then
    let capacity := grownCapacity maxRequestBufCapacity b.capacity
    -- A negative size is a size_t beyond any object: realloc fails and the assert stops.
    if capacity ≤ 0 then none
    else some ({ b.realloc blk capacity with capacity := capacity },
      memused - b.capacity + capacity)
  else some (b, memused)

/-- `_hs_read_into_buffer`, when `calls` are the reads it makes. -/
def hsReadIntoBuffer (maxRequestBufCapacity : ℤ) :
    List ReadCall → HshBufferS → ℤ → Option ReadReturn
  | [], _, _ => none
  | call :: calls, b, memused =>
    if call.result.fits (b.capacity - b.length) then
      let bytes := call.result.count
      let b := if bytes > 0 then append b call.result.received else b
      match growFull maxRequestBufCapacity call.blk b memused with
      | none => none
      | some (b, memused) =>
        if bytes > 0 ∧ b.capacity < maxRequestBufCapacity then
          hsReadIntoBuffer maxRequestBufCapacity calls b memused
        else if calls.isEmpty then
          some ⟨bytes, { b with sequenceId := wrap8 (b.sequenceId + 1) }, memused⟩
        else none
    else none

def hsBufferRequiresRead (b : HshBufferS) : Bool := decide (b.index ≥ b.length)

def received (calls : List ReadCall) : List UInt8 := calls.flatMap fun call => call.result.received

/-- A block that an allocation can return. -/
def BlockOk (blk : NewBlock) : Prop := 0 < blk.addr ∧ blk.addr < 4611686018427387904

/-- The bounds of a buffer. The `strict` ones need an initial capacity of at most `max`. -/
structure BufferOk (strict : Bool) (max : ℤ) (b : HshBufferS) : Prop where
  buf_pos : 0 < b.buf
  buf_lt : b.buf < 4611686018427387904
  ahi_nonneg : 0 ≤ b.afterHeadersIndex
  ahi_le : b.afterHeadersIndex ≤ b.length
  length_lt : b.length < 2147483648
  capacity_lt : b.capacity < 2147483648
  held : strict = true → b.length ≤ b.capacity ∧ b.capacity ≤ max

/-- `b'` is `b` with the bytes `bs` added at its end, possibly in another block. -/
structure Appended (strict : Bool) (b : HshBufferS) (bs : List UInt8) (b' : HshBufferS) : Prop where
  length_eq : b'.length = b.length + bs.length
  index_eq : b'.index = b.index
  ahi_eq : b'.afterHeadersIndex = b.afterHeadersIndex
  old : strict = true → ∀ i, 0 ≤ i → i < b.length → b'.data i = b.data i
  new : strict = true → slice b'.data b.length bs.length = bs

section Append

theorem slice_getD (bs : List UInt8) (a : ℤ) :
    slice (fun i => bs.getD (i - a).toNat 0) a bs.length = bs := by
  apply List.ext_getElem
  · rw [slice_length]
  · intro i h1 h2
    rw [slice_getElem]
    simp [h2]

theorem Appended.refl (strict : Bool) (b : HshBufferS) : Appended strict b [] b :=
  ⟨by simp, rfl, rfl, fun _ _ _ _ => rfl, fun _ => rfl⟩

theorem Appended.trans {strict : Bool} {b b' b'' : HshBufferS} {bs bs' : List UInt8}
    (h : Appended strict b bs b') (h' : Appended strict b' bs' b'') (nonneg : 0 ≤ b.length) :
    Appended strict b (bs ++ bs') b'' := by
  have len := h.length_eq
  refine ⟨?_, h'.index_eq.trans h.index_eq, h'.ahi_eq.trans h.ahi_eq, ?_, ?_⟩
  · rw [h'.length_eq, len, List.length_append]
    push_cast
    ring
  · intro hs i lo hi
    rw [h'.old hs i lo (by omega), h.old hs i lo hi]
  · intro hs
    have first : slice b''.data b.length bs.length = bs := by
      rw [← h.new hs]
      simp only [slice_length]
      exact slice_congr fun i lo hi => h'.old hs i (by omega) (by omega)
    rw [List.length_append, slice_add, first, ← len, h'.new hs]

theorem Appended.withSequenceId {strict : Bool} {b b' : HshBufferS} {bs : List UInt8}
    (h : Appended strict b bs b') (n : ℤ) : Appended strict b bs { b' with sequenceId := n } :=
  ⟨h.length_eq, h.index_eq, h.ahi_eq, h.old, h.new⟩

theorem append_appended {strict : Bool} {b : HshBufferS} {bs : List UInt8} (nonneg : 0 ≤ b.length)
    (lt : b.length + bs.length < 2147483648) : Appended strict b bs (append b bs) := by
  refine ⟨wrap32_eq (by omega) (by omega), rfl, rfl, ?_, ?_⟩
  · intro _ i _ hi
    simp only [append]
    rw [if_neg (by omega)]
  · intro _
    calc slice (append b bs).data b.length bs.length
        = slice (fun i => bs.getD (i - b.length).toNat 0) b.length bs.length := by
          apply slice_congr
          intro i lo hi
          simp only [append]
          rw [if_pos ⟨lo, hi⟩]
      _ = bs := slice_getD bs b.length

theorem append_ok {strict : Bool} {max : ℤ} {b : HshBufferS} {bs : List UInt8}
    (h : BufferOk strict max b) (fits : (bs.length : ℤ) ≤ b.capacity - b.length) :
    BufferOk strict max (append b bs) := by
  obtain ⟨hbuf, hbuf', hahi, hle, hlen, hcap, hheld⟩ := h
  have hl : (append b bs).length = b.length + bs.length := wrap32_eq (by omega) (by omega)
  exact ⟨hbuf, hbuf', hahi, by rw [hl]; simp only [append]; omega, by omega, hcap,
    fun hs => ⟨by rw [hl]; simp only [append]; omega, (hheld hs).2⟩⟩

end Append

structure Filled (b : HshBufferS) (memused : ℤ) (b' : HshBufferS) (memused' : ℤ) : Prop where
  buf_pos : 0 < b'.buf
  capacity_lt : b'.capacity < 2147483648
  length_le : b.length ≤ b'.length
  length_lt : b'.length < 2147483648
  index_eq : b'.index = b.index
  ahi_eq : b'.afterHeadersIndex = b.afterHeadersIndex
  memused_eq : memused' - b'.capacity = memused - b.capacity

section Read

/-! `max` is any `int`. -/

variable {strict : Bool} {max : ℤ}

theorem grownCapacity_bounds (max_ge : -2147483648 ≤ max) (max_lt : max < 2147483648)
    (capacity : ℤ) :
    grownCapacity max capacity ≤ max ∧ grownCapacity max capacity < 2147483648 := by
  have bounds := wrap32_bounds (capacity * 2)
  unfold grownCapacity
  dsimp only
  split
  · rw [wrap32_eq max_ge max_lt]
    exact ⟨le_refl max, max_lt⟩
  · exact ⟨by omega, bounds.2⟩

theorem le_grownCapacity {capacity : ℤ} (max_lt : max < 2147483648) (nonneg : 0 ≤ capacity)
    (le : capacity ≤ max) (pos : 0 < grownCapacity max capacity) :
    capacity ≤ grownCapacity max capacity := by
  unfold grownCapacity at pos ⊢
  dsimp only at pos ⊢
  split
  · rw [wrap32_eq (by omega) max_lt]
    exact le
  · rename_i small
    rw [if_neg small] at pos
    by_cases fits : capacity * 2 < 2147483648
    · rw [wrap32_eq (by omega) fits]
      omega
    · have wrapped : wrap32 (capacity * 2) = capacity * 2 - 4294967296 := by
        unfold wrap32
        rw [Int.bmod_def]
        norm_num
        omega
      omega

theorem growFull_ok {blk : NewBlock} {b b' : HshBufferS} {memused memused' : ℤ}
    (max_ge : -2147483648 ≤ max) (max_lt : max < 2147483648) (hblk : BlockOk blk)
    (h : BufferOk strict max b) (hr : growFull max blk b memused = some (b', memused')) :
    BufferOk strict max b' ∧ Appended strict b [] b' ∧ b'.sequenceId = b.sequenceId ∧
      memused' - b'.capacity = memused - b.capacity := by
  unfold growFull at hr
  split at hr
  case isFalse =>
    cases hr
    exact ⟨h, .refl strict b, rfl, rfl⟩
  case isTrue full =>
    dsimp only at hr
    split at hr
    · cases hr
    rename_i pos
    cases hr
    obtain ⟨hbuf, hbuf', hahi, hle, hlen, hcap, hheld⟩ := h
    have bounds := grownCapacity_bounds max_ge max_lt b.capacity
    have grows : strict = true → b.capacity ≤ grownCapacity max b.capacity := fun hs =>
      le_grownCapacity max_lt (by have := hheld hs; omega) (hheld hs).2 (by omega)
    refine ⟨⟨hblk.1, hblk.2, hahi, hle, hlen, bounds.2, ?_⟩, ⟨by simp [HshBufferS.realloc], rfl, rfl, ?_, ?_⟩, rfl, ?_⟩
    · intro hs
      exact ⟨le_trans (hheld hs).1 (grows hs), bounds.1⟩
    · intro hs i lo hi
      have := grows hs
      simp only [HshBufferS.realloc]
      rw [if_pos (by omega)]
    · intro _
      rfl
    · change memused - b.capacity + grownCapacity max b.capacity - grownCapacity max b.capacity = _
      ring

theorem takeCall_ok {result : ReadResult} {b : HshBufferS} (h : BufferOk strict max b)
    (fits : result.fits (b.capacity - b.length) = true) :
    let b' := if result.count > 0 then append b result.received else b
    BufferOk strict max b' ∧ Appended strict b result.received b' ∧
      b'.sequenceId = b.sequenceId ∧ b'.capacity = b.capacity := by
  cases result with
  | bytes bs =>
    simp only [ReadResult.fits, Bool.and_eq_true, decide_eq_true_eq] at fits
    have cap := h.capacity_lt
    have nonneg : 0 ≤ b.length := le_trans h.ahi_nonneg h.ahi_le
    have pos : (ReadResult.bytes bs).count > 0 := by
      have := List.length_pos_iff.2 fits.1
      simp only [ReadResult.count]
      omega
    have lt : b.length + bs.length < 2147483648 := by omega
    simp only [pos, if_true]
    exact ⟨append_ok h fits.2, append_appended nonneg lt, rfl, rfl⟩
  | eof => exact ⟨h, .refl strict b, rfl, rfl⟩
  | fail => exact ⟨h, .refl strict b, rfl, rfl⟩

theorem growFull_block {blk : NewBlock} {b b' : HshBufferS} {memused memused' : ℤ} (hblk : BlockOk blk)
    (block : b.buf ≠ 0) (hr : growFull max blk b memused = some (b', memused')) :
    b'.buf ≠ 0 ∧ memused' - b'.capacity = memused - b.capacity ∧ (0 ≤ b.capacity → 0 ≤ b'.capacity) := by
  unfold growFull at hr
  split at hr
  · dsimp only at hr
    split at hr
    · cases hr
    rename_i pos
    cases hr
    exact ⟨hblk.1.ne', by ring, fun _ => (not_le.1 pos).le⟩
  · cases hr
    exact ⟨block, rfl, id⟩

theorem hsReadIntoBuffer_block {calls : List ReadCall} {b : HshBufferS} {memused : ℤ} {r : ReadReturn}
    (hblk : ∀ call ∈ calls, BlockOk call.blk) (block : b.buf ≠ 0)
    (hr : hsReadIntoBuffer max calls b memused = some r) :
    r.buffer.buf ≠ 0 ∧ r.serverMemused - r.buffer.capacity = memused - b.capacity ∧
      (0 ≤ b.capacity → 0 ≤ r.buffer.capacity) := by
  induction calls generalizing b memused with
  | nil => cases hr
  | cons call calls ih =>
    rw [hsReadIntoBuffer] at hr
    split at hr
    swap
    · cases hr
    dsimp only at hr
    have taken : ∀ b', b' = (if call.result.count > 0 then append b call.result.received else b) →
        b'.buf = b.buf ∧ b'.capacity = b.capacity := by
      rintro b' rfl
      split <;> exact ⟨rfl, rfl⟩
    obtain ⟨hbuf, hcap⟩ := taken _ rfl
    split at hr
    · cases hr
    rename_i grown memused' hgrow
    have grows := growFull_block (hblk call List.mem_cons_self) (hbuf.trans_ne block) hgrow
    rw [hcap] at grows
    split at hr
    · have rest := ih (fun call h => hblk call (List.mem_cons_of_mem _ h)) grows.1 hr
      exact ⟨rest.1, rest.2.1.trans grows.2.1, fun nonneg => rest.2.2 (grows.2.2 nonneg)⟩
    split at hr
    · cases hr
      exact grows
    · cases hr

theorem growFull_sequenceId {blk : NewBlock} {b b' : HshBufferS} {memused memused' : ℤ}
    (hr : growFull max blk b memused = some (b', memused')) : b'.sequenceId = b.sequenceId := by
  unfold growFull at hr
  split at hr
  · dsimp only at hr
    split at hr <;> cases hr
    rfl
  · cases hr
    rfl

theorem hsReadIntoBuffer_sequenceId {calls : List ReadCall} {b : HshBufferS} {memused : ℤ} {r : ReadReturn}
    (hr : hsReadIntoBuffer max calls b memused = some r) : r.buffer.sequenceId = wrap8 (b.sequenceId + 1) := by
  induction calls generalizing b memused with
  | nil => cases hr
  | cons call calls ih =>
    rw [hsReadIntoBuffer] at hr
    split at hr
    swap
    · cases hr
    dsimp only at hr
    have taken : ∀ b', b' = (if call.result.count > 0 then append b call.result.received else b) →
        b'.sequenceId = b.sequenceId := by
      rintro b' rfl
      split <;> rfl
    split at hr
    · cases hr
    rename_i grown memused' hgrow
    rw [← taken _ rfl, ← growFull_sequenceId hgrow]
    split at hr
    · exact ih hr
    split at hr <;> cases hr
    rfl

/-- What `_hs_read_into_buffer` does: the bytes the socket returned are added at the end. -/
theorem hsReadIntoBuffer_spec {calls : List ReadCall} {b : HshBufferS} {memused : ℤ}
    {r : ReadReturn} (max_ge : -2147483648 ≤ max) (max_lt : max < 2147483648)
    (hblk : ∀ call ∈ calls, BlockOk call.blk) (h : BufferOk strict max b)
    (hr : hsReadIntoBuffer max calls b memused = some r) :
    BufferOk strict max r.buffer ∧ Appended strict b (received calls) r.buffer ∧
      r.buffer.sequenceId = wrap8 (b.sequenceId + 1) ∧
      r.serverMemused - r.buffer.capacity = memused - b.capacity := by
  induction calls generalizing b memused with
  | nil => cases hr
  | cons call calls ih =>
    rw [hsReadIntoBuffer] at hr
    split at hr
    case isFalse => cases hr
    case isTrue fits =>
      dsimp only at hr
      -- the buffer after the bytes of this call
      obtain ⟨b₁, hb₁⟩ : ∃ b₁, b₁ = if call.result.count > 0 then append b call.result.received
        else b := ⟨_, rfl⟩
      rw [← hb₁] at hr
      have nonneg : 0 ≤ b.length := le_trans h.ahi_nonneg h.ahi_le
      obtain ⟨hb₁ok, hb₁app, hb₁seq, hb₁cap⟩ := hb₁ ▸ takeCall_ok h fits
      cases hg : growFull max call.blk b₁ memused with
      | none => rw [hg] at hr; cases hr
      | some g =>
        obtain ⟨b₂, memused₂⟩ := g
        rw [hg] at hr
        dsimp only at hr
        obtain ⟨hb₂ok, hb₂app, hb₂seq, hb₂mem⟩ :=
          growFull_ok max_ge max_lt (hblk call (by simp)) hb₁ok hg
        have app : Appended strict b call.result.received b₂ := by
          simpa using hb₁app.trans hb₂app nonneg
        split at hr
        · obtain ⟨hok, happ, hseq, hmem⟩ := ih (fun c hc => hblk c (by simp [hc])) hb₂ok hr
          refine ⟨hok, ?_, ?_, ?_⟩
          · simpa [received] using app.trans happ nonneg
          · rw [hseq, hb₂seq, hb₁seq]
          · rw [hmem, hb₂mem, hb₁cap]
        · split at hr
          · rename_i last
            cases hr
            rw [List.isEmpty_iff] at last
            subst last
            refine ⟨?_, ?_, ?_, ?_⟩
            · exact ⟨hb₂ok.buf_pos, hb₂ok.buf_lt, hb₂ok.ahi_nonneg, hb₂ok.ahi_le, hb₂ok.length_lt,
                hb₂ok.capacity_lt, hb₂ok.held⟩
            · simpa [received] using app.withSequenceId (wrap8 (b₂.sequenceId + 1))
            · change wrap8 (b₂.sequenceId + 1) = _
              rw [hb₂seq, hb₁seq]
            · change memused₂ - b₂.capacity = _
              rw [hb₂mem, hb₁cap]
          · cases hr

theorem Filled.trans {b b' b'' : HshBufferS} {memused memused' memused'' : ℤ}
    (h : Filled b memused b' memused') (h' : Filled b' memused' b'' memused'') :
    Filled b memused b'' memused'' :=
  ⟨h'.buf_pos, h'.capacity_lt, h.length_le.trans h'.length_le, h'.length_lt, h'.index_eq.trans h.index_eq,
    h'.ahi_eq.trans h.ahi_eq, h'.memused_eq.trans h.memused_eq⟩

theorem takeCall_filled {result : ReadResult} {b : HshBufferS} {m : ℤ} (pos : 0 < b.buf)
    (capacity_lt : b.capacity < 2147483648) (length_ge : -2147483648 ≤ b.length)
    (length_lt : b.length < 2147483648) (fits : result.fits (b.capacity - b.length) = true) :
    Filled b m (if result.count > 0 then append b result.received else b) m := by
  have same : Filled b m b m :=
    ⟨pos, capacity_lt, le_refl _, length_lt, rfl, rfl, rfl⟩
  cases result with
  | bytes bs =>
    simp only [ReadResult.fits, Bool.and_eq_true, decide_eq_true_eq] at fits
    split
    · have length : (append b bs).length = b.length + bs.length := wrap32_eq (by omega) (by omega)
      exact ⟨pos, capacity_lt, by change _ ≤ (append b bs).length; omega,
        by change (append b bs).length < _; omega, rfl, rfl, rfl⟩
    · exact same
  | eof => exact same
  | fail => exact same

theorem growFull_filled {blk : NewBlock} {b b' : HshBufferS} {memused memused' : ℤ}
    (max_ge : -2147483648 ≤ max) (max_lt : max < 2147483648) (hblk : BlockOk blk) (pos : 0 < b.buf)
    (capacity_lt : b.capacity < 2147483648) (length_lt : b.length < 2147483648)
    (h : growFull max blk b memused = some (b', memused')) : Filled b memused b' memused' := by
  unfold growFull at h
  split at h
  case isFalse =>
    cases h
    exact ⟨pos, capacity_lt, le_refl _, length_lt, rfl, rfl, rfl⟩
  case isTrue =>
    dsimp only at h
    split at h
    · cases h
    cases h
    refine ⟨hblk.1, (grownCapacity_bounds max_ge max_lt _).2, le_refl _, length_lt, rfl, rfl, ?_⟩
    change memused - b.capacity + grownCapacity max b.capacity - grownCapacity max b.capacity = _
    ring

theorem hsReadIntoBuffer_filled {calls : List ReadCall} {b : HshBufferS} {memused : ℤ}
    {r : ReadReturn} (max_ge : -2147483648 ≤ max) (max_lt : max < 2147483648)
    (hblk : ∀ call ∈ calls, BlockOk call.blk) (pos : 0 < b.buf) (capacity_lt : b.capacity < 2147483648)
    (length_ge : -2147483648 ≤ b.length) (length_lt : b.length < 2147483648)
    (hr : hsReadIntoBuffer max calls b memused = some r) :
    Filled b memused r.buffer r.serverMemused := by
  induction calls generalizing b memused with
  | nil => cases hr
  | cons call calls ih =>
    rw [hsReadIntoBuffer] at hr
    split at hr
    case isFalse => cases hr
    case isTrue fits =>
      dsimp only at hr
      have taken := takeCall_filled (m := memused) pos capacity_lt length_ge length_lt fits
      revert hr taken
      generalize (if call.result.count > 0 then append b call.result.received else b) = b₁
      intro hr taken
      cases hg : growFull max call.blk b₁ memused with
      | none => rw [hg] at hr; cases hr
      | some g =>
        obtain ⟨b₂, memused₂⟩ := g
        rw [hg] at hr
        dsimp only at hr
        have grown := growFull_filled max_ge max_lt (hblk call (by simp)) taken.buf_pos taken.capacity_lt
          taken.length_lt hg
        have round := taken.trans grown
        have ge := round.length_le
        split at hr
        · exact round.trans (ih (fun c hc => hblk c (by simp [hc])) round.buf_pos round.capacity_lt
            (by omega) round.length_lt hr)
        · split at hr
          · cases hr
            exact ⟨round.buf_pos, round.capacity_lt, round.length_le, round.length_lt, round.index_eq,
              round.ahi_eq, round.memused_eq⟩
          · cases hr

/-- The loop returns what the last `read` returned, and bytes of that one are in the buffer. -/
theorem hsReadIntoBuffer_last {calls : List ReadCall} {b : HshBufferS} {memused : ℤ} {r : ReadReturn}
    (max_ge : -2147483648 ≤ max) (max_lt : max < 2147483648) (hblk : ∀ call ∈ calls, BlockOk call.blk)
    (pos : 0 < b.buf) (capacity_lt : b.capacity < 2147483648) (length_ge : -2147483648 ≤ b.length)
    (length_lt : b.length < 2147483648) (hr : hsReadIntoBuffer max calls b memused = some r) :
    ∃ call, calls.getLast? = some call ∧ r.bytes = call.result.count ∧
      (0 < r.bytes → b.length < r.buffer.length) := by
  induction calls generalizing b memused with
  | nil => cases hr
  | cons call calls ih =>
    rw [hsReadIntoBuffer] at hr
    split at hr
    case isFalse => cases hr
    case isTrue fits =>
      dsimp only at hr
      have taken := takeCall_filled (m := memused) pos capacity_lt length_ge length_lt fits
      have longer : 0 < call.result.count →
          b.length < (if call.result.count > 0 then append b call.result.received else b).length := by
        intro some
        rw [if_pos some]
        cases hc : call.result with
        | bytes bs =>
          rw [hc] at fits some
          simp only [ReadResult.fits, Bool.and_eq_true, decide_eq_true_eq] at fits
          simp only [ReadResult.count] at some
          have length : (append b bs).length = b.length + bs.length := wrap32_eq (by omega) (by omega)
          change b.length < (append b bs).length
          omega
        | eof => rw [hc] at some; cases some
        | fail => rw [hc] at some; cases some
      revert hr taken longer
      generalize (if call.result.count > 0 then append b call.result.received else b) = b₁
      intro hr taken longer
      cases hg : growFull max call.blk b₁ memused with
      | none => rw [hg] at hr; cases hr
      | some g =>
        obtain ⟨b₂, memused₂⟩ := g
        rw [hg] at hr
        dsimp only at hr
        have grown := growFull_filled max_ge max_lt (hblk call (by simp)) taken.buf_pos taken.capacity_lt
          taken.length_lt hg
        have round := taken.trans grown
        have ge := round.length_le
        split at hr
        · obtain ⟨last, hlast, hbytes, hlonger⟩ := ih (fun c hc => hblk c (by simp [hc])) round.buf_pos
            round.capacity_lt (by omega) round.length_lt hr
          refine ⟨last, ?_, hbytes, fun some => ge.trans_lt (hlonger some)⟩
          rw [List.getLast?_cons, hlast]
          rfl
        · split at hr
          · rename_i last
            cases hr
            rw [List.isEmpty_iff] at last
            subst last
            exact ⟨call, rfl, rfl, fun some => (longer some).trans_le grown.length_le⟩
          · cases hr

theorem lt_grownCapacity {capacity : ℤ} (max_lt : max < 2147483648) (nonneg : 0 ≤ capacity) (lt : capacity < max)
    (pos : 0 < grownCapacity max capacity) : capacity < grownCapacity max capacity := by
  unfold grownCapacity at pos ⊢
  dsimp only at pos ⊢
  split
  · rw [wrap32_eq (by omega) max_lt]
    exact lt
  · rename_i small
    rw [if_neg small] at pos
    by_cases fits : capacity * 2 < 2147483648
    · rw [wrap32_eq (by omega) fits] at pos ⊢
      omega
    · have wrapped : wrap32 (capacity * 2) = capacity * 2 - 4294967296 := by
        unfold wrap32
        rw [Int.bmod_def]
        norm_num
        omega
      omega

theorem growFull_room {blk : NewBlock} {b b' : HshBufferS} {memused memused' : ℤ} (max_lt : max < 2147483648)
    (h : BufferOk true max b) (hr : growFull max blk b memused = some (b', memused')) :
    b'.length < b'.capacity ∨ b'.capacity = max := by
  obtain ⟨le, capacity_le⟩ := h.held rfl
  have nonneg := h.ahi_nonneg.trans h.ahi_le
  unfold growFull at hr
  split at hr
  · rename_i full
    dsimp only at hr
    split at hr
    · cases hr
    rename_i pos
    cases hr
    have grown := lt_grownCapacity max_lt (by omega) (lt_of_le_of_ne capacity_le full.2) (not_le.1 pos)
    left
    change b.length < grownCapacity max b.capacity
    omega
  · rename_i stays
    cases hr
    by_cases full : b.length = b.capacity
    · exact .inr (not_not.1 fun below => stays ⟨full, below⟩)
    · exact .inl (by omega)

/-- Behind the loop there is room for the next bytes, below the maximum. -/
theorem hsReadIntoBuffer_room {calls : List ReadCall} {b : HshBufferS} {memused : ℤ} {r : ReadReturn}
    (max_ge : -2147483648 ≤ max) (max_lt : max < 2147483648) (hblk : ∀ call ∈ calls, BlockOk call.blk)
    (h : BufferOk true max b) (hr : hsReadIntoBuffer max calls b memused = some r) :
    r.buffer.length < r.buffer.capacity ∨ r.buffer.capacity = max := by
  induction calls generalizing b memused with
  | nil => cases hr
  | cons call calls ih =>
    rw [hsReadIntoBuffer] at hr
    split at hr
    case isFalse => cases hr
    case isTrue fits =>
      dsimp only at hr
      have taken := (takeCall_ok h fits).1
      split at hr
      · cases hr
      rename_i grown memused' hgrow
      split at hr
      · exact ih (fun call h => hblk call (List.mem_cons_of_mem _ h))
          (growFull_ok max_ge max_lt (hblk call List.mem_cons_self) taken hgrow).1 hr
      have room := growFull_room max_lt taken hgrow
      split at hr
      · cases hr
        exact room
      · cases hr

end Read

end HttpServer.ReadBuffer
