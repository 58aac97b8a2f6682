import HttpServer.Lib.MachineInt

set_option autoImplicit false

/-! The structures and flag macros of common.h that the parser and the read path use. -/
namespace HttpServer

def httpFlagSet (var flag : BitVec 8) : BitVec 8 := var ||| flag
def httpFlagClear (var flag : BitVec 8) : BitVec 8 := var &&& ~~~flag
def httpFlagCheck (var flag : BitVec 8) : Bool := var &&& flag != 0

inductive HshTokenE where
  | method | target | version | headerKey | headerValue | headersDone | body | none | err
deriving DecidableEq, Repr

/-- `struct hsh_token_s`; the default is the zeroed struct. -/
structure HshTokenS where
  type : HshTokenE := .method
  flags : BitVec 8 := 0
  len : ℤ := 0
  index : ℤ := 0
deriving DecidableEq, Repr

/-- `struct hsh_buffer_s` together with the heap block that `buf` points to:
    `buf` is the absolute address of the block (0 is `NULL`), `capacity` its size, and
    `data i` the byte at `buf + i`. Only offsets below `capacity` may be accessed. -/
structure HshBufferS where
  buf : ℤ := 0
  data : ℤ → UInt8 := fun _ => 0
  capacity : ℤ := 0
  length : ℤ := 0
  index : ℤ := 0
  afterHeadersIndex : ℤ := 0
  sequenceId : ℤ := 0

/-- `struct hsh_parser_s`; the default is the zeroed struct. -/
structure HshParserS where
  contentLength : ℤ := 0
  contentRemaining : ℤ := 0
  token : HshTokenS := {}
  limitCount : ℤ := 0
  limitMax : ℤ := 0
  state : ℕ := 0
  flags : BitVec 8 := 0
  sequenceId : ℤ := 0
deriving DecidableEq, Repr

/-- What an allocation returns: any address, and any contents where nothing was copied. -/
structure NewBlock where
  addr : ℤ
  junk : ℤ → UInt8

def ascii (s : String) : List UInt8 := s.toList.map fun c => c.toNat.toUInt8

/-- The bytes at offsets `[a, a + n)`. -/
def slice (data : ℤ → UInt8) (a : ℤ) : ℕ → List UInt8
  | 0 => []
  | n + 1 => data a :: slice data (a + 1) n

/-- `realloc(buffer->buf, size)`: the common prefix is kept. -/
def HshBufferS.realloc (b : HshBufferS) (blk : NewBlock) (size : ℤ) : HshBufferS :=
  { b with
      buf := blk.addr
      data := fun i => if 0 ≤ i ∧ i < b.capacity ∧ i < size then b.data i else blk.junk i }

/-- `memcpy(buffer->buf + dst, buffer->buf + src, n)`. Undefined when a region leaves the
    block or the two regions overlap. -/
def HshBufferS.memcpy (b : HshBufferS) (dst src n : ℤ) : Option HshBufferS :=
  if 0 ≤ n ∧ 0 ≤ dst ∧ 0 ≤ src ∧ dst + n ≤ b.capacity ∧ src + n ≤ b.capacity ∧
      (n = 0 ∨ dst + n ≤ src ∨ src + n ≤ dst) then
    some { b with data := fun i => if dst ≤ i ∧ i < dst + n then b.data (src + (i - dst)) else b.data i }
  else none

theorem slice_length (data : ℤ → UInt8) (a : ℤ) (n : ℕ) : (slice data a n).length = n := by
  induction n generalizing a with
  | zero => rfl
  | succ n ih => simp [slice, ih]

theorem slice_add (data : ℤ → UInt8) (a : ℤ) (m n : ℕ) :
    slice data a (m + n) = slice data a m ++ slice data (a + m) n := by
  induction m generalizing a with
  | zero => simp [slice]
  | succ m ih =>
    rw [show m + 1 + n = m + n + 1 by omega, slice, ih (a + 1), slice, List.cons_append]
    congr 3
    push_cast
    ring

theorem slice_congr {f g : ℤ → UInt8} {a : ℤ} {n : ℕ}
    (h : ∀ i, a ≤ i → i < a + n → f i = g i) : slice f a n = slice g a n := by
  induction n generalizing a with
  | zero => rfl
  | succ n ih =>
    rw [slice, slice, h a (by omega) (by omega), ih (fun i lo hi => h i (by omega) (by omega))]

theorem slice_getElem (data : ℤ → UInt8) (a : ℤ) (n i : ℕ) (h : i < (slice data a n).length) :
    (slice data a n)[i] = data (a + i) := by
  induction n generalizing a i with
  | zero => simp [slice] at h
  | succ n ih =>
    cases i with
    | zero => simp [slice]
    | succ i =>
      simp only [slice, List.getElem_cons_succ]
      rw [ih]
      congr 1
      push_cast
      ring

theorem slice_succ_right (data : ℤ → UInt8) (a : ℤ) (n : ℕ) :
    slice data a (n + 1) = slice data a n ++ [data (a + n)] := by
  rw [slice_add data a n 1, slice, slice]

theorem slice_drop (data : ℤ → UInt8) (a : ℤ) (n k : ℕ) (h : k ≤ n) :
    (slice data a n).drop k = slice data (a + k) (n - k) := by
  obtain ⟨m, rfl⟩ := Nat.exists_eq_add_of_le h
  rw [slice_add, List.drop_append_of_le_length (by rw [slice_length]),
    List.drop_of_length_le (by rw [slice_length]), List.nil_append, Nat.add_sub_cancel_left]

theorem slice_take (data : ℤ → UInt8) (a : ℤ) {k n : ℕ} (h : k ≤ n) : (slice data a n).take k = slice data a k := by
  obtain ⟨m, rfl⟩ := Nat.exists_eq_add_of_le h
  rw [slice_add, List.take_left' (slice_length _ _ _)]

end HttpServer
