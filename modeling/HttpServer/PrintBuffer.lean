import HttpServer.Common

set_option autoImplicit false

/-!
# respond.c: the print buffer of a response

`vsnprintf` is given the formatted text and follows C99. A write outside the block is undefined,
as is a growth loop that does not end, and both show as `none`. Each call that may allocate has a
block of its own.
-/
namespace HttpServer.PrintBuffer
open MachineInt

structure GrwprintfT where
  buf : ℤ
  data : ℤ → UInt8
  capacity : ℤ
  size : ℤ

def write (data : ℤ → UInt8) (pos : ℤ) (text : List UInt8) : ℤ → UInt8 :=
  fun i => if pos ≤ i ∧ i < pos + text.length then text.getD (i - pos).toNat 0 else data i

def grwprintfInit (blk : NewBlock) (capacity memused : ℤ) : GrwprintfT × ℤ :=
  ({ buf := blk.addr, data := blk.junk, capacity := capacity, size := 0 }, memused + capacity)

def GrwprintfT.realloc (ctx : GrwprintfT) (blk : NewBlock) (capacity : ℤ) : GrwprintfT :=
  { ctx with
      buf := blk.addr
      data := fun i => if 0 ≤ i ∧ i < ctx.capacity ∧ i < capacity then ctx.data i else blk.junk i
      capacity := capacity }

def sizeT (n : ℤ) : ℤ := n % 2 ^ 64

/-- `vsnprintf(ctx->buf + ctx->size, ctx->capacity - ctx->size, …)`: at most `n - 1` bytes and a
    NUL are written, and the length of the whole text is returned. -/
def vsnprintf (ctx : GrwprintfT) (text : List UInt8) : Option (GrwprintfT × ℤ) :=
  let n := sizeT (wrap32 (ctx.capacity - ctx.size))
  let bytes : ℤ := if text.length < 2147483648 then text.length else -1
  if n = 0 then some (ctx, bytes)
  else
    let written := text.take (n - 1).toNat ++ [0]
    if 0 ≤ ctx.size ∧ ctx.size + written.length ≤ ctx.capacity then
      some ({ ctx with data := write ctx.data ctx.size written }, bytes)
    else none

/-- `while (bytes + ctx->size > ctx->capacity) ctx->capacity *= 2`. An `int` that is doubled 32
    times is 0 and stays there. -/
def growCapacity (needed : ℤ) : ℕ → ℤ → Option ℤ
  | 0, _ => none
  | fuel + 1, capacity =>
    if needed > capacity then growCapacity needed fuel (wrap32 (capacity * 2)) else some capacity

def grwprintf (blk : NewBlock) (text : List UInt8) (ctx : GrwprintfT) (memused : ℤ) :
    Option (GrwprintfT × ℤ) :=
  match vsnprintf ctx text with
  | none => none
  | some (ctx, bytes) =>
    if wrap32 (bytes + ctx.size) > ctx.capacity then
      match growCapacity (wrap32 (bytes + ctx.size)) 34 ctx.capacity with
      | none => none
      | some capacity =>
        let memused := memused - ctx.capacity + capacity
        -- A negative size is a size_t beyond any object: realloc fails and the assert stops.
        if capacity ≤ 0 then none
        else
          match vsnprintf (ctx.realloc blk capacity) text with
          | none => none
          | some (ctx, more) =>
            some ({ ctx with size := wrap32 (ctx.size + wrap32 (bytes + more)) }, memused)
    else some ({ ctx with size := wrap32 (ctx.size + bytes) }, memused)

def grwmemcpy (blk : NewBlock) (src : List UInt8) (size : ℤ) (ctx : GrwprintfT) (memused : ℤ) :
    Option (GrwprintfT × ℤ) :=
  let grown := wrap32 (ctx.size + size)
  let r : GrwprintfT × ℤ :=
    if grown > ctx.capacity then
      (ctx.realloc blk grown, memused - ctx.capacity + grown)
    else (ctx, memused)
  let ctx := r.1
  if 0 ≤ size ∧ size ≤ src.length ∧ 0 ≤ ctx.size ∧ ctx.size + size ≤ ctx.capacity then
    some ({ ctx with
      data := write ctx.data ctx.size (src.take size.toNat), size := wrap32 (ctx.size + size) }, r.2)
  else none

end HttpServer.PrintBuffer
