import HttpServer.Lib.Scanner
import HttpServer.ParserTables

set_option autoImplicit false

/-!
# parser.rl: `hsh_parser_init` and `hsh_parser_exec`

`p`, `pe` and `buffer.buf` are absolute addresses. A byte is read only at an address inside
the block `buffer.buf` points to at the start of the call; anything else is undefined and
shows as `none`.
-/
namespace HttpServer.Parser
open MachineInt Scanner ParserTables

def flagChunked : BitVec 8 := 1
def flagTokenReady : BitVec 8 := 2
def flagDone : BitVec 8 := 4

/-- Flags of a `HSH_TOK_HEADERS_DONE` token. -/
def hshTokFlagNoBody : BitVec 8 := 1
def hshTokFlagStreamedBody : BitVec 8 := 2

/-- Flags of a `HSH_TOK_BODY` token. -/
def hshTokFlagBodyFinal : BitVec 8 := 1
def hshTokFlagSmallBody : BitVec 8 := 2

/-- The locals of `hsh_parser_exec` with the two structs it updates. -/
structure Exec where
  parser : HshParserS
  buffer : HshBufferS
  p : ℤ
  pe : ℤ
  cs : ℕ

/-- `fbreak`, i.e. `{p++; goto _out;}` -/
def fbreak (s : Exec) : Flow Exec := .out { s with p := s.p + 1 }
/-- `fhold`, i.e. `p--` -/
def fhold (s : Exec) : Exec := { s with p := s.p - 1 }

def Exec.setFlags (s : Exec) (flag : BitVec 8) : Exec :=
  { s with parser := { s.parser with flags := httpFlagSet s.parser.flags flag } }
def Exec.setToken (s : Exec) (token : HshTokenS) : Exec :=
  { s with parser := { s.parser with token := token } }
def Exec.setContentLength (s : Exec) (n : ℤ) : Exec :=
  { s with parser := { s.parser with contentLength := n } }

def hshEnterToken (tokType : HshTokenE) (maxLen : ℤ) (s : Exec) : Exec :=
  { s with
      parser := { s.parser with
        token := { s.parser.token with
          type := tokType, index := wrap32 (s.p - s.buffer.buf), flags := 0 }
        limitCount := 0
        limitMax := maxLen } }

def body (s : Exec) : Exec :=
  s.setToken { s.parser.token with
    type := .body, flags := 0, index := wrap32 (s.p - s.buffer.buf) }

def emitToken (s : Exec) : Flow Exec :=
  let len := wrap32 (s.p - (s.buffer.buf + s.parser.token.index))
  fbreak ((s.setToken { s.parser.token with len := len }).setFlags flagTokenReady)

def contentLengthDigit (fc : UInt8) (s : Exec) : Exec :=
  let scaled := wrap64 (s.parser.contentLength * 10)
  s.setContentLength (wrap64 (scaled + (fc.toNat - 48)))

def transferEncoding (s : Exec) : Exec := s.setFlags flagChunked

def resetCount (s : Exec) : Exec :=
  { s with parser := { s.parser with limitCount := 0, limitMax := 256 } }

def incCount (s : Exec) : Flow Exec :=
  let count := wrap16 (s.parser.limitCount + 1)
  let s := { s with parser := { s.parser with limitCount := count } }
  if count > s.parser.limitMax then fbreak s else .fall s

def doneHeaders (maxBufCapacity : ℤ) (blk : NewBlock) (s : Exec) : Flow Exec :=
  let ahi := wrap32 (s.p - s.buffer.buf + 1)
  let n := s.parser.contentLength
  let s := { s with
    buffer := { s.buffer with afterHeadersIndex := ahi }
    parser := { s.parser with contentRemaining := n, token := { type := .headersDone } } }
  let s := s.setFlags flagTokenReady
  if httpFlagCheck s.parser.flags flagChunked then
    let s := s.setToken { s.parser.token with
      flags := httpFlagSet s.parser.token.flags hshTokFlagStreamedBody }
    fbreak { s with cs := hshHttpEnChunkedBody }
  else if n = 0 then
    fbreak (s.setToken { s.parser.token with
      flags := httpFlagSet s.parser.token.flags hshTokFlagNoBody })
  -- The body won't fit into the buffer at maximum capacity.
  else if n > wrap32 (maxBufCapacity - ahi) then
    let s := s.setToken { s.parser.token with
      flags := httpFlagSet s.parser.token.flags hshTokFlagStreamedBody }
    fbreak { s with cs := hshHttpEnLargeBody }
  else
    -- Resize the buffer to hold the full body
    let buffer :=
      if wrap64 (n + ahi) > s.buffer.capacity then
        { s.buffer.realloc blk (n + ahi) with capacity := wrap32 (n + ahi) }
      else s.buffer
    fbreak { s with buffer := buffer, cs := hshHttpEnSmallBody }

def chunkStart (s : Exec) : Exec := s.setContentLength 0

/-- The digit is added only for a hex digit; any other first byte leaves the size alone. -/
def chunkSize (fc : UInt8) (s : Exec) : Exec :=
  let c : ℤ := fc.toNat
  let scaled := wrap64 (s.parser.contentLength * 16)
  if 65 ≤ c ∧ c ≤ 70 then s.setContentLength (wrap64 (scaled + (c - 55)))
  else if 97 ≤ c ∧ c ≤ 102 then s.setContentLength (wrap64 (scaled + (c - 87)))
  else if 48 ≤ c ∧ c ≤ 57 then s.setContentLength (wrap64 (scaled + (c - 48)))
  else s

def chunkRead (maxBufCapacity : ℤ) (s : Exec) : Flow Exec :=
  let buf := s.buffer.buf
  let n := s.parser.contentLength
  let lastBodyByte := addr64 (buf + s.parser.token.index + n - 1)
  if s.pe ≥ lastBodyByte then
    let s := { s with p := lastBodyByte }
    let s := s.setToken { s.parser.token with len := wrap32 n }
    fbreak { s.setFlags flagTokenReady with cs := hshHttpEnChunkEnd }
  -- The current chunk is at the end of the buffer and the buffer cannot be expanded.
  else if wrap64 (s.p - buf + n) > maxBufCapacity then
    let ahi := s.buffer.afterHeadersIndex
    match s.buffer.memcpy ahi (s.p - buf) (s.pe - s.p) with
    | .none => .fault
    | some b =>
      let s := { s with
        buffer := { b with length := wrap32 (ahi + s.pe - s.p) }
        p := buf + ahi
        parser := { s.parser with
          token := { s.parser.token with index := ahi }
          sequenceId := s.buffer.sequenceId } }
      fbreak (fhold s)
  else .fall s

def endStream (s : Exec) : Flow Exec :=
  let s := s.setToken { type := .body, index := 0, len := 0, flags := hshTokFlagBodyFinal }
  fbreak ((s.setFlags flagTokenReady).setFlags flagDone)

def smallBodyRead (s : Exec) : Flow Exec :=
  let ahi := s.buffer.afterHeadersIndex
  let n := s.parser.contentLength
  let s := s.setToken { s.parser.token with
    index := ahi, len := wrap32 n
    flags := httpFlagSet s.parser.token.flags hshTokFlagSmallBody }
  let lastBodyByte := addr64 (s.buffer.buf + ahi + n - 1)
  let s := if s.pe ≥ lastBodyByte then (s.setFlags flagTokenReady).setFlags flagDone else s
  fbreak (fhold { s with p := s.pe })

def largeBodyRead (s : Exec) : Flow Exec :=
  let ahi := s.buffer.afterHeadersIndex
  let n := s.parser.contentRemaining
  let s := s.setToken { s.parser.token with index := ahi }
  let lastBodyByte := addr64 (s.buffer.buf + ahi + n - 1)
  if s.pe ≥ lastBodyByte then
    let s := s.setToken { s.parser.token with flags := hshTokFlagBodyFinal, len := wrap32 n }
    let s := { s with parser := { s.parser with contentRemaining := 0 } }
    fbreak (fhold ((s.setFlags flagTokenReady).setFlags flagDone))
  else
    let len := wrap32 (s.pe - s.p)
    let s := s.setToken { s.parser.token with len := len }
    let s := { s with parser := { s.parser with contentRemaining := wrap64 (n - len) } }
    let s := s.setFlags flagTokenReady
    fbreak (fhold { s with
      p := s.buffer.buf + ahi
      buffer := { s.buffer with length := ahi }
      parser := { s.parser with sequenceId := s.buffer.sequenceId } })

def runAction (maxBufCapacity : ℤ) (blk : NewBlock) (fc : UInt8) : Action → Exec → Flow Exec
  | .method, s => .fall (hshEnterToken .method 32 s)
  | .target, s => .fall (hshEnterToken .target 1024 s)
  | .version, s => .fall (hshEnterToken .version 16 s)
  | .headerKey, s => .fall (hshEnterToken .headerKey 256 s)
  | .headerValue, s => .fall (hshEnterToken .headerValue 4096 s)
  | .body, s => .fall (body s)
  | .emitToken, s => emitToken s
  | .contentLengthDigit, s => .fall (contentLengthDigit fc s)
  | .transferEncoding, s => .fall (transferEncoding s)
  | .resetCount, s => .fall (resetCount s)
  | .incCount, s => incCount s
  | .doneHeaders, s => doneHeaders maxBufCapacity blk s
  | .chunkStart, s => .fall (chunkStart s)
  | .chunkSize, s => .fall (chunkSize fc s)
  | .chunkRead, s => chunkRead maxBufCapacity s
  | .endStream, s => endStream s
  | .smallBodyRead, s => smallBodyRead s
  | .largeBodyRead, s => largeBodyRead s
  | .error, s => fbreak s

/-- The generated scan loop. `p == eof` is never true: `eof` is `NULL`. -/
def machine (maxBufCapacity : ℤ) (blk : NewBlock) : Machine Exec Action where
  stop s := s.p == s.pe
  trans fc s := ({ s with cs := transTarg s.cs fc.toNat }, transActions s.cs fc.toNat)
  act a fc s := runAction maxBufCapacity blk fc a s
  again s := if s.cs = hshHttpError then .out s else .fall { s with p := s.p + 1 }

/-- The bytes from address `p` to the end of the block. -/
def bytesFrom (b : HshBufferS) (p : ℤ) : List UInt8 :=
  if b.buf ≤ p ∧ p ≤ b.buf + b.capacity then
    slice b.data (p - b.buf) (b.buf + b.capacity - p).toNat
  else []

/-- `%% write exec` -/
def writeExec (maxBufCapacity : ℤ) (blk : NewBlock) (s : Exec) : Option Exec :=
  if s.p ≠ s.pe ∧ s.cs = hshHttpError then some s
  else (machine maxBufCapacity blk).scan (bytesFrom s.buffer s.p) s

def hshParserInit : HshParserS := { state := hshHttpStart }

def noneToken : HshTokenS := { type := .none }

def enter (parser : HshParserS) (buffer : HshBufferS) : Exec where
  parser := parser
  buffer := buffer
  p := buffer.buf + buffer.index
  pe := buffer.buf + buffer.length
  cs := parser.state

/-- What follows the scan loop. -/
def leave (s : Exec) : HshTokenS × HshParserS × HshBufferS :=
  let parser := { s.parser with state := s.cs }
  let buffer := { s.buffer with index := wrap32 (s.p - s.buffer.buf) }
  if httpFlagCheck parser.flags flagTokenReady then
    (parser.token, { parser with flags := httpFlagClear parser.flags flagTokenReady }, buffer)
  else (noneToken, { parser with sequenceId := buffer.sequenceId }, buffer)

def hshParserExec (maxBufCapacity : ℤ) (blk : NewBlock) (parser : HshParserS)
    (buffer : HshBufferS) : Option (HshTokenS × HshParserS × HshBufferS) :=
  if httpFlagCheck parser.flags flagDone ∨ parser.sequenceId = buffer.sequenceId then
    some (noneToken, parser, buffer)
  else (writeExec maxBufCapacity blk (enter parser buffer)).map leave

section Flags

/-! The three parser flags do not share a bit. -/

variable (f : BitVec 8)

@[simp] theorem tokenReady_set : httpFlagCheck (httpFlagSet f flagTokenReady) flagTokenReady = true := by
  revert f; decide
@[simp] theorem done_set : httpFlagCheck (httpFlagSet f flagDone) flagDone = true := by
  revert f; decide
@[simp] theorem done_set_tokenReady :
    httpFlagCheck (httpFlagSet f flagTokenReady) flagDone = httpFlagCheck f flagDone := by
  revert f; decide
@[simp] theorem tokenReady_set_done :
    httpFlagCheck (httpFlagSet f flagDone) flagTokenReady = httpFlagCheck f flagTokenReady := by
  revert f; decide
@[simp] theorem done_set_chunked :
    httpFlagCheck (httpFlagSet f flagChunked) flagDone = httpFlagCheck f flagDone := by
  revert f; decide
@[simp] theorem tokenReady_set_chunked :
    httpFlagCheck (httpFlagSet f flagChunked) flagTokenReady = httpFlagCheck f flagTokenReady := by
  revert f; decide
@[simp] theorem chunked_set_tokenReady :
    httpFlagCheck (httpFlagSet f flagTokenReady) flagChunked = httpFlagCheck f flagChunked := by
  revert f; decide
@[simp] theorem tokenReady_clear :
    httpFlagCheck (httpFlagClear f flagTokenReady) flagTokenReady = false := by
  revert f; decide
@[simp] theorem done_clear_tokenReady :
    httpFlagCheck (httpFlagClear f flagTokenReady) flagDone = httpFlagCheck f flagDone := by
  revert f; decide
@[simp] theorem chunked_clear_tokenReady :
    httpFlagCheck (httpFlagClear f flagTokenReady) flagChunked = httpFlagCheck f flagChunked := by
  revert f; decide

end Flags

theorem bytesFrom_nil {b : HshBufferS} {p : ℤ} (h : bytesFrom b p = []) (lo : b.buf ≤ p) :
    b.buf + b.capacity ≤ p := by
  unfold bytesFrom at h
  split at h
  · have len := congrArg List.length h
    rw [slice_length, List.length_nil] at len
    omega
  · omega

theorem bytesFrom_cons {b : HshBufferS} {p : ℤ} {c : UInt8} {cs : List UInt8}
    (h : bytesFrom b p = c :: cs) :
    b.buf ≤ p ∧ p < b.buf + b.capacity ∧ c = b.data (p - b.buf) ∧ cs = bytesFrom b (p + 1) := by
  unfold bytesFrom at h
  split at h
  case isTrue hin =>
    have len := congrArg List.length h
    rw [slice_length, List.length_cons] at len
    rw [len, slice] at h
    obtain ⟨hc, hcs⟩ := List.cons.inj h
    refine ⟨hin.1, by omega, hc.symm, ?_⟩
    rw [← hcs, bytesFrom, if_pos (by omega)]
    congr 1
    · omega
    · omega
  case isFalse => cases h

theorem bytesFrom_eq_cons {b : HshBufferS} {p : ℤ} (lo : b.buf ≤ p) (hi : p < b.buf + b.capacity) :
    bytesFrom b p = b.data (p - b.buf) :: bytesFrom b (p + 1) := by
  rw [bytesFrom, if_pos (by omega), bytesFrom, if_pos (by omega)]
  rw [show (b.buf + b.capacity - p).toNat = (b.buf + b.capacity - (p + 1)).toNat + 1 by omega, slice]
  congr 2
  omega

end HttpServer.Parser
