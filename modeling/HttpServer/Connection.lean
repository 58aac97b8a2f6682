import HttpServer.Lib.Runs
import HttpServer.Parser
import HttpServer.ReadBuffer
import HttpServer.Respond

set_option autoImplicit false

/-!
# connection.c, read_socket.c, write_socket.c, io_events.c (epoll) and api.c

One connection. The library calls user code and user code calls the library, on one stack, which the
model keeps as a list of the places where the code goes on, innermost first. A step runs the code at
the first of them up to the next place; system calls and allocations return what the label says.
Calls whose return nothing follows leave no place behind. Using a freed request or an unset callback
is undefined and shows as `none`.
-/
namespace HttpServer.Connection
open HttpServer.Parser ReadBuffer RequestUtil Respond

def httpRequestTimeout : ℤ := 20
def httpKeepAliveTimeout : ℤ := 120
def httpMaxTotalEstMemUsage : ℤ := 4294967296

/-- The sizes that a build may set, with their defaults: the maximum is an `int` that is not below
    the initial size. -/
structure Config where
  httpRequestBufSize : ℤ := 1024
  httpMaxRequestBufSize : ℤ := 8388608
  initial_pos : 0 < httpRequestBufSize := by norm_num
  initial_le : httpRequestBufSize ≤ httpMaxRequestBufSize := by norm_num
  max_lt : httpMaxRequestBufSize < 2147483648 := by norm_num

/-- What an allocation that succeeds returns. -/
abbrev Block := { blk : NewBlock // BlockOk blk }

inductive HsWriteRc where
  | success | successChunk | successClose | continue | socketErr
deriving DecidableEq

/-- The callbacks that the user sets. -/
inductive Callback where
  | requestHandler | chunkCb
deriving DecidableEq

/-- The places where the code goes on: `hs_read_request_and_exec_user_cb`, the loop of
    `_hs_parse_buffer_and_exec_user_cb`, `_hs_write_socket_and_handle_return_code`, a callback, and
    what follows the callback of a final piece of the request with that number. -/
inductive Frame where
  | readRequest | parseBuffer | writeSocket
  | callback (cb : Callback)
  | finalChunk (serial : ℕ)
deriving DecidableEq

/-- The event that epoll watches the socket for. -/
inductive Interest where
  | epollin | epollout
deriving DecidableEq

/-- What a connection has done, and for which of its requests. -/
inductive Event where
  | watch (interest : Interest)
  | read (results : List ReadResult)
  | push (serial : ℕ) (token : HshTokenS)
  | parseErr
  | invoke (serial : ℕ) (cb : Callback) (request : HttpRequestS)
  | response (request : HttpRequestS)
  | write (bytes : ℤ)
  | responded (serial : ℕ)
  | terminate

/-- A connection with the stack above the event loop and the counter `server->memused`. The last two
    fields are not in the source: the number of request buffers that were set up so far, which
    numbers the requests, and what the connection has done. -/
structure Conn where
  request : HttpRequestS
  live : Bool := true
  interest : Interest := .epollin
  stack : List Frame := []
  memused : ℤ
  serial : ℕ := 0
  events : List Event := []

def Conn.log (event : Event) (c : Conn) : Conn := { c with events := c.events ++ [event] }

def Conn.push (frame : Frame) (c : Conn) : Conn := { c with stack := frame :: c.stack }

/-- `_hs_request_init` and `_hs_add_timer_event` -/
def hsRequestInit (memused : ℤ) : Conn :=
  Conn.log (.watch .epollin)
    { request := { timeout := httpRequestTimeout, flags := httpAutomatic }, memused := memused }

def hsRequestTerminateConnection (c : Conn) : Conn :=
  let freed := hsBufferFree c.request.buffer c.memused
  Conn.log .terminate
    { c with
        request := { c.request with buffer := freed.1, tokens := [] }, memused := freed.2, live := false }

def hsRequestBeginRead (c : Conn) : Conn :=
  Conn.push .readRequest (Conn.log (.watch .epollin)
    { c with request := { c.request with state := .read }, interest := .epollin })

def hsRequestBeginWrite (c : Conn) : Conn :=
  Conn.push .writeSocket (Conn.log (.watch .epollout)
    { c with request := { c.request with state := .write }, interest := .epollout })

/-- What a response meets: the date string of the server, and the blocks of its buffer. -/
structure RespondEnv where
  date : CString
  blocks : ℕ → Block

def RespondEnv.blks (env : RespondEnv) : ℕ → NewBlock := fun n => (env.blocks n).1

/-- A function of respond.c with `hs_request_begin_write` as `http_write` -/
def startResponse (respond : HttpRequestS → ℤ → Option (HttpRequestS × ℤ)) (c : Conn) : Option Conn :=
  (respond c.request c.memused).map fun r =>
    hsRequestBeginWrite (Conn.log (.response r.1) { c with request := r.1, memused := r.2 })

/-- `_hs_token_array_push`, for a token of the request with that number -/
def hsTokenArrayPush (serial : ℕ) (token : HshTokenS) (c : Conn) : Conn :=
  Conn.log (.push serial token) { c with request := { c.request with tokens := c.request.tokens ++ [token] } }

/-- `_hs_exec_callback`, for the request with that number -/
def hsExecCallback (serial : ℕ) (cb : Callback) (c : Conn) : Option Conn :=
  if cb = .chunkCb ∧ c.request.chunkCb = false then none
  else
    let request := { c.request with state := .nop }
    some (Conn.push (.callback cb) (Conn.log (.invoke serial cb request) { c with request := request }))

/-- One round of the loop of `_hs_parse_buffer_and_exec_user_cb`, and what
    `_hs_read_socket_and_handle_return_code` does with a parse error. -/
def hsParseBufferAndExecUserCb (max : ℤ) (blk : Block) (respond : RespondEnv) (c : Conn) :
    Option Conn :=
  (hshParserExec max blk.1 c.request.parser c.request.buffer).bind fun r =>
    let token := r.1
    let c := { c with request := { c.request with parser := r.2.1, buffer := r.2.2 } }
    match token.type with
    | .headersDone =>
      let c := hsTokenArrayPush c.serial token c
      if httpFlagCheck token.flags hshTokFlagStreamedBody || httpFlagCheck token.flags hshTokFlagNoBody then
        hsExecCallback c.serial .requestHandler { c with
          request := { c.request with flags := httpFlagSet c.request.flags httpFlgStreamed } }
      else some (c.push .parseBuffer)
    | .body =>
      let c := hsTokenArrayPush c.serial token c
      if httpFlagCheck token.flags hshTokFlagSmallBody then hsExecCallback c.serial .requestHandler c
      else if httpFlagCheck token.flags hshTokFlagBodyFinal && token.len > 0 then
        hsExecCallback c.serial .chunkCb (c.push (.finalChunk c.serial))
      else hsExecCallback c.serial .chunkCb c
    | .err =>
      startResponse (fun request memused =>
        hsRequestRespondError respond.date respond.blks request 400 (cstring "Bad Request") memused)
        (c.log .parseErr)
    | .none => some c
    | _ => some ((hsTokenArrayPush c.serial token c).push .parseBuffer)

/-- What one run of `hs_read_request_and_exec_user_cb` meets: the block of a new buffer, and the
    results of `read`. -/
structure ReadEnv where
  bufBlk : Block
  calls : List { call : ReadCall // BlockOk call.blk }

def ReadEnv.readCalls (env : ReadEnv) : List ReadCall := env.calls.map Subtype.val

structure HsReadOpts where
  initialRequestBufCapacity : ℤ
  maxRequestBufCapacity : ℤ
  eofRc : ℤ

/-- `_hs_buffer_init` and `hsh_parser_init` when there is no buffer. -/
def initBuffer (opts : HsReadOpts) (blk : Block) (c : Conn) : Conn :=
  if c.request.buffer.buf = 0 then
    let r := hsBufferInit blk.1 opts.initialRequestBufCapacity c.memused
    { c with
        request := { c.request with buffer := r.1, parser := hshParserInit }, memused := r.2
        serial := c.serial + 1 }
  else c

/-- `hs_read_request_and_exec_user_cb`, and what `_hs_read_socket_and_handle_return_code` does with a
    socket error -/
def hsReadRequestAndExecUserCb (opts : HsReadOpts) (env : ReadEnv) (c : Conn) : Option Conn :=
  let c := { c with request := { c.request with state := .read, timeout := httpRequestTimeout } }
  let c := initBuffer opts env.bufBlk c
  if hsBufferRequiresRead c.request.buffer then
    (hsReadIntoBuffer opts.maxRequestBufCapacity env.readCalls c.request.buffer c.memused).map fun r =>
      let c := Conn.log (.read (env.readCalls.map ReadCall.result))
        { c with request := { c.request with buffer := r.buffer }, memused := r.serverMemused }
      if r.bytes = opts.eofRc then hsRequestTerminateConnection c else c.push .parseBuffer
  else some (c.push .parseBuffer)

/-- The options that `_hs_read_socket_and_handle_return_code` sets. -/
def readOpts (cfg : Config) : HsReadOpts where
  initialRequestBufCapacity := cfg.httpRequestBufSize
  maxRequestBufCapacity := cfg.httpMaxRequestBufSize
  eofRc := 0

/-- What one `write` returns, and whether `errno` is `EPIPE` after it. -/
structure WriteCall where
  bytes : ℤ
  epipe : Bool

/-- `hs_write_socket`; a count below 0 is a `size_t` beyond any block. -/
def hsWriteSocket (call : WriteCall) (c : Conn) : Option (HsWriteRc × Conn) :=
  let left := c.request.buffer.length - c.request.bytesWritten
  if 0 ≤ left ∧ -1 ≤ call.bytes ∧ call.bytes ≤ left then
    let written :=
      if call.bytes > 0 then c.request.bytesWritten + call.bytes else c.request.bytesWritten
    let c := Conn.log (.write call.bytes) { c with request := { c.request with bytesWritten := written } }
    let rc :=
      if call.epipe then HsWriteRc.socketErr
      else if written ≠ c.request.buffer.length then .continue
      else if httpFlagCheck c.request.flags httpChunkedResponse then .successChunk
      else if httpFlagCheck c.request.flags httpKeepAlive then .success
      else .successClose
    some (rc, c)
  else none

def hsWriteSocketAndHandleReturnCode (call : WriteCall) (c : Conn) : Option Conn :=
  (hsWriteSocket call c).bind fun r =>
    let rc := r.1
    let c := r.2
    let timeout := if rc = .success then httpKeepAliveTimeout else httpRequestTimeout
    let freed :=
      if rc ≠ .continue then hsBufferFree c.request.buffer c.memused else (c.request.buffer, c.memused)
    let c := { c with
      request := { c.request with timeout := timeout, buffer := freed.1 }, memused := freed.2 }
    match rc with
    | .successClose => some (hsRequestTerminateConnection (c.log (.responded c.serial)))
    | .socketErr => some (hsRequestTerminateConnection c)
    | .success => some (hsRequestBeginRead (c.log (.responded c.serial)))
    | .successChunk => hsExecCallback c.serial .chunkCb c
    | .continue => some c

/-- The functions of api.h that change a request. -/
inductive UserCall where
  | respond (response : HttpResponseS) (env : RespondEnv)
  | respondChunk (response : HttpResponseS) (env : RespondEnv)
  | respondChunkEnd (response : HttpResponseS) (env : RespondEnv)
  | readChunk
  | freeBuffer
  | connection (directive : ℤ)

/-- A call of an api.h function -/
def apiCall (c : Conn) : UserCall → Option Conn
  | .respond response env =>
    startResponse (fun request memused =>
      hsRequestRespond env.date env.blks request response memused) c
  | .respondChunk response env =>
    startResponse (fun request memused =>
      hsRequestRespondChunk env.date env.blks request response memused) c
  | .respondChunkEnd response env =>
    startResponse (fun request memused =>
      hsRequestRespondChunkEnd env.blks request response memused) c
  | .readChunk =>
    some (hsRequestBeginRead { c with request := { c.request with state := .read, chunkCb := true } })
  | .freeBuffer =>
    let freed := hsBufferFree c.request.buffer c.memused
    some { c with request := { c.request with buffer := freed.1 }, memused := freed.2 }
  | .connection directive =>
    some { c with request := hsRequestSetKeepAliveFlag c.request directive }

def hsOnEpollClientConnectionEvent (c : Conn) : Conn :=
  if c.request.state = .read then c.push .readRequest
  else if c.request.state = .write then c.push .writeSocket
  else c

def hsOnEpollRequestTimerEvent (c : Conn) : Conn :=
  let c := { c with request := { c.request with timeout := c.request.timeout - 1 } }
  if c.request.timeout = 0 then hsRequestTerminateConnection c else c

/-- The body of the loop of `_hs_accept_and_begin_request_cycle` -/
def hsAcceptAndBeginRequestCycle (respond : RespondEnv) (memused : ℤ) : Option Conn :=
  let c := hsRequestInit memused
  if memused > httpMaxTotalEstMemUsage then
    startResponse (fun request memused =>
      hsRequestRespondError respond.date respond.blks request 503 (cstring "Service Unavailable")
        memused) c
  else some (hsRequestBeginRead c)

/-- What follows the callback of a final piece: a zero-length piece, which tells the user code that
    the body is complete. -/
def afterFinalChunk (serial : ℕ) (c : Conn) : Option Conn :=
  hsExecCallback serial .chunkCb (hsTokenArrayPush serial { type := .body } c)

/-- A step: an event when nothing is on the stack, the code at the first place, a call of user code
    from a callback or from outside, or the return of a callback. -/
inductive Label where
  | socketEvent
  | timerEvent
  | read (env : ReadEnv)
  | exec (blk : Block) (respond : RespondEnv)
  | write (call : WriteCall)
  | call (call : UserCall)
  | callbackReturn
  | finalChunk

def userRuns : List Frame → Bool
  | [] => true
  | .callback _ :: _ => true
  | _ => false

def step (cfg : Config) (c : Conn) (l : Label) : Option Conn :=
  match l, c.stack with
  | .socketEvent, [] => if c.live then some (hsOnEpollClientConnectionEvent c) else none
  | .timerEvent, [] => if c.live then some (hsOnEpollRequestTimerEvent c) else none
  | .read env, .readRequest :: stack =>
    hsReadRequestAndExecUserCb (readOpts cfg) env { c with stack := stack }
  | .exec blk respond, .parseBuffer :: stack =>
    hsParseBufferAndExecUserCb cfg.httpMaxRequestBufSize blk respond { c with stack := stack }
  | .write call, .writeSocket :: stack =>
    hsWriteSocketAndHandleReturnCode call { c with stack := stack }
  | .call call, stack => if userRuns stack ∧ c.live then apiCall c call else none
  | .callbackReturn, .callback _ :: stack => some { c with stack := stack }
  | .finalChunk, .finalChunk serial :: stack =>
    if c.live then afterFinalChunk serial { c with stack := stack } else none
  | _, _ => none

def Accepted (c : Conn) : Prop :=
  ∃ respond memused, hsAcceptAndBeginRequestCycle respond memused = some c

end HttpServer.Connection
