import HttpServer.Connection

set_option autoImplicit false

/-!
# What a step of a connection can do

One constructor of `Move` for each way a step can go, with its guards. Every invariant of a
connection is proved by cases on it.
-/
namespace HttpServer.ConnectionSteps
open HttpServer.Parser ReadBuffer RequestUtil Respond Connection

section Fields

variable (c : Conn) (event : Event) (frame : Frame) (serial : ℕ) (token : HshTokenS)

@[simp] theorem log_request : (c.log event).request = c.request := rfl
@[simp] theorem log_live : (c.log event).live = c.live := rfl
@[simp] theorem log_interest : (c.log event).interest = c.interest := rfl
@[simp] theorem log_stack : (c.log event).stack = c.stack := rfl
@[simp] theorem log_memused : (c.log event).memused = c.memused := rfl
@[simp] theorem log_serial : (c.log event).serial = c.serial := rfl
@[simp] theorem log_events : (c.log event).events = c.events ++ [event] := rfl

@[simp] theorem push_request : (c.push frame).request = c.request := rfl
@[simp] theorem push_live : (c.push frame).live = c.live := rfl
@[simp] theorem push_interest : (c.push frame).interest = c.interest := rfl
@[simp] theorem push_stack : (c.push frame).stack = frame :: c.stack := rfl
@[simp] theorem push_memused : (c.push frame).memused = c.memused := rfl
@[simp] theorem push_serial : (c.push frame).serial = c.serial := rfl
@[simp] theorem push_events : (c.push frame).events = c.events := rfl

end Fields

/-- What has happened on a connection since `c`. -/
def since (c c' : Conn) : List Event := c'.events.drop c.events.length

theorem since_append {c c' : Conn} {events : List Event} (h : c'.events = c.events ++ events) : since c c' = events := by
  unfold since
  rw [h, List.drop_left]

/-- The request as `hs_read_request_and_exec_user_cb` has it before it reads. -/
def entered (cfg : Config) (env : ReadEnv) (c : Conn) : Conn :=
  initBuffer (readOpts cfg) env.bufBlk
    { c with request := { c.request with state := .read, timeout := httpRequestTimeout } }

/-- What `_hs_read_into_buffer` leaves. -/
def filled (env : ReadEnv) (r : ReadReturn) (c : Conn) : Conn :=
  Conn.log (.read (env.readCalls.map ReadCall.result))
    { c with request := { c.request with buffer := r.buffer }, memused := r.serverMemused }

/-- What a call of `hsh_parser_exec` leaves. -/
def parsed (parser : HshParserS) (buffer : HshBufferS) (c : Conn) : Conn :=
  { c with request := { c.request with parser := parser, buffer := buffer } }

/-- What the write of a step leaves. -/
def written (call : WriteCall) (c : Conn) : Conn :=
  Conn.log (.write call.bytes) { c with request := { c.request with
    bytesWritten :=
      if call.bytes > 0 then c.request.bytesWritten + call.bytes else c.request.bytesWritten } }

/-- The result of a write, with the buffer freed and the timeout set. -/
def finished (timeout : ℤ) (c : Conn) : Conn :=
  let freed := hsBufferFree c.request.buffer c.memused
  { c with request := { c.request with timeout := timeout, buffer := freed.1 }, memused := freed.2 }

def setTimeout (timeout : ℤ) (c : Conn) : Conn :=
  { c with request := { c.request with timeout := timeout } }

def invoked (serial : ℕ) (cb : Callback) (c : Conn) : Conn :=
  Conn.push (.callback cb) (Conn.log (.invoke serial cb { c.request with state := .nop })
    { c with request := { c.request with state := .nop } })

/-- The flag that `request_handler` finds after a head without a small body. -/
def streamed (c : Conn) : Conn :=
  { c with request := { c.request with flags := httpFlagSet c.request.flags httpFlgStreamed } }

def popped (stack : List Frame) (c : Conn) : Conn := { c with stack := stack }

/-- A response as `hs_request_begin_write` finds it. -/
def answered (request : HttpRequestS) (memused : ℤ) (c : Conn) : Conn :=
  Conn.log (.response request) { c with request := request, memused := memused }

/-- The response function that a call runs, and its blocks. -/
def responds : UserCall → Option ((HttpRequestS → ℤ → Option (HttpRequestS × ℤ)) × RespondEnv)
  | .respond response env =>
    some (fun request memused => hsRequestRespond env.date env.blks request response memused, env)
  | .respondChunk response env =>
    some (fun request memused => hsRequestRespondChunk env.date env.blks request response memused, env)
  | .respondChunkEnd response env =>
    some (fun request memused => hsRequestRespondChunkEnd env.blks request response memused, env)
  | _ => none

/-- `HSH_TOK_HEADERS_DONE` for a head whose body is streamed or absent. -/
def startsHandler (token : HshTokenS) : Bool :=
  httpFlagCheck token.flags hshTokFlagStreamedBody || httpFlagCheck token.flags hshTokFlagNoBody

theorem readCalls_blockOk (env : ReadEnv) : ∀ call ∈ env.readCalls, BlockOk call.blk := by
  intro call hcall
  obtain ⟨call, -, rfl⟩ := List.mem_map.1 hcall
  exact call.2

/-- A step, by what the code does. -/
inductive Move (cfg : Config) (c : Conn) : Label → Conn → Prop
  | wakeRead (live : c.live = true) (stack : c.stack = []) (state : c.request.state = .read) :
      Move cfg c .socketEvent (c.push .readRequest)
  | wakeWrite (live : c.live = true) (stack : c.stack = []) (state : c.request.state = .write) :
      Move cfg c .socketEvent (c.push .writeSocket)
  | swallow (live : c.live = true) (stack : c.stack = []) (notRead : c.request.state ≠ .read)
      (notWrite : c.request.state ≠ .write) : Move cfg c .socketEvent c
  | tick (live : c.live = true) (stack : c.stack = []) (left : c.request.timeout - 1 ≠ 0) :
      Move cfg c .timerEvent (setTimeout (c.request.timeout - 1) c)
  | expire (live : c.live = true) (stack : c.stack = []) (left : c.request.timeout - 1 = 0) :
      Move cfg c .timerEvent (hsRequestTerminateConnection (setTimeout (c.request.timeout - 1) c))
  | readSkip {env : ReadEnv} {stack : List Frame} (hstack : c.stack = .readRequest :: stack)
      (requires : hsBufferRequiresRead (entered cfg env (popped stack c)).request.buffer = false) :
      Move cfg c (.read env) ((entered cfg env (popped stack c)).push .parseBuffer)
  | readEof {env : ReadEnv} {stack : List Frame} {r : ReadReturn}
      (hstack : c.stack = .readRequest :: stack)
      (requires : hsBufferRequiresRead (entered cfg env (popped stack c)).request.buffer = true)
      (hr : hsReadIntoBuffer cfg.httpMaxRequestBufSize env.readCalls
        (entered cfg env (popped stack c)).request.buffer (entered cfg env (popped stack c)).memused = some r)
      (eof : r.bytes = 0) :
      Move cfg c (.read env) (hsRequestTerminateConnection (filled env r (entered cfg env (popped stack c))))
  | readMore {env : ReadEnv} {stack : List Frame} {r : ReadReturn}
      (hstack : c.stack = .readRequest :: stack)
      (requires : hsBufferRequiresRead (entered cfg env (popped stack c)).request.buffer = true)
      (hr : hsReadIntoBuffer cfg.httpMaxRequestBufSize env.readCalls
        (entered cfg env (popped stack c)).request.buffer (entered cfg env (popped stack c)).memused = some r)
      (more : r.bytes ≠ 0) :
      Move cfg c (.read env) ((filled env r (entered cfg env (popped stack c))).push .parseBuffer)
  | execNone {blk : Block} {respond : RespondEnv} {stack : List Frame} {token : HshTokenS}
      {parser : HshParserS} {buffer : HshBufferS} (hstack : c.stack = .parseBuffer :: stack)
      (hr : hshParserExec cfg.httpMaxRequestBufSize blk.1 c.request.parser c.request.buffer =
        some (token, parser, buffer)) (type : token.type = .none) :
      Move cfg c (.exec blk respond) (parsed parser buffer (popped stack c))
  | execErr {blk : Block} {respond : RespondEnv} {stack : List Frame} {token : HshTokenS}
      {parser : HshParserS} {buffer : HshBufferS} {request : HttpRequestS} {memused : ℤ}
      (hstack : c.stack = .parseBuffer :: stack)
      (hr : hshParserExec cfg.httpMaxRequestBufSize blk.1 c.request.parser c.request.buffer =
        some (token, parser, buffer)) (type : token.type = .err)
      (hresp : hsRequestRespondError respond.date respond.blks
        (parsed parser buffer (popped stack c)).request 400 (cstring "Bad Request") c.memused =
          some (request, memused)) :
      Move cfg c (.exec blk respond) (hsRequestBeginWrite (answered request memused
        ((parsed parser buffer (popped stack c)).log .parseErr)))
  | execLine {blk : Block} {respond : RespondEnv} {stack : List Frame} {token : HshTokenS}
      {parser : HshParserS} {buffer : HshBufferS} (hstack : c.stack = .parseBuffer :: stack)
      (hr : hshParserExec cfg.httpMaxRequestBufSize blk.1 c.request.parser c.request.buffer =
        some (token, parser, buffer))
      (type : token.type ≠ .none ∧ token.type ≠ .err ∧ token.type ≠ .body ∧
        (token.type = .headersDone → startsHandler token = false)) :
      Move cfg c (.exec blk respond)
        ((hsTokenArrayPush c.serial token (parsed parser buffer (popped stack c))).push .parseBuffer)
  | execHead {blk : Block} {respond : RespondEnv} {stack : List Frame} {token : HshTokenS}
      {parser : HshParserS} {buffer : HshBufferS} (hstack : c.stack = .parseBuffer :: stack)
      (hr : hshParserExec cfg.httpMaxRequestBufSize blk.1 c.request.parser c.request.buffer =
        some (token, parser, buffer)) (type : token.type = .headersDone)
      (starts : startsHandler token = true) :
      Move cfg c (.exec blk respond) (invoked c.serial .requestHandler (streamed
        (hsTokenArrayPush c.serial token (parsed parser buffer (popped stack c)))))
  | execSmall {blk : Block} {respond : RespondEnv} {stack : List Frame} {token : HshTokenS}
      {parser : HshParserS} {buffer : HshBufferS} (hstack : c.stack = .parseBuffer :: stack)
      (hr : hshParserExec cfg.httpMaxRequestBufSize blk.1 c.request.parser c.request.buffer =
        some (token, parser, buffer)) (type : token.type = .body)
      (small : httpFlagCheck token.flags hshTokFlagSmallBody = true) :
      Move cfg c (.exec blk respond) (invoked c.serial .requestHandler
        (hsTokenArrayPush c.serial token (parsed parser buffer (popped stack c))))
  | execFinal {blk : Block} {respond : RespondEnv} {stack : List Frame} {token : HshTokenS}
      {parser : HshParserS} {buffer : HshBufferS} (hstack : c.stack = .parseBuffer :: stack)
      (hr : hshParserExec cfg.httpMaxRequestBufSize blk.1 c.request.parser c.request.buffer =
        some (token, parser, buffer)) (type : token.type = .body)
      (small : httpFlagCheck token.flags hshTokFlagSmallBody = false)
      (final : httpFlagCheck token.flags hshTokFlagBodyFinal = true) (len : token.len > 0)
      (callback : c.request.chunkCb = true) :
      Move cfg c (.exec blk respond) (invoked c.serial .chunkCb
        ((hsTokenArrayPush c.serial token (parsed parser buffer (popped stack c))).push
          (.finalChunk c.serial)))
  | execPiece {blk : Block} {respond : RespondEnv} {stack : List Frame} {token : HshTokenS}
      {parser : HshParserS} {buffer : HshBufferS} (hstack : c.stack = .parseBuffer :: stack)
      (hr : hshParserExec cfg.httpMaxRequestBufSize blk.1 c.request.parser c.request.buffer =
        some (token, parser, buffer)) (type : token.type = .body)
      (small : httpFlagCheck token.flags hshTokFlagSmallBody = false)
      (final : httpFlagCheck token.flags hshTokFlagBodyFinal = false ∨ token.len ≤ 0)
      (callback : c.request.chunkCb = true) :
      Move cfg c (.exec blk respond) (invoked c.serial .chunkCb
        (hsTokenArrayPush c.serial token (parsed parser buffer (popped stack c))))
  | writeMore {call : WriteCall} {stack : List Frame} (hstack : c.stack = .writeSocket :: stack)
      (fits : 0 ≤ c.request.buffer.length - c.request.bytesWritten ∧ -1 ≤ call.bytes ∧
        call.bytes ≤ c.request.buffer.length - c.request.bytesWritten) (pipe : call.epipe = false)
      (left : (written call c).request.bytesWritten ≠ c.request.buffer.length) :
      Move cfg c (.write call) (setTimeout httpRequestTimeout (written call (popped stack c)))
  | writeErr {call : WriteCall} {stack : List Frame} (hstack : c.stack = .writeSocket :: stack)
      (pipe : call.epipe = true) :
      Move cfg c (.write call) (hsRequestTerminateConnection
        (finished httpRequestTimeout (written call (popped stack c))))
  | writeClose {call : WriteCall} {stack : List Frame} (hstack : c.stack = .writeSocket :: stack)
      (pipe : call.epipe = false)
      (all : (written call c).request.bytesWritten = c.request.buffer.length)
      (whole : httpFlagCheck c.request.flags httpChunkedResponse = false)
      (close : httpFlagCheck c.request.flags httpKeepAlive = false) :
      Move cfg c (.write call) (hsRequestTerminateConnection
        ((finished httpRequestTimeout (written call (popped stack c))).log (.responded c.serial)))
  | writeNext {call : WriteCall} {stack : List Frame} (hstack : c.stack = .writeSocket :: stack)
      (pipe : call.epipe = false)
      (all : (written call c).request.bytesWritten = c.request.buffer.length)
      (whole : httpFlagCheck c.request.flags httpChunkedResponse = false)
      (keep : httpFlagCheck c.request.flags httpKeepAlive = true) :
      Move cfg c (.write call) (hsRequestBeginRead
        ((finished httpKeepAliveTimeout (written call (popped stack c))).log (.responded c.serial)))
  | writeChunk {call : WriteCall} {stack : List Frame} (hstack : c.stack = .writeSocket :: stack)
      (pipe : call.epipe = false)
      (all : (written call c).request.bytesWritten = c.request.buffer.length)
      (chunk : httpFlagCheck c.request.flags httpChunkedResponse = true)
      (callback : c.request.chunkCb = true) :
      Move cfg c (.write call)
        (invoked c.serial .chunkCb (finished httpRequestTimeout (written call (popped stack c))))
  | respond {call : UserCall} {f : HttpRequestS → ℤ → Option (HttpRequestS × ℤ)} {env : RespondEnv}
      {request : HttpRequestS} {memused : ℤ} (user : userRuns c.stack = true) (live : c.live = true)
      (hcall : responds call = some (f, env)) (hf : f c.request c.memused = some (request, memused)) :
      Move cfg c (.call call) (hsRequestBeginWrite (answered request memused c))
  | readChunk (user : userRuns c.stack = true) (live : c.live = true) :
      Move cfg c (.call .readChunk) (hsRequestBeginRead
        { c with request := { c.request with state := .read, chunkCb := true } })
  | freeBuffer (user : userRuns c.stack = true) (live : c.live = true) :
      Move cfg c (.call .freeBuffer) (finished c.request.timeout c)
  | connection {directive : ℤ} (user : userRuns c.stack = true) (live : c.live = true) :
      Move cfg c (.call (.connection directive))
        { c with request := hsRequestSetKeepAliveFlag c.request directive }
  | callbackReturn {cb : Callback} {stack : List Frame} (hstack : c.stack = .callback cb :: stack) :
      Move cfg c .callbackReturn (popped stack c)
  | finalChunk {serial : ℕ} {stack : List Frame} (hstack : c.stack = .finalChunk serial :: stack)
      (live : c.live = true) (callback : c.request.chunkCb = true) :
      Move cfg c .finalChunk
        (invoked serial .chunkCb (hsTokenArrayPush serial { type := .body } (popped stack c)))

section Cases

variable {cfg : Config} {c c' : Conn} {l : Label}

theorem hsExecCallback_eq {serial : ℕ} {cb : Callback} (h : hsExecCallback serial cb c = some c') :
    c' = invoked serial cb c ∧ (cb = .chunkCb → c.request.chunkCb = true) := by
  unfold hsExecCallback at h
  split at h
  · cases h
  · rename_i set
    cases h
    refine ⟨rfl, fun hcb => ?_⟩
    exact eq_true_of_ne_false fun unset => set ⟨hcb, unset⟩

theorem startResponse_eq {f : HttpRequestS → ℤ → Option (HttpRequestS × ℤ)}
    (h : startResponse f c = some c') : ∃ request memused, f c.request c.memused = some (request, memused) ∧
      c' = hsRequestBeginWrite (answered request memused c) := by
  obtain ⟨r, hr, rfl⟩ := Option.map_eq_some_iff.1 h
  exact ⟨r.1, r.2, hr, rfl⟩

theorem move_read {env : ReadEnv} {stack : List Frame} (hstack : c.stack = .readRequest :: stack)
    (h : hsReadRequestAndExecUserCb (readOpts cfg) env (popped stack c) = some c') :
    Move cfg c (.read env) c' := by
  unfold hsReadRequestAndExecUserCb at h
  dsimp only at h
  split at h
  · rename_i requires
    obtain ⟨r, hr, rfl⟩ := Option.map_eq_some_iff.1 h
    split
    · exact .readEof hstack requires hr ‹_›
    · exact .readMore hstack requires hr ‹_›
  · rename_i requires
    cases h
    exact .readSkip hstack (eq_false_of_ne_true requires)

theorem move_exec {blk : Block} {respond : RespondEnv} {stack : List Frame}
    (hstack : c.stack = .parseBuffer :: stack)
    (h : hsParseBufferAndExecUserCb cfg.httpMaxRequestBufSize blk respond (popped stack c) = some c') :
    Move cfg c (.exec blk respond) c' := by
  obtain ⟨⟨token, parser, buffer⟩, hr, h⟩ := Option.bind_eq_some_iff.1 h
  dsimp only at h
  cases type : token.type <;> rw [type] at h <;> dsimp only at h
  case headersDone =>
    cases starts : startsHandler token with
    | true =>
      rw [startsHandler] at starts
      rw [if_pos starts] at h
      obtain ⟨rfl, -⟩ := hsExecCallback_eq h
      exact .execHead hstack hr type starts
    | false =>
      rw [startsHandler] at starts
      rw [if_neg (by rw [starts]; decide)] at h
      cases h
      exact .execLine hstack hr ⟨by simp [type], by simp [type], by simp [type], fun _ => starts⟩
  case body =>
    cases small : httpFlagCheck token.flags hshTokFlagSmallBody with
    | true =>
      rw [if_pos small] at h
      obtain ⟨rfl, -⟩ := hsExecCallback_eq h
      exact .execSmall hstack hr type small
    | false =>
      rw [if_neg (by rw [small]; decide)] at h
      split at h
      · rename_i final
        rw [Bool.and_eq_true, decide_eq_true_eq] at final
        obtain ⟨rfl, callback⟩ := hsExecCallback_eq h
        exact .execFinal hstack hr type small final.1 final.2 (callback rfl)
      · rename_i more
        obtain ⟨rfl, callback⟩ := hsExecCallback_eq h
        refine .execPiece hstack hr type small ?_ (callback rfl)
        rw [Bool.and_eq_true, decide_eq_true_eq, not_and_or] at more
        exact more.imp eq_false_of_ne_true not_lt.1
  case none =>
    cases h
    exact .execNone hstack hr type
  case err =>
    obtain ⟨request, memused, hf, rfl⟩ := startResponse_eq h
    exact .execErr hstack hr type hf
  all_goals
    cases h
    exact .execLine hstack hr ⟨by simp [type], by simp [type], by simp [type], by simp [type]⟩

/-- The return code of `hs_write_socket` -/
def writeRc (call : WriteCall) (c : Conn) : HsWriteRc :=
  if call.epipe then .socketErr
  else if (written call c).request.bytesWritten ≠ c.request.buffer.length then .continue
  else if httpFlagCheck c.request.flags httpChunkedResponse then .successChunk
  else if httpFlagCheck c.request.flags httpKeepAlive then .success
  else .successClose

theorem hsWriteSocket_eq {call : WriteCall} {r : HsWriteRc × Conn} (h : hsWriteSocket call c = some r) :
    (0 ≤ c.request.buffer.length - c.request.bytesWritten ∧ -1 ≤ call.bytes ∧
      call.bytes ≤ c.request.buffer.length - c.request.bytesWritten) ∧
      r = (writeRc call c, written call c) := by
  unfold hsWriteSocket at h
  dsimp only at h
  split at h
  · cases h
    exact ⟨‹_›, rfl⟩
  · cases h

theorem writeRc_flags {call : WriteCall} (pipe : call.epipe = false)
    (all : (written call c).request.bytesWritten = c.request.buffer.length) :
    writeRc call c = if httpFlagCheck c.request.flags httpChunkedResponse then .successChunk
      else if httpFlagCheck c.request.flags httpKeepAlive then .success else .successClose := by
  unfold writeRc
  simp only [pipe, Bool.false_eq_true, if_false, all, ne_eq, not_true_eq_false]

theorem move_write {call : WriteCall} {stack : List Frame} (hstack : c.stack = .writeSocket :: stack)
    (h : hsWriteSocketAndHandleReturnCode call (popped stack c) = some c') :
    Move cfg c (.write call) c' := by
  obtain ⟨r, hw, h⟩ := Option.bind_eq_some_iff.1 h
  obtain ⟨fits, rfl⟩ := hsWriteSocket_eq hw
  have rc : writeRc call (popped stack c) = writeRc call c := rfl
  rw [rc] at h
  by_cases pipe : call.epipe = true
  · have hrc : writeRc call c = .socketErr := if_pos pipe
    simp only [hrc] at h
    cases h
    exact .writeErr hstack pipe
  have pipe := eq_false_of_ne_true pipe
  by_cases all : (written call c).request.bytesWritten = c.request.buffer.length
  swap
  · have hrc : writeRc call c = .continue := by
      unfold writeRc
      rw [if_neg (by rw [pipe]; decide), if_pos all]
    simp only [hrc] at h
    cases h
    exact .writeMore hstack fits pipe all
  have hrc := writeRc_flags pipe all
  cases chunk : httpFlagCheck c.request.flags httpChunkedResponse with
  | true =>
    rw [chunk, if_pos rfl] at hrc
    simp only [hrc] at h
    obtain ⟨rfl, callback⟩ := hsExecCallback_eq h
    exact .writeChunk hstack pipe all chunk (callback rfl)
  | false =>
    rw [chunk, if_neg (by decide)] at hrc
    cases keep : httpFlagCheck c.request.flags httpKeepAlive with
    | true =>
      rw [keep, if_pos rfl] at hrc
      simp only [hrc] at h
      cases h
      exact .writeNext hstack pipe all chunk keep
    | false =>
      rw [keep, if_neg (by decide)] at hrc
      simp only [hrc] at h
      cases h
      exact .writeClose hstack pipe all chunk keep

theorem apiCall_responds {call : UserCall} {f : HttpRequestS → ℤ → Option (HttpRequestS × ℤ)}
    {env : RespondEnv} (h : responds call = some (f, env)) : apiCall c call = startResponse f c := by
  cases call <;> cases h <;> rfl

theorem move_call {call : UserCall} (user : userRuns c.stack = true) (live : c.live = true)
    (h : apiCall c call = some c') : Move cfg c (.call call) c' := by
  cases hcall : responds call with
  | some r =>
    rw [apiCall_responds hcall] at h
    obtain ⟨request, memused, hf, rfl⟩ := startResponse_eq h
    exact .respond user live hcall hf
  | none =>
    cases call with
    | readChunk =>
      cases h
      exact .readChunk user live
    | freeBuffer =>
      cases h
      exact .freeBuffer user live
    | connection directive =>
      cases h
      exact .connection user live
    | _ => cases hcall

/-- Every step is one of these. -/
theorem step_move (h : step cfg c l = some c') : Move cfg c l c' := by
  unfold step at h
  split at h
  · rename_i stack
    split at h
    · rename_i live
      cases h
      unfold hsOnEpollClientConnectionEvent
      split
      · exact .wakeRead live stack ‹_›
      split
      · exact .wakeWrite live stack ‹_›
      · exact .swallow live stack ‹_› ‹_›
    · cases h
  · rename_i stack
    split at h
    · rename_i live
      cases h
      unfold hsOnEpollRequestTimerEvent
      dsimp only
      split
      · exact .expire live stack ‹_›
      · exact .tick live stack ‹_›
    · cases h
  · exact move_read ‹_› h
  · exact move_exec ‹_› h
  · exact move_write ‹_› h
  · split at h
    · rename_i allowed
      exact move_call allowed.1 allowed.2 h
    · cases h
  · cases h
    exact .callbackReturn ‹_›
  · split at h
    · rename_i live
      obtain ⟨rfl, callback⟩ := hsExecCallback_eq h
      exact .finalChunk ‹_› live (callback rfl)
    · cases h
  · cases h

theorem step_writes {stack : List Frame} (hstack : c.stack = .writeSocket :: stack)
    (hs : Connection.step cfg c l = some c') : ∃ call, l = .write call := by
  unfold Connection.step at hs
  rw [hstack] at hs
  cases l with
  | write call => exact ⟨call, rfl⟩
  | call call => exact absurd hs (by simp [userRuns])
  | _ => cases hs

theorem write_fits {call : WriteCall} {stack : List Frame} (hstack : c.stack = .writeSocket :: stack)
    (hs : Connection.step cfg c (.write call) = some c') :
    0 ≤ c.request.buffer.length - c.request.bytesWritten ∧ -1 ≤ call.bytes ∧
      call.bytes ≤ c.request.buffer.length - c.request.bytesWritten := by
  unfold Connection.step at hs
  rw [hstack] at hs
  obtain ⟨r, hr, -⟩ := Option.bind_eq_some_iff.1 hs
  exact (hsWriteSocket_eq hr).1

theorem accepted_cases (h : Accepted c) : ∃ memused, c = hsRequestBeginRead (hsRequestInit memused) ∨
    ∃ respond request memused', hsRequestRespondError (RespondEnv.date respond) respond.blks
      (hsRequestInit memused).request 503 (cstring "Service Unavailable") memused = some (request, memused') ∧
      c = hsRequestBeginWrite (answered request memused' (hsRequestInit memused)) := by
  obtain ⟨respond, memused, h⟩ := h
  unfold hsAcceptAndBeginRequestCycle at h
  dsimp only at h
  split at h
  · obtain ⟨request, memused', hf, rfl⟩ := startResponse_eq h
    exact ⟨memused, .inr ⟨respond, request, memused', hf, rfl⟩⟩
  · cases h
    exact ⟨memused, .inl rfl⟩

end Cases

end HttpServer.ConnectionSteps
