import HttpServer.SharedCounter
import HttpServer.SharedErrno
import HttpServer.Lib.Simulation

set_option autoImplicit false

/-!
# Connections of one server

The connections of a server share the counter `server->memused` and `errno`. The counter decides whether a new
connection is refused, and nothing else. `errno` reaches a connection when a write that succeeds finds the `EPIPE`
of an earlier call; where none does, what an accepted connection does depends on its own steps only.
-/
namespace HttpServer.Isolation
open HttpServer.Parser ReadBuffer RequestUtil PrintBuffer Respond Connection ConnectionSteps ConnectionInvariant
  HeldRequests ServerMemory SharedCounter SharedErrno

section Printing

variable (d : ℤ)

theorem lines_raise (date : CString) (request : HttpRequestS) (response : HttpResponseS) (s : Printing) :
    ((raisePrinting d s).printf (statusLine response.status date)).bind (fun s =>
      (if httpFlagCheck request.flags httpChunkedResponse then some s
        else s.printf (contentLengthLine response.contentLength)).bind fun s =>
          (httpSerializeHeadersList response.headers s).map fun s => (request, s)) =
      ((s.printf (statusLine response.status date)).bind (fun s =>
        (if httpFlagCheck request.flags httpChunkedResponse then some s
          else s.printf (contentLengthLine response.contentLength)).bind fun s =>
            (httpSerializeHeadersList response.headers s).map fun s => (request, s))).map
        fun r => (r.1, raisePrinting d r.2) := by
  rw [printf_raise]
  refine bind_raise fun s => ?_
  have line : (if httpFlagCheck request.flags httpChunkedResponse then some (raisePrinting d s)
      else (raisePrinting d s).printf (contentLengthLine response.contentLength)) =
      (if httpFlagCheck request.flags httpChunkedResponse then some s
        else s.printf (contentLengthLine response.contentLength)).map (raisePrinting d) := by
    split
    · rfl
    · exact printf_raise d _ s
  rw [line]
  refine bind_raise fun s => ?_
  rw [headers_raise, Option.map_map, Option.map_map]
  rfl

theorem serialize_raise (date : CString) (request : HttpRequestS) (response : HttpResponseS) (s : Printing) :
    httpSerializeHeaders date request response (raisePrinting d s) =
      (httpSerializeHeaders date request response s).map fun r => (r.1, raisePrinting d r.2) := by
  unfold httpSerializeHeaders
  dsimp only
  cases (if httpFlagCheck request.flags httpAutomatic then hsRequestDetectKeepAliveFlag request else some request) with
  | none => rfl
  | some request =>
    dsimp only [Option.bind_some]
    -- the connection header is the same on both sides
    split
    all_goals
      split
      · exact lines_raise d date request _ s
      · rfl

theorem respond_raise (date : CString) (blks : ℕ → NewBlock) (request : HttpRequestS) (response : HttpResponseS)
    (memused : ℤ) : hsRequestRespond date blks request response (memused + d) =
      (hsRequestRespond date blks request response memused).map (raise d) := by
  unfold hsRequestRespond
  rw [init_raise, serialize_raise]
  refine bind_raise fun r => ?_
  have perform : ∀ s, httpPerformResponse r.1 (raisePrinting d s) = raise d (httpPerformResponse r.1 s) :=
    perform_raise d r.1
  cases response.body with
  | none => exact congrArg some (perform r.2)
  | some body =>
    dsimp only
    rw [memcpy_raise, Option.map_map, Option.map_map]
    exact congrArg (Option.map · _) (funext perform)

theorem respondChunk_raise (date : CString) (blks : ℕ → NewBlock) (request : HttpRequestS)
    (response : HttpResponseS) (memused : ℤ) : hsRequestRespondChunk date blks request response (memused + d) =
      (hsRequestRespondChunk date blks request response memused).map (raise d) := by
  unfold hsRequestRespondChunk
  dsimp only
  rw [init_raise, serialize_raise]
  have started : ∀ {a : Option (HttpRequestS × Printing)} {b : HttpRequestS × Printing},
      (if httpFlagCheck request.flags httpChunkedResponse then some (b.1, raisePrinting d b.2)
        else a.map fun r => (r.1, raisePrinting d r.2)) =
        (if httpFlagCheck request.flags httpChunkedResponse then some b else a).map
          fun r => (r.1, raisePrinting d r.2) := by
    intro a b
    split <;> rfl
  refine (congrArg (Option.bind · _) (@started _ (request, Printing.init blks memused))).trans (bind_raise fun r => ?_)
  dsimp only
  rw [printf_raise]
  refine bind_raise fun s => ?_
  rw [memcpy_raise]
  refine bind_raise fun s => ?_
  rw [printf_raise, Option.map_map, Option.map_map]
  exact congrArg (Option.map · _) (funext (perform_raise d _))

theorem respondChunkEnd_raise (blks : ℕ → NewBlock) (request : HttpRequestS) (response : HttpResponseS)
    (memused : ℤ) : hsRequestRespondChunkEnd blks request response (memused + d) =
      (hsRequestRespondChunkEnd blks request response memused).map (raise d) := by
  unfold hsRequestRespondChunkEnd
  rw [init_raise, printf_raise]
  refine bind_raise fun s => ?_
  rw [headers_raise]
  refine bind_raise fun s => ?_
  rw [printf_raise, Option.map_map, Option.map_map]
  exact congrArg (Option.map · _) (funext (perform_raise d _))

end Printing

section Steps

variable (d : ℤ) {cfg : Config}

/-- A connection under a counter that is higher by `d`. -/
def raised (c : Conn) : Conn := { c with memused := c.memused + d }

theorem terminate_raised (c : Conn) :
    hsRequestTerminateConnection (raised d c) = raised d (hsRequestTerminateConnection c) := by
  unfold hsRequestTerminateConnection
  change Conn.log .terminate { c with
    request := { c.request with buffer := (hsBufferFree c.request.buffer (c.memused + d)).1, tokens := [] }
    memused := (hsBufferFree c.request.buffer (c.memused + d)).2, live := false } = _
  rw [hsBufferFree_raise]
  rfl

theorem startResponse_raised {respond : HttpRequestS → ℤ → Option (HttpRequestS × ℤ)}
    (h : ∀ request memused, respond request (memused + d) = (respond request memused).map (raise d)) (c : Conn) :
    startResponse respond (raised d c) = (startResponse respond c).map (raised d) := by
  unfold startResponse
  change (respond c.request (c.memused + d)).map _ = _
  rw [h, Option.map_map, Option.map_map]
  rfl

theorem hsExecCallback_raised (serial : ℕ) (cb : Callback) (c : Conn) :
    hsExecCallback serial cb (raised d c) = (hsExecCallback serial cb c).map (raised d) := by
  unfold hsExecCallback
  change (if cb = .chunkCb ∧ c.request.chunkCb = false then none else _) = _
  split <;> rfl

theorem parse_raised (max : ℤ) (blk : Block) (respond : RespondEnv) (c : Conn) :
    hsParseBufferAndExecUserCb max blk respond (raised d c) =
      (hsParseBufferAndExecUserCb max blk respond c).map (raised d) := by
  unfold hsParseBufferAndExecUserCb
  change (hshParserExec max blk.1 c.request.parser c.request.buffer).bind _ = _
  cases hshParserExec max blk.1 c.request.parser c.request.buffer with
  | none => rfl
  | some r =>
    obtain ⟨⟨type, flags, index, len⟩, parser, buffer⟩ := r
    -- what is left of the connection when the token is pushed
    let pushed : HshTokenE → Conn := fun type =>
      hsTokenArrayPush c.serial ⟨type, flags, index, len⟩ (parsed parser buffer c)
    cases type with
    | headersDone =>
      dsimp only [Option.bind_some]
      split
      · exact hsExecCallback_raised d c.serial .requestHandler (streamed (pushed .headersDone))
      · rfl
    | body =>
      dsimp only [Option.bind_some]
      split
      · exact hsExecCallback_raised d c.serial .requestHandler (pushed .body)
      · split
        · exact hsExecCallback_raised d c.serial .chunkCb ((pushed .body).push (.finalChunk c.serial))
        · exact hsExecCallback_raised d c.serial .chunkCb (pushed .body)
    | err =>
      exact startResponse_raised d
        (fun request memused => respond_raise d respond.date respond.blks request _ memused)
        ((parsed parser buffer c).log .parseErr)
    | _ => rfl

theorem read_raised (opts : HsReadOpts) (env : ReadEnv) (c : Conn) :
    hsReadRequestAndExecUserCb opts env (raised d c) = (hsReadRequestAndExecUserCb opts env c).map (raised d) := by
  have init : ∀ c, initBuffer opts env.bufBlk (raised d c) = raised d (initBuffer opts env.bufBlk c) := by
    intro c
    unfold initBuffer
    change (if c.request.buffer.buf = 0 then _ else _) = _
    split
    · refine congrArg (fun memused => { c with
        request := { c.request with
          buffer := (hsBufferInit env.bufBlk.1 opts.initialRequestBufCapacity c.memused).1, parser := hshParserInit }
        memused := memused, serial := c.serial + 1 }) ?_
      change c.memused + d + _ = c.memused + _ + d
      ring
    · rfl
  let started : Conn → Conn := fun c =>
    { c with request := { c.request with state := .read, timeout := httpRequestTimeout } }
  let after : Conn → Option Conn := fun c =>
    if hsBufferRequiresRead c.request.buffer then
      (hsReadIntoBuffer opts.maxRequestBufCapacity env.readCalls c.request.buffer c.memused).map fun r =>
        if r.bytes = opts.eofRc then hsRequestTerminateConnection (filled env r c)
        else (filled env r c).push .parseBuffer
    else some (c.push .parseBuffer)
  have fold : ∀ c, hsReadRequestAndExecUserCb opts env c = after (initBuffer opts env.bufBlk (started c)) :=
    fun _ => rfl
  have reads : ∀ c, after (raised d c) = (after c).map (raised d) := by
    intro c
    change (if hsBufferRequiresRead c.request.buffer then
      (hsReadIntoBuffer opts.maxRequestBufCapacity env.readCalls c.request.buffer (c.memused + d)).map fun r =>
        if r.bytes = opts.eofRc then hsRequestTerminateConnection (filled env r (raised d c))
        else (filled env r (raised d c)).push .parseBuffer
      else some (raised d (c.push .parseBuffer))) = _
    rw [hsReadIntoBuffer_raise, Option.map_map]
    change _ = Option.map _ (if hsBufferRequiresRead c.request.buffer then _ else _)
    split
    · rw [Option.map_map]
      refine congrArg (Option.map · _) (funext fun r => ?_)
      change (if r.bytes = opts.eofRc then hsRequestTerminateConnection (raised d (filled env r c))
        else raised d ((filled env r c).push .parseBuffer)) = raised d (if r.bytes = opts.eofRc then _ else _)
      split
      · exact terminate_raised d _
      · rfl
    · rfl
  rw [fold, fold, show started (raised d c) = raised d (started c) from rfl, init, reads]

theorem finished_raised (timeout : ℤ) (c : Conn) : finished timeout (raised d c) = raised d (finished timeout c) := by
  have free := hsBufferFree_raise d c.request.buffer c.memused
  unfold finished
  change ({ c with
    request := { c.request with
      timeout := timeout, buffer := (hsBufferFree c.request.buffer (c.memused + d)).1 }
    memused := (hsBufferFree c.request.buffer (c.memused + d)).2 } : Conn) = _
  rw [free]
  rfl

theorem write_raised (call : WriteCall) (c : Conn) :
    hsWriteSocketAndHandleReturnCode call (raised d c) = (hsWriteSocketAndHandleReturnCode call c).map (raised d) := by
  have write : hsWriteSocket call (raised d c) = (hsWriteSocket call c).map fun r => (r.1, raised d r.2) := by
    obtain ⟨request, live, interest, stack, memused, serial, events⟩ := c
    unfold hsWriteSocket raised
    dsimp only
    split <;> rfl
  unfold hsWriteSocketAndHandleReturnCode
  rw [write]
  refine bind_raise fun r => ?_
  obtain ⟨rc, c⟩ := r
  cases rc with
  | «continue» => rfl
  | success =>
    change some (hsRequestBeginRead ((finished httpKeepAliveTimeout (raised d c)).log (.responded c.serial))) = _
    rw [finished_raised]
    rfl
  | successChunk =>
    change hsExecCallback c.serial .chunkCb (finished httpRequestTimeout (raised d c)) = _
    rw [finished_raised]
    exact hsExecCallback_raised d c.serial .chunkCb (finished httpRequestTimeout c)
  | successClose =>
    change some (hsRequestTerminateConnection ((finished httpRequestTimeout (raised d c)).log (.responded c.serial))) = _
    rw [finished_raised]
    exact congrArg some (terminate_raised d ((finished httpRequestTimeout c).log (.responded c.serial)))
  | socketErr =>
    change some (hsRequestTerminateConnection (finished httpRequestTimeout (raised d c))) = _
    rw [finished_raised]
    exact congrArg some (terminate_raised d (finished httpRequestTimeout c))

theorem call_raised (call : UserCall) (c : Conn) : apiCall (raised d c) call = (apiCall c call).map (raised d) := by
  cases call with
  | respond response env =>
    exact startResponse_raised d (fun request memused => respond_raise d env.date env.blks request response memused) c
  | respondChunk response env =>
    exact startResponse_raised d (fun request memused => respondChunk_raise d env.date env.blks request response memused) c
  | respondChunkEnd response env =>
    exact startResponse_raised d (fun request memused => respondChunkEnd_raise d env.blks request response memused) c
  | freeBuffer => exact congrArg some (finished_raised d c.request.timeout c)
  | _ => rfl

/-- A step does the same whatever the counter is. -/
theorem step_raised (c : Conn) (l : Label) :
    Connection.step cfg (raised d c) l = (Connection.step cfg c l).map (raised d) := by
  obtain ⟨request, live, interest, stack, memused, serial, events⟩ := c
  cases l with
  | socketEvent =>
    rcases stack with _ | ⟨frame, stack⟩
    · change (if live = true then some (hsOnEpollClientConnectionEvent _) else none) = Option.map _ (if live = true then _ else _)
      split
      · unfold hsOnEpollClientConnectionEvent
        change some (if request.state = .read then _ else if request.state = .write then _ else _) =
          some (raised d (if request.state = .read then _ else if request.state = .write then _ else _))
        split
        · rfl
        · split <;> rfl
      · rfl
    · rfl
  | timerEvent =>
    rcases stack with _ | ⟨frame, stack⟩
    · change (if live = true then some (hsOnEpollRequestTimerEvent _) else none) = Option.map _ (if live = true then _ else _)
      split
      · unfold hsOnEpollRequestTimerEvent
        change some (if request.timeout - 1 = 0 then _ else _) = some (raised d (if request.timeout - 1 = 0 then _ else _))
        split
        · exact congrArg some (terminate_raised d
            (setTimeout (request.timeout - 1) ⟨request, live, interest, [], memused, serial, events⟩))
        · rfl
      · rfl
    · rfl
  | read env =>
    rcases stack with _ | ⟨_ | _ | _ | _ | _, stack⟩
    case cons.readRequest => exact read_raised d (readOpts cfg) env ⟨request, live, interest, stack, memused, serial, events⟩
    all_goals rfl
  | exec blk respond =>
    rcases stack with _ | ⟨_ | _ | _ | _ | _, stack⟩
    case cons.parseBuffer =>
      exact parse_raised d cfg.httpMaxRequestBufSize blk respond ⟨request, live, interest, stack, memused, serial, events⟩
    all_goals rfl
  | write call =>
    rcases stack with _ | ⟨_ | _ | _ | _ | _, stack⟩
    case cons.writeSocket => exact write_raised d call ⟨request, live, interest, stack, memused, serial, events⟩
    all_goals rfl
  | call call =>
    change (if userRuns stack = true ∧ live = true then apiCall _ call else none) =
      Option.map _ (if userRuns stack = true ∧ live = true then _ else _)
    split
    · exact call_raised d call _
    · rfl
  | callbackReturn =>
    rcases stack with _ | ⟨_ | _ | _ | _ | _, stack⟩ <;> rfl
  | finalChunk =>
    rcases stack with _ | ⟨_ | _ | _ | _ | serial', stack⟩
    case cons.finalChunk =>
      change (if live = true then hsExecCallback serial' .chunkCb _ else none) = Option.map _ (if live = true then _ else _)
      split
      · exact hsExecCallback_raised d serial' .chunkCb (hsTokenArrayPush serial' { type := .body }
          ⟨request, live, interest, stack, memused, serial, events⟩)
      · rfl
    all_goals rfl

end Steps

section Server

variable {cfg : Config} {p q : Process} {c c' : Conn} {l : Label} {i : ℕ} {error : ℤ} {ls : List ProcessLabel}

/-- No write that succeeds finds `EPIPE` in `errno`, and `read` does not fail with it. -/
def Clean (p : Process) : ProcessLabel → Prop
  | .conn _ (.write call) _ => call.bytes = -1 ∨ p.errno ≠ epipe
  | .conn _ (.read _) error => error ≠ epipe
  | _ => True

instance (p : Process) (l : ProcessLabel) : Decidable (Clean p l) :=
  match l with
  | .conn _ (.write _) _ => inferInstanceAs (Decidable (_ ∨ _ ≠ _))
  | .conn _ (.read _) _ => inferInstanceAs (Decidable (_ ≠ _))
  | .accept _ | .loop _ | .conn _ .socketEvent _ | .conn _ .timerEvent _ | .conn _ (.exec _ _) _ | .conn _ (.call _) _
  | .conn _ .callbackReturn _ | .conn _ .finalChunk _ => isTrue trivial

/-- The step that is one of connection `i`, as the only connection of a process takes it. -/
def own (i : ℕ) : ProcessLabel → Option ProcessLabel
  | .conn j l error => if j = i then some (.conn 0 l error) else none
  | .accept _ | .loop _ => none

/-- A server with one connection. -/
def single (c : Conn) : Server := { conns := [c], memused := c.memused }

/-- The connection has run as the only one of its process, up to the counter. What `EPIPE` came from has closed it. -/
structure Alone (cfg : Config) (ls : List ProcessLabel) (c : Conn) : Prop where
  run : ∃ first p last d, Accepted first ∧ Runs.exec (Process.step cfg) ls { server := single first } = some p ∧
    p.server = single last ∧ c = raised d last ∧ Steady last ∧ (p.errno = epipe → last.live = false)

theorem failing_cases (move : Move cfg c l c') (failed : (since c c').any failing = true) :
    (∃ env, l = .read env) ∨ ∃ call, l = .write call ∧ call.bytes = -1 := by
  have write : ∀ {call : WriteCall}, failing (.write call.bytes) = true → call.bytes = -1 := of_decide_eq_true
  cases move with
  | readSkip => exact .inl ⟨_, rfl⟩
  | readEof => exact .inl ⟨_, rfl⟩
  | readMore => exact .inl ⟨_, rfl⟩
  | @writeMore call => exact .inr ⟨call, rfl, by simpa [since, setTimeout, written, popped, failing] using failed⟩
  | @writeErr call =>
    exact .inr ⟨call, rfl, by simpa [since, hsRequestTerminateConnection, finished, written, popped, failing] using failed⟩
  | @writeClose call =>
    exact .inr ⟨call, rfl, by simpa [since, hsRequestTerminateConnection, finished, written, popped, failing] using failed⟩
  | @writeNext call =>
    exact .inr ⟨call, rfl, by simpa [since, hsRequestBeginRead, finished, written, popped, failing] using failed⟩
  | @writeChunk call =>
    exact .inr ⟨call, rfl, by simpa [since, invoked, finished, written, popped, failing] using failed⟩
  | _ =>
    simp [since, setTimeout, hsRequestTerminateConnection, parsed, popped, hsRequestBeginWrite, answered, hsTokenArrayPush,
      invoked, streamed, hsRequestBeginRead, finished, failing] at failed

/-- A connection that was closed stays so. -/
theorem closed_stays (steady : Steady c) (dead : c.live = false) (move : Move cfg c l c') : c'.live = false := by
  have library : ∀ {frame : Frame} {stack : List Frame}, c.stack = frame :: stack → waits frame = false → False :=
    fun hstack runs => absurd (dead.symm.trans (steady.library hstack runs).live) (by decide)
  cases move with
  | wakeRead live | wakeWrite live | swallow live | tick live | expire live => exact absurd (dead.symm.trans live) (by decide)
  | readSkip hstack | readEof hstack | readMore hstack => exact (library hstack rfl).elim
  | execNone hstack | execErr hstack | execLine hstack | execHead hstack | execSmall hstack | execFinal hstack
  | execPiece hstack => exact (library hstack rfl).elim
  | writeMore hstack | writeErr hstack | writeClose hstack | writeNext hstack | writeChunk hstack =>
    exact (library hstack rfl).elim
  | respond _ live | readChunk _ live | freeBuffer _ live | connection _ live | finalChunk _ live =>
    exact absurd (dead.symm.trans live) (by decide)
  | callbackReturn => exact dead

theorem write_epipe {call : WriteCall} (pipe : call.epipe = true) (move : Move cfg c (.write call) c') : c'.live = false := by
  cases move with
  | writeErr => rfl
  | writeMore _ _ other | writeClose _ other | writeNext _ other | writeChunk _ other =>
    exact absurd (other.symm.trans pipe) (by decide)

theorem agrees_alone (agrees : Agrees p error l) (clean : Clean p (.conn i l error)) (steady : Steady c)
    (quiet : q.errno = epipe → c.live = false) (move : Move cfg c l c') : Agrees q error l := by
  cases l with
  | write call =>
    have live : c.live = true := by
      cases move with
      | writeMore hstack | writeErr hstack | writeClose hstack | writeNext hstack | writeChunk hstack =>
        exact (steady.library hstack rfl).live
    have here : call.epipe = (writeCall p.errno call.bytes error).epipe := agrees
    have plain : call.bytes = -1 ∨ q.errno ≠ epipe := .inr fun stale => absurd ((quiet stale).symm.trans live) (by decide)
    change call.epipe = (writeCall q.errno call.bytes error).epipe
    rw [here, hsWriteSocketRc_own clean, hsWriteSocketRc_own plain]
  | _ => trivial

theorem Alone.step {memused : ℤ} (h : Alone cfg ls c) (agrees : Agrees p error l) (clean : Clean p (.conn i l error))
    (hs : Connection.step cfg { c with memused := memused } l = some c') : Alone cfg (ls ++ [.conn 0 l error]) c' := by
  obtain ⟨first, q, last, d, accepted, run, server, rfl, steady, quiet⟩ := h.run
  have under : ({ raised d last with memused := memused } : Conn) = raised (memused - last.memused) last := by
    unfold raised
    rw [add_sub_cancel]
  rw [under, step_raised] at hs
  obtain ⟨next, hnext, rfl⟩ := Option.map_eq_some_iff.1 hs
  have move := step_move hnext
  have here := agrees_alone agrees clean steady quiet move
  -- the same step of the process with one connection
  have stepped : q.step cfg (.conn 0 l error) = some (if (since last next).any failing
      then { q with server := single next }.fail error else { q with server := single next }) := by
    unfold Process.step
    dsimp only
    rw [if_pos here, server]
    change ((Connection.step cfg last l).map _).bind _ = _
    rw [hnext]
    rfl
  refine ⟨first, _, next, memused - last.memused, accepted, Runs.exec_trans run (Runs.exec_single stepped), ?_, rfl,
    steady.step move, fun stale => ?_⟩
  · split <;> rfl
  · split at stale
    · rename_i failed
      have stale : error = epipe := stale
      rcases failing_cases move failed with ⟨env, rfl⟩ | ⟨call, rfl, bytes⟩
      · exact absurd stale clean
      · refine write_epipe (Eq.trans here ?_) move
        change decide ((if call.bytes = -1 then error else q.errno) = epipe) = true
        rw [if_pos bytes, stale]
        rfl
    · exact closed_stays steady (quiet stale) move

theorem alone_accepted {respond : RespondEnv} {memused : ℤ} (h : hsAcceptAndBeginRequestCycle respond memused = some c) :
    Alone cfg [] c := by
  have accepted : Accepted c := ⟨respond, memused, h⟩
  have fresh : (0 : ℤ) ≠ epipe := by decide
  refine ⟨c, _, c, 0, accepted, rfl, rfl, ?_, steady_accepted accepted, fun stale => absurd stale fresh⟩
  unfold raised
  rw [add_zero]

/-- A connection takes no steps before it is accepted, and then each of them as the only one. -/
theorem process_alone (run : Runs.exec (Runs.guarded (Process.step cfg) Clean) ls {} = some p) :
    (∀ i, p.server.conns.length ≤ i → ls.filterMap (own i) = []) ∧
      ∀ i c, p.server.conns[i]? = some c → Alone cfg (ls.filterMap (own i)) c := by
  induction ls using List.reverseRecOn generalizing p with
  | nil =>
    cases run
    exact ⟨fun _ _ => rfl, fun i c h => by simp at h⟩
  | append_singleton ls l ih =>
    obtain ⟨before, run, last⟩ := Runs.exec_concat run
    obtain ⟨fresh, alone⟩ := ih run
    obtain ⟨clean, last⟩ := Runs.guarded_cases last
    have labels : ∀ i, (ls ++ [l]).filterMap (own i) = ls.filterMap (own i) ++ (own i l).toList := by
      intro i
      rw [List.filterMap_append]
      cases h : own i l <;> simp [h]
    cases l with
    | loop error =>
      cases last
      exact ⟨fun i le => by simpa [labels, own] using fresh i le, fun i c hc => by simpa [labels, own] using alone i c hc⟩
    | accept respond =>
      obtain ⟨server, hs, rfl⟩ := Option.map_eq_some_iff.1 last
      obtain ⟨c, hc, rfl⟩ := Option.map_eq_some_iff.1 hs
      refine ⟨fun i le => ?_, fun i c' hc' => ?_⟩
      · rw [labels]
        simp only [List.length_append, List.length_singleton] at le
        simpa [own] using fresh i (by omega)
      · rw [labels]
        simp only [own, Option.toList_none, List.append_nil]
        rcases Nat.lt_or_ge i before.server.conns.length with lt | ge
        · exact alone i c' ((List.getElem?_append_left lt).symm.trans hc')
        · have new := (List.getElem?_append_right ge).symm.trans hc'
          obtain ⟨here, rfl⟩ : i - before.server.conns.length = 0 ∧ c = c' := by
            cases hi : i - before.server.conns.length with
            | zero => simpa [hi] using new
            | succ n => simp [hi] at new
          rw [fresh i ge]
          exact alone_accepted hc
    | conn j l error =>
      unfold Process.step at last
      dsimp only at last
      split at last
      swap
      · cases last
      rename_i agrees
      obtain ⟨c, hc, last⟩ := Option.bind_eq_some_iff.1 last
      obtain ⟨server, hs, last⟩ := Option.bind_eq_some_iff.1 last
      obtain ⟨d, -, rfl⟩ := Option.map_eq_some_iff.1 last
      obtain ⟨c₁, hc₁, hs⟩ := Option.bind_eq_some_iff.1 hs
      obtain ⟨c', hc', rfl⟩ := Option.map_eq_some_iff.1 hs
      obtain rfl : c₁ = c := Option.some.inj (hc₁.symm.trans hc)
      have conns : (if (since c₁ d).any failing
          then ({ before with server := { conns := before.server.conns.set j c', memused := c'.memused } } : Process).fail error
          else { before with server := { conns := before.server.conns.set j c', memused := c'.memused } }).server.conns =
            before.server.conns.set j c' := by
        split <;> rfl
      rw [conns]
      have lt : j < before.server.conns.length := (List.getElem?_eq_some_iff.1 hc).1
      refine ⟨fun i le => ?_, fun i d hd => ?_⟩
      · rw [labels]
        rw [List.length_set] at le
        have other : j ≠ i := by omega
        simpa [own, other] using fresh i le
      · rw [labels]
        by_cases same : j = i
        · subst same
          obtain rfl : c' = d := by simpa [lt] using hd
          simpa [own] using (alone j c₁ hc).step agrees clean hc'
        · have unchanged : before.server.conns[i]? = some d := by simpa [List.getElem?_set, same] using hd
          simpa [own, same] using alone i d unchanged

/-- In every run of a server in which no write that succeeds finds `EPIPE` in `errno`, whatever the other connections
    do, each connection has done what its own steps do in a process where it is the only one, up to the shared
    counter. -/
theorem connections_alone (run : Runs.exec (Runs.guarded (Process.step cfg) Clean) ls {} = some p)
    (hc : p.server.conns[i]? = some c) : ∃ first q last d, Accepted first ∧
      Runs.exec (Process.step cfg) (ls.filterMap (own i)) { server := single first } = some q ∧ q.server.conns = [last] ∧
      c = { last with memused := last.memused + d } := by
  obtain ⟨first, q, last, d, accepted, alone, server, same, -⟩ := ((process_alone run).2 i c hc).run
  exact ⟨first, q, last, d, accepted, alone, congrArg Server.conns server, same⟩

/-- A request arrives on a connection and is answered. -/
def served : List Label :=
  handled ++ [.call (.respond {} sessionEnv), .write ⟨98, false⟩]

/-- A read of the first connection fails while a request arrives on the second, which is answered. -/
theorem connections_alone_two : ∃ p c,
    Runs.exec (Runs.guarded (Process.step {}) Clean)
      ([.accept sessionEnv, .accept sessionEnv, .conn 0 (readsOnce .fail) 11] ++ served.map (.conn 1 · 11)) {} = some p ∧
      p.server.conns[1]? = some c ∧ c.request.tokens.length = 6 ∧ p.errno = 11 ∧ ∃ first q last d, Accepted first ∧
        Runs.exec (Process.step {}) (served.map (.conn 0 · 11)) { server := single first } = some q ∧
        q.server.conns = [last] ∧ c = { last with memused := last.memused + d } := by
  have run : ((Runs.exec (Runs.guarded (Process.step {}) Clean)
      ([.accept sessionEnv, .accept sessionEnv, .conn 0 (readsOnce .fail) 11] ++ served.map (.conn 1 · 11)) {}).any fun p =>
        p.server.conns[1]?.any fun c => decide (c.request.tokens.length = 6 ∧ p.errno = 11)) = true := by
    decide +kernel
  obtain ⟨p, hp, run⟩ := (Option.any_eq_true _ _).1 run
  obtain ⟨c, hc, checks⟩ := (Option.any_eq_true _ _).1 run
  obtain ⟨tokens, errno⟩ := of_decide_eq_true checks
  exact ⟨p, c, hp, hc, tokens, errno, connections_alone hp hc⟩

end Server

end HttpServer.Isolation
