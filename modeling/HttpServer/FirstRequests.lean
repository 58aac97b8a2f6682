import HttpServer.KeptHeads
import HttpServer.ResponseFronts
import HttpServer.ServedRequests

set_option autoImplicit false

/-!
# The first request of a connection

Until its response starts, user code asks for pieces of its body at most. Whenever user code holds the
request, its head is at the front of the buffer and its tokens are those of the head.
-/
namespace HttpServer.FirstRequests
open ParserGrammar HttpServer.Parser ReadBuffer ParserInvariant ParserRuns HeadMachine HeadRuns BodyPhases HeadFields
  HeadTexts RequestRuns KeptHeads RequestUtil Respond Connection ConnectionSteps ConnectionInvariant HeldRequests
  AnsweredRequests ServedRequests ResponseText ResponseFronts

section Places

variable {max initial : ℤ} {blk : NewBlock} {input w : List UInt8} {tokens : List HshTokenS} {token : HshTokenS}
  {parser parser' : HshParserS} {buffer buffer' : HshBufferS}

/-- A run over one request. -/
inductive Place (max : ℤ) (input : List UInt8) (tokens : List HshTokenS) (parser : HshParserS)
    (buffer : HshBufferS) : Prop
  | head {w : List UInt8} {h : HeadScan} (inHead : InHead max input tokens parser buffer w h)
      (plain : lines tokens = tokens)
  | failed (noBody : NoBody parser) (error : phase parser.state = .error)
  | past {w : List UInt8} (h : Past max input tokens parser buffer w)

theorem place_init {memused : ℤ} (hblk : BlockOk blk) (nonneg : 0 ≤ initial) (le : initial ≤ max)
    (max_lt : max < 2147483648) : Place max [] [] hshParserInit (hsBufferInit blk initial memused).1 :=
  .head (inHead_init hblk nonneg le max_lt) rfl

theorem Place.read {calls : List ReadCall} {memused : ℤ} {r : ReadReturn} (h : Place max input tokens parser buffer)
    (max_ge : -2147483648 ≤ max) (max_lt : max < 2147483648) (hblk : ∀ call ∈ calls, BlockOk call.blk)
    (hr : hsReadIntoBuffer max calls buffer memused = some r) :
    Place max (input ++ received calls) tokens parser r.buffer := by
  cases h with
  | head inHead plain => exact .head (inHead.read max_ge max_lt hblk hr) plain
  | failed noBody error => exact .failed noBody error
  | past h => exact .past (h.read max_ge max_lt hblk hr)

theorem Place.exec (h : Place max input tokens parser buffer) (hblk : BlockOk blk) (max_lt : max < 2147483648)
    (goesOn : phase parser.state ≠ .headersDone)
    (hr : hshParserExec max blk parser buffer = some (token, parser', buffer')) :
    Place max input (tokens ++ emitted token) parser' buffer' ∧ token.type ≠ .err ∧
      (token.type = .headersDone ∨ token.type = .body →
        ∃ w, Past max input (tokens ++ emitted token) parser' buffer' w) := by
  have line : token = noneToken ∨ isLine token.type = true → token.type ≠ .err ∧ token.type ≠ .headersDone ∧
      token.type ≠ .body := by
    rintro (rfl | line)
    · decide
    · refine ⟨?_, ?_, ?_⟩ <;> intro typed <;> rw [typed] at line <;> cases line
  cases h with
  | head inHead plain =>
    rcases inHead.exec hblk max_lt hr with ⟨w', h', goes, typed⟩ | ⟨noBody, error, rfl⟩ | ⟨w', ended⟩
    · obtain ⟨err, done, body⟩ := line typed
      refine ⟨.head goes ?_, err, fun h => (h.elim done body).elim⟩
      rw [lines_append, plain]
      rcases typed with rfl | isLine
      · rfl
      · rw [emitted_of_type (by intro h; rw [h] at isLine; cases isLine)]
        simp [lines, body]
    · exact ⟨.failed noBody error, by decide, (by rintro (h | h) <;> exact absurd h (by decide))⟩
    · have past := past_of_end ended plain
      have typed : token.type = .headersDone := congrArg Prod.fst ended.finished.last
      exact ⟨.past past, by rw [typed]; decide, fun _ => ⟨w', past⟩⟩
  | failed noBody error =>
    obtain ⟨noBody', error', rfl⟩ := hshParserExec_failed noBody error hr
    exact ⟨.failed noBody' error', by decide, (by rintro (h | h) <;> exact absurd h (by decide))⟩
  | @past w h =>
    obtain ⟨past, piece⟩ := h.exec goesOn hr
    refine ⟨.past past, ?_, fun _ => ⟨w, past⟩⟩
    rcases piece with rfl | typed
    · decide
    · rw [typed]
      decide

end Places

/-- Before the response user code only asks for pieces, and not when there is no body. -/
def Asking (c : Conn) : Label → Prop
  | .call .readChunk => True
  | .call _ => False
  | .exec _ _ => phase c.request.parser.state ≠ .headersDone
  | _ => True

instance (c : Conn) (l : Label) : Decidable (Asking c l) :=
  match l with
  | .call .readChunk => isTrue trivial
  | .call (.respond _ _) | .call (.respondChunk _ _) | .call (.respondChunkEnd _ _) | .call .freeBuffer
  | .call (.connection _) => isFalse id
  | .exec _ _ => inferInstanceAs (Decidable (_ ≠ _))
  | .socketEvent | .timerEvent | .read _ | .write _ | .callbackReturn | .finalChunk => isTrue trivial

/-- The flags of a request that nothing was decided of. -/
structure Open (request : HttpRequestS) : Prop where
  automatic : httpFlagCheck request.flags httpAutomatic = true
  whole : httpFlagCheck request.flags httpChunkedResponse = false

/-- A connection before the first response of user code: closed, refused, without a request or with its first. -/
inductive First (cfg : Config) (c : Conn) : Prop
  | dead (live : c.live = false)
  | refused (state : c.request.state = .write) (whole : httpFlagCheck c.request.flags httpChunkedResponse = false)
      (close : httpFlagCheck c.request.flags httpKeepAlive = false)
  | fresh (flags : Open c.request) (serial : c.serial = 0) (state : c.request.state = .read)
      (block : c.request.buffer.buf = 0) (tokens : c.request.tokens = []) (events : receivedBytes c.events = [])
      (stack : ∀ g, .finalChunk g ∉ c.stack)
  | parsing (flags : Open c.request) (serial : c.serial = 1) (state : c.request.state ≠ .write)
      (block : c.request.buffer.buf ≠ 0)
      (place : Place cfg.httpMaxRequestBufSize (receivedBytes c.events) c.request.tokens c.request.parser c.request.buffer)
      (held : (c.request.state = .nop ∨ ∃ g, .finalChunk g ∈ c.stack) → ∃ w, Past cfg.httpMaxRequestBufSize
        (receivedBytes c.events) c.request.tokens c.request.parser c.request.buffer w)

section Steps

variable {cfg : Config} {c c' d : Conn} {l : Label} {stack : List Frame}

theorem First.same (h : First cfg c) (live : d.live = c.live) (request : d.request.flags = c.request.flags ∧
      d.request.state = c.request.state ∧ d.request.parser = c.request.parser ∧ d.request.buffer = c.request.buffer ∧
      d.request.tokens = c.request.tokens)
    (serial : d.serial = c.serial) (events : receivedBytes d.events = receivedBytes c.events)
    (finals : ∀ g, .finalChunk g ∈ d.stack → .finalChunk g ∈ c.stack) : First cfg d := by
  obtain ⟨flags, state, parser, buffer, tokens⟩ := request
  cases h with
  | dead dead => exact .dead (live.trans dead)
  | refused write whole close => exact .refused (state.trans write) (flags ▸ whole) (flags ▸ close)
  | fresh isOpen zero read block none silent noFinal =>
    exact .fresh ⟨flags ▸ isOpen.automatic, flags ▸ isOpen.whole⟩ (serial.trans zero) (state.trans read) (buffer ▸ block)
      (tokens.trans none) (events.trans silent) fun g hg => noFinal g (finals g hg)
  | parsing isOpen one notWrite block place held =>
    refine .parsing ⟨flags ▸ isOpen.automatic, flags ▸ isOpen.whole⟩ (serial.trans one) (state ▸ notWrite) (buffer ▸ block)
      ?_ fun holds => ?_
    · rw [events, tokens, parser, buffer]
      exact place
    · rw [events, tokens, parser, buffer]
      rw [state] at holds
      exact held (holds.imp_right fun ⟨g, hg⟩ => ⟨g, finals g hg⟩)

theorem First.enter (h : First cfg c) (env : ReadEnv) (live : c.live = true) (state : c.request.state = .read) :
    Open (entered cfg env c).request ∧ (entered cfg env c).serial = 1 ∧
      Place cfg.httpMaxRequestBufSize (receivedBytes c.events) (entered cfg env c).request.tokens
        (entered cfg env c).request.parser (entered cfg env c).request.buffer ∧
      ((∃ g, .finalChunk g ∈ c.stack) → ∃ w, Past cfg.httpMaxRequestBufSize (receivedBytes c.events)
        (entered cfg env c).request.tokens (entered cfg env c).request.parser (entered cfg env c).request.buffer w) := by
  cases h with
  | dead dead =>
    rw [live] at dead
    cases dead
  | refused write =>
    rw [state] at write
    cases write
  | fresh flags serial _ block tokens events noFinal =>
    unfold entered initBuffer
    rw [if_pos block, events]
    refine ⟨⟨flags.automatic, flags.whole⟩, congrArg (· + 1) serial, ?_, fun ⟨g, hg⟩ => absurd hg (noFinal g)⟩
    change Place _ _ c.request.tokens _ _
    rw [tokens]
    exact @place_init _ _ _ c.memused env.bufBlk.2 cfg.initial_pos.le cfg.initial_le cfg.max_lt
  | parsing flags serial _ block place held =>
    rw [entered_of_buf cfg env block]
    exact ⟨⟨flags.automatic, flags.whole⟩, serial, place, fun final => held (.inr final)⟩

theorem First.exec (h : First cfg c) (steady : Steady c) {blk : Block} {token : HshTokenS} {parser : HshParserS}
    {buffer : HshBufferS} (hstack : c.stack = .parseBuffer :: stack) (buffered : Buffered c)
    (goesOn : phase c.request.parser.state ≠ .headersDone)
    (hr : hshParserExec cfg.httpMaxRequestBufSize blk.1 c.request.parser c.request.buffer =
      some (token, parser, buffer)) :
    Open c.request ∧ c.serial = 1 ∧ buffer.buf ≠ 0 ∧ token.type ≠ .err ∧
      Place cfg.httpMaxRequestBufSize (receivedBytes c.events) (c.request.tokens ++ emitted token) parser buffer ∧
      ((token.type = .headersDone ∨ token.type = .body) ∨ (∃ g, .finalChunk g ∈ stack) →
        ∃ w, Past cfg.httpMaxRequestBufSize (receivedBytes c.events) (c.request.tokens ++ emitted token) parser buffer
          w) := by
  have live : c.live = true := (steady.library hstack rfl).live
  have state := (steady.reading hstack (.inr rfl)).1
  cases h with
  | dead dead =>
    rw [live] at dead
    cases dead
  | refused write =>
    rw [state] at write
    cases write
  | fresh _ _ _ block =>
    refine absurd block ((buffered.reading live state).resolve_left ?_)
    rw [hstack]
    simpa using (not_library (steady.below_popped hstack)).1
  | parsing flags serial _ block place held =>
    obtain ⟨place', noErr, past⟩ := place.exec blk.2 cfg.max_lt goesOn hr
    refine ⟨flags, serial, ?_, noErr, place', ?_⟩
    · exact ParserCalls.hshParserExec_buf blk.2 hr block
    · rintro (typed | ⟨g, hg⟩)
      · exact past typed
      · obtain ⟨w, before⟩ := held (.inr ⟨g, by rw [hstack]; exact List.mem_cons_of_mem _ hg⟩)
        exact ⟨w, (before.exec goesOn hr).1⟩

theorem First.invoke (open_ : Open d.request) (serial : d.serial = 1) (state : d.request.state = .nop)
    (block : d.request.buffer.buf ≠ 0) (bytes : receivedBytes d.events = receivedBytes c.events)
    (past : ∃ w, Past cfg.httpMaxRequestBufSize (receivedBytes c.events) d.request.tokens d.request.parser d.request.buffer w) :
    First cfg d := by
  obtain ⟨w, h⟩ := past
  rw [← bytes] at h
  exact .parsing open_ serial (by rw [state]; decide) block (.past h) fun _ => ⟨w, h⟩

theorem open_streamed {request request' : HttpRequestS} (h : Open request)
    (flags : request'.flags = httpFlagSet request.flags httpFlgStreamed) : Open request' := by
  have bits : ∀ flags : BitVec 8,
      httpFlagCheck (httpFlagSet flags httpFlgStreamed) httpAutomatic = httpFlagCheck flags httpAutomatic ∧
        httpFlagCheck (httpFlagSet flags httpFlgStreamed) httpChunkedResponse =
          httpFlagCheck flags httpChunkedResponse := by decide
  constructor
  · rw [flags]
    exact (bits _).1.trans h.automatic
  · rw [flags]
    exact (bits _).2.trans h.whole

theorem First.writing (h : First cfg c) (steady : Steady c) (hstack : c.stack = .writeSocket :: stack) :
    httpFlagCheck c.request.flags httpChunkedResponse = false ∧ httpFlagCheck c.request.flags httpKeepAlive = false := by
  have live : c.live = true := (steady.library hstack rfl).live
  have state := (steady.writing hstack).1
  cases h with
  | dead dead => exact absurd (dead.symm.trans live) (by decide)
  | refused _ whole close => exact ⟨whole, close⟩
  | fresh _ _ read => exact absurd (read.symm.trans state) (by decide)
  | parsing _ _ notWrite => exact absurd state notWrite

theorem First.step_socket (h : First cfg c) (move : Move cfg c .socketEvent c') : First cfg c' := by
  cases move with
  | wakeRead => exact h.same rfl ⟨rfl, rfl, rfl, rfl, rfl⟩ rfl rfl (by simp)
  | wakeWrite => exact h.same rfl ⟨rfl, rfl, rfl, rfl, rfl⟩ rfl rfl (by simp)
  | swallow => exact h

theorem First.step_timer (h : First cfg c) (move : Move cfg c .timerEvent c') : First cfg c' := by
  cases move with
  | tick => exact h.same rfl ⟨rfl, rfl, rfl, rfl, rfl⟩ rfl rfl fun _ => id
  | expire => exact .dead rfl

theorem First.step_read {env : ReadEnv} (h : First cfg c) (steady : Steady c) (move : Move cfg c (.read env) c') :
    First cfg c' := by
  have max_lt := cfg.max_lt
  have max_pos : 0 < cfg.httpMaxRequestBufSize := cfg.initial_pos.trans_le cfg.initial_le
  cases move with
  | @readSkip env stack hstack =>
    have live := (steady.library hstack rfl).live
    have state := (steady.reading hstack (.inl rfl)).1
    have popped_h : First cfg (popped stack c) := h.same rfl ⟨rfl, rfl, rfl, rfl, rfl⟩ rfl rfl fun g hg => by
      rw [hstack]
      exact List.mem_cons_of_mem _ hg
    obtain ⟨flags, serial, place, past⟩ := popped_h.enter env live state
    have reads : (entered cfg env (popped stack c)).request.state = .read := entered_state env _
    refine .parsing flags serial (by rw [push_request, reads]; decide) (entered_buf env _) ?_ ?_
    · rw [push_events, entered_events]
      exact place
    · rw [push_events, entered_events]
      rintro (nop | ⟨g, hg⟩)
      · exact absurd (reads.symm.trans nop) (by decide)
      · exact past ⟨g, by simpa using hg⟩
  | readEof => exact .dead rfl
  | @readMore env stack r hstack requires hr =>
    have live := (steady.library hstack rfl).live
    have state := (steady.reading hstack (.inl rfl)).1
    have popped_h : First cfg (popped stack c) := h.same rfl ⟨rfl, rfl, rfl, rfl, rfl⟩ rfl rfl fun g hg => by
      rw [hstack]
      exact List.mem_cons_of_mem _ hg
    obtain ⟨flags, serial, place, past⟩ := popped_h.enter env live state
    have reads : (entered cfg env (popped stack c)).request.state = .read := entered_state env _
    have bytes : receivedBytes ((filled env r (entered cfg env (popped stack c))).push .parseBuffer).events =
        receivedBytes c.events ++ received env.readCalls := by
      rw [push_events, filled, log_events, entered_events, receivedBytes_append, receivedBytes_read]
      rfl
    refine .parsing ⟨flags.automatic, flags.whole⟩ serial ?_ (hsReadIntoBuffer_block (readCalls_blockOk env) (entered_buf env _) hr).1 ?_ ?_
    · exact fun write => absurd (reads.symm.trans write) (by decide)
    · rw [bytes]
      exact place.read (by omega) max_lt (readCalls_blockOk env) hr
    · rw [bytes]
      rintro (nop | ⟨g, hg⟩)
      · exact absurd (reads.symm.trans nop) (by decide)
      · obtain ⟨w, before⟩ := past ⟨g, by simpa [filled] using hg⟩
        exact ⟨w, before.read (by omega) max_lt (readCalls_blockOk env) hr⟩

theorem First.step_exec {blk : Block} {env : RespondEnv} (h : First cfg c) (steady : Steady c) (buffered : Buffered c)
    (asking : Asking c (.exec blk env)) (move : Move cfg c (.exec blk env) c') : First cfg c' := by
  cases move with
  | @execNone blk _ stack token parser buffer hstack hr type =>
    obtain ⟨flags, serial, block, -, place, past⟩ := h.exec steady hstack buffered asking hr
    have state := (steady.reading hstack (.inr rfl)).1
    have none : emitted token = [] := if_pos type
    rw [none, List.append_nil] at place past
    refine .parsing ⟨flags.automatic, flags.whole⟩ serial ?_ block place fun holds => past (.inr ?_)
    · exact fun write => absurd (state.symm.trans write) (by decide)
    · exact holds.resolve_left fun nop => absurd (state.symm.trans nop) (by decide)
  | @execErr blk _ stack token parser buffer _ _ hstack hr type =>
    obtain ⟨-, -, -, noErr, -⟩ := h.exec steady hstack buffered asking hr
    exact absurd type noErr
  | @execLine blk _ stack token parser buffer hstack hr type =>
    obtain ⟨flags, serial, block, -, place, past⟩ := h.exec steady hstack buffered asking hr
    have state := (steady.reading hstack (.inr rfl)).1
    rw [emitted_of_type type.1] at place past
    have bytes : receivedBytes (c.events ++ [.push c.serial token]) = receivedBytes c.events := receivedBytes_silent rfl
    refine .parsing ⟨flags.automatic, flags.whole⟩ serial ?_ block ?_ fun holds => ?_
    · exact fun write => absurd (state.symm.trans write) (by decide)
    · exact bytes.symm ▸ place
    · obtain ⟨w, h⟩ := past (.inr (by
        obtain ⟨g, hg⟩ := holds.resolve_left fun nop => absurd (state.symm.trans nop) (by decide)
        exact ⟨g, by simpa [hsTokenArrayPush, parsed, popped] using hg⟩))
      exact ⟨w, bytes.symm ▸ h⟩
  | @execHead blk _ stack token parser buffer hstack hr type =>
    obtain ⟨flags, serial, block, -, -, past⟩ := h.exec steady hstack buffered asking hr
    obtain ⟨w, h⟩ := past (.inl (.inl type))
    rw [emitted_of_type (by rw [type]; decide)] at h
    exact .invoke (open_streamed flags rfl) serial rfl block ((receivedBytes_silent rfl).trans (receivedBytes_silent rfl))
      ⟨w, h⟩
  | @execSmall blk _ stack token parser buffer hstack hr type =>
    obtain ⟨flags, serial, block, -, -, past⟩ := h.exec steady hstack buffered asking hr
    obtain ⟨w, h⟩ := past (.inl (.inr type))
    rw [emitted_of_type (by rw [type]; decide)] at h
    exact .invoke ⟨flags.automatic, flags.whole⟩ serial rfl block
      ((receivedBytes_silent rfl).trans (receivedBytes_silent rfl)) ⟨w, h⟩
  | @execFinal blk _ stack token parser buffer hstack hr type =>
    obtain ⟨flags, serial, block, -, -, past⟩ := h.exec steady hstack buffered asking hr
    obtain ⟨w, h⟩ := past (.inl (.inr type))
    rw [emitted_of_type (by rw [type]; decide)] at h
    exact .invoke ⟨flags.automatic, flags.whole⟩ serial rfl block
      ((receivedBytes_silent rfl).trans (receivedBytes_silent rfl)) ⟨w, h⟩
  | @execPiece blk _ stack token parser buffer hstack hr type =>
    obtain ⟨flags, serial, block, -, -, past⟩ := h.exec steady hstack buffered asking hr
    obtain ⟨w, h⟩ := past (.inl (.inr type))
    rw [emitted_of_type (by rw [type]; decide)] at h
    exact .invoke ⟨flags.automatic, flags.whole⟩ serial rfl block
      ((receivedBytes_silent rfl).trans (receivedBytes_silent rfl)) ⟨w, h⟩

theorem First.step_write {call : WriteCall} (h : First cfg c) (steady : Steady c) (move : Move cfg c (.write call) c') :
    First cfg c' := by
  cases move with
  | writeMore hstack =>
    obtain ⟨whole, close⟩ := h.writing steady hstack
    exact .refused (steady.writing hstack).1 whole close
  | writeErr => exact .dead rfl
  | writeClose => exact .dead rfl
  | writeNext hstack _ _ _ keep => exact absurd ((h.writing steady hstack).2.symm.trans keep) (by decide)
  | writeChunk hstack _ _ chunk => exact absurd ((h.writing steady hstack).1.symm.trans chunk) (by decide)

theorem First.step_call {call : UserCall} (h : First cfg c) (state : c.request.state = .nop)
    (asking : Asking c (.call call)) (move : Move cfg c (.call call) c') : First cfg c' := by
  cases move with
  | @respond call _ _ _ _ _ _ hcall =>
    cases call with
    | readChunk => cases hcall
    | _ => exact absurd asking id
  | readChunk user live =>
    cases h with
    | dead dead => exact .dead dead
    | refused write => exact absurd (state.symm.trans write) (by decide)
    | fresh _ _ read => exact absurd (state.symm.trans read) (by decide)
    | parsing flags serial _ block place holds =>
      have bytes : receivedBytes (c.events ++ [.watch .epollin]) = receivedBytes c.events := receivedBytes_silent rfl
      obtain ⟨w, past⟩ := holds (.inl state)
      refine .parsing ⟨flags.automatic, flags.whole⟩ serial (show HttpSession.read ≠ .write by decide) block ?_ fun _ => ⟨w, ?_⟩
      · exact bytes.symm ▸ place
      · exact bytes.symm ▸ past
  | freeBuffer => exact absurd asking id
  | connection => exact absurd asking id

theorem First.step_callbackReturn (h : First cfg c) (move : Move cfg c .callbackReturn c') : First cfg c' := by
  cases move with
  | callbackReturn hstack =>
    exact h.same rfl ⟨rfl, rfl, rfl, rfl, rfl⟩ rfl rfl fun g hg => by
      rw [hstack]
      exact List.mem_cons_of_mem _ hg

theorem First.step_finalChunk (h : First cfg c) (kept : Kept c) (move : Move cfg c .finalChunk c') : First cfg c' := by
  cases move with
  | @finalChunk serial stack hstack =>
    obtain ⟨live, hserial, state, block, -, -⟩ := kept.final _ (by rw [hstack]; exact List.mem_cons_self)
    cases h with
    | dead dead => exact .dead dead
    | refused write => exact absurd write state
    | fresh _ _ _ none => exact absurd none block
    | parsing flags one _ _ place holds =>
      obtain ⟨w, past⟩ := holds (.inr ⟨serial, by rw [hstack]; exact List.mem_cons_self⟩)
      have piece := @Shows.pieces _ _ { type := .body } past.shows (.inr rfl)
      have accepts := @Accepts.pieces _ _ { type := .body } past.behind.accepts (.inr rfl)
      exact .invoke ⟨flags.automatic, flags.whole⟩ one rfl block
        ((receivedBytes_silent rfl).trans (receivedBytes_silent rfl))
        ⟨w, ⟨accepts, past.behind.prefix_eq, past.behind.body⟩, past.accepted, piece, past.front⟩

theorem First.step (steady : Steady c) (held : Holding c) (buffered : Buffered c) (kept : Kept c) (h : First cfg c)
    (asked : Asked c l) (asking : Asking c l) (move : Move cfg c l c') : First cfg c' := by
  cases l with
  | socketEvent => exact h.step_socket move
  | timerEvent => exact h.step_timer move
  | read env => exact h.step_read steady move
  | exec blk env => exact h.step_exec steady buffered asking move
  | write call => exact h.step_write steady move
  | call call => exact h.step_call (held.1 (asked call rfl)) asking move
  | callbackReturn => exact h.step_callbackReturn move
  | finalChunk => exact h.step_finalChunk kept move

theorem first_accepted (h : Accepted c) : First cfg c := by
  obtain ⟨memused, rfl | ⟨respond, request, memused', hresp, rfl⟩⟩ := accepted_cases h
  · have flags : Open (hsRequestInit memused).request :=
      ⟨show httpFlagCheck httpAutomatic httpAutomatic = true by decide,
        show httpFlagCheck httpAutomatic httpChunkedResponse = false by decide⟩
    exact .fresh ⟨flags.automatic, flags.whole⟩ rfl rfl rfl rfl rfl (by simp [hsRequestBeginRead, hsRequestInit])
  · obtain ⟨r, hr, flags⟩ := hsRequestRespond_flags hresp
    have none : detected (hsRequestInit memused).request = some (hsRequestInit memused).request := by
      have automatic : httpFlagCheck (hsRequestInit memused).request.flags httpAutomatic = true := by
        change httpFlagCheck httpAutomatic httpAutomatic = true
        decide
      unfold detected
      rw [if_pos automatic]
      rfl
    obtain rfl : (hsRequestInit memused).request = r := Option.some.inj (none.symm.trans hr)
    have plain : request.flags = httpAutomatic := flags
    refine .refused rfl ?_ ?_
    · change httpFlagCheck request.flags _ = _
      rw [plain]
      decide
    · change httpFlagCheck request.flags _ = _
      rw [plain]
      decide

/-- What user code keeps to until the first response starts. -/
def BeforeResponse (c : Conn) (l : Label) : Prop := Protocol c l ∧ Asking c l

instance (c : Conn) (l : Label) : Decidable (BeforeResponse c l) := inferInstanceAs (Decidable (_ ∧ _))

theorem first_reached (run : Runs.Reached (Connection.step cfg) Accepted BeforeResponse c) :
    Session (fun _ _ _ => True) cfg c ∧ First cfg c := by
  refine run.invariant (I := fun c => Session (fun _ _ _ => True) cfg c ∧ First cfg c)
    (fun c h => ⟨session_accepted h, first_accepted h⟩) fun c l c' ⟨session, first⟩ ⟨protocol, asking⟩ hs => ?_
  have move := step_move hs
  have calls : Calls (fun _ _ _ => True) c l := by cases l <;> trivial
  exact ⟨session.step protocol calls move, first.step session.steady session.held session.buffered session.kept protocol.1
    asking move⟩

/-- A request that user code holds before its response: the head is known and in the buffer. -/
theorem held_past (run : Runs.Reached (Connection.step cfg) Accepted BeforeResponse c) (live : c.live = true)
    (held : outstanding c.events = true) : Open c.request ∧ c.serial = 1 ∧ ∃ w, Past cfg.httpMaxRequestBufSize
      (receivedBytes c.events) c.request.tokens c.request.parser c.request.buffer w := by
  obtain ⟨session, first⟩ := first_reached run
  have state := session.held.1 held
  cases first with
  | dead dead => exact absurd (dead.symm.trans live) (by decide)
  | refused write => exact absurd (state.symm.trans write) (by decide)
  | fresh _ _ read => exact absurd (state.symm.trans read) (by decide)
  | parsing flags serial _ _ _ holds => exact ⟨flags, serial, holds (.inl state)⟩

end Steps

end HttpServer.FirstRequests
