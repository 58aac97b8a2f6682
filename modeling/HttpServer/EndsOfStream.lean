import HttpServer.ArrivedRequests
import HttpServer.FirstRequests
import HttpServer.ParseErrors

set_option autoImplicit false

/-!
# Bytes before the end of the stream

A request that has arrived is handed over before the connection is terminated, as long as no run of
`_hs_read_into_buffer` returns bytes and the end of the stream together.
-/
namespace HttpServer.EndsOfStream
open HttpServer.Parser ReadBuffer ParserRuns HeadMachine HeadFields HeadTexts RequestRuns ArrivedRequests RequestUtil
  Respond Connection ConnectionSteps ConnectionInvariant HeldRequests AnsweredRequests ParseErrors ServedRequests
  FirstRequests

def handlerCalled (events : List Event) : Bool :=
  events.any fun
    | .invoke _ .requestHandler _ => true
    | _ => false

/-- Until `request_handler` is called, the end of the stream does not come with bytes, `done_headers` does not move the
    buffer, and the parser is not called when only the last byte of a small body is missing. -/
def Undivided (cfg : Config) (c : Conn) : Label → Prop
  | .read env => handlerCalled c.events = false →
      received env.readCalls = [] ∨ env.readCalls.getLast?.map (fun call => call.result.count) ≠ some 0
  | .exec blk _ => handlerCalled c.events = false →
      (∀ r ∈ hshParserExec cfg.httpMaxRequestBufSize blk.1 c.request.parser c.request.buffer,
        r.2.2.buf = c.request.buffer.buf) ∧ ¬ OneShort c.request.parser c.request.buffer
  | _ => True

instance (cfg : Config) (c : Conn) (l : Label) : Decidable (Undivided cfg c l) :=
  match l with
  | .read _ => inferInstanceAs (Decidable (_ → _ ∨ _))
  | .exec _ _ => inferInstanceAs (Decidable (_ → (∀ r ∈ _, _) ∧ ¬ _))
  | .socketEvent | .timerEvent | .write _ | .call _ | .callbackReturn | .finalChunk => isTrue trivial

/-- `request_handler` was called with the request that the bytes begin with. -/
def Handed (max : ℤ) (events : List Event) : Prop :=
  ∃ serial request, .invoke serial .requestHandler request ∈ events ∧
    (BreaksOff (receivedBytes events) ∨ Tells max (receivedBytes events) request.tokens request.buffer.data)

/-- Whenever the connection is terminated, a request that has arrived was handed over. -/
def Told (max : ℤ) (events : List Event) : Prop :=
  ∀ before after, events = before ++ .terminate :: after → ∀ w, Arrived max w (receivedBytes before) → Handed max before

section Traces

variable {max : ℤ} {events more : List Event}

theorem Handed.append (h : Handed max events) (more : List Event) : Handed max (events ++ more) := by
  obtain ⟨serial, request, mem, told⟩ := h
  refine ⟨serial, request, List.mem_append_left _ mem, ?_⟩
  rw [receivedBytes_append]
  exact told.imp (BreaksOff.more · _) (Tells.more · _)

/-- The handler is called with a token that was just found. -/
theorem handed_invoke {serial : ℕ} {token : HshTokenS} {request : HttpRequestS}
    (told : BreaksOff (receivedBytes events) ∨ Tells max (receivedBytes events) request.tokens request.buffer.data) :
    Handed max (events ++ [.push serial token] ++ [.invoke serial .requestHandler request]) := by
  refine ⟨serial, request, List.mem_append_right _ List.mem_cons_self, ?_⟩
  rw [receivedBytes_silent rfl, receivedBytes_silent rfl]
  exact told

theorem Told.append (h : Told max events)
    (new : ∀ before after, more = before ++ .terminate :: after →
      ∀ w, Arrived max w (receivedBytes (events ++ before)) → Handed max (events ++ before)) : Told max (events ++ more) := by
  intro before after split w arrived
  rcases List.append_eq_append_iff.1 split with ⟨rest, rfl, hmore⟩ | ⟨rest, rfl, hrest⟩
  · exact new rest after hmore w arrived
  · cases rest with
    | nil =>
      rw [List.append_nil] at *
      have new := new [] after hrest.symm w
      rw [List.append_nil] at new
      exact new arrived
    | cons event rest =>
      rw [List.cons_append] at hrest
      obtain ⟨rfl, -⟩ := List.cons.inj hrest
      exact h before rest rfl w arrived

theorem Told.quiet (h : Told max events) (quiet : .terminate ∉ more) : Told max (events ++ more) :=
  h.append fun before after split => absurd (by rw [split]; simp) quiet

theorem Told.handed (h : Told max events) (handed : Handed max events) : Told max (events ++ more) :=
  h.append fun before _ _ _ _ => handed.append before

theorem Told.last (h : Told max events) (quiet : .terminate ∉ more)
    (unarrived : ∀ w, ¬ Arrived max w (receivedBytes (events ++ more))) : Told max (events ++ (more ++ [.terminate])) := by
  refine h.append fun before after split w arrived => ?_
  have same : before = more := by
    rcases List.append_eq_append_iff.1 split with ⟨rest, rfl, ended⟩ | ⟨rest, rfl, ended⟩
    · have length := congrArg List.length ended
      simp only [List.length_append, List.length_cons, List.length_nil] at length
      rw [List.eq_nil_of_length_eq_zero (l := rest) (by omega), List.append_nil]
    · cases rest with
      | nil => rw [List.append_nil]
      | cons event rest =>
        rw [List.cons_append] at ended
        obtain ⟨rfl, -⟩ := List.cons.inj ended
        exact absurd (by simp) quiet
  exact absurd (same ▸ arrived) (unarrived w)

end Traces

section Steps

variable {cfg : Config} {c c' : Conn} {l : Label} {stack : List Frame}

/-- What the parser has seen of a request that waits for bytes. -/
def Waiting (cfg : Config) (c : Conn) : Prop :=
  c.request.chunkCb = false ∧ Waits cfg.httpMaxRequestBufSize (receivedBytes c.events) c.request.tokens c.request.parser
    c.request.buffer

/-- A connection whose handler was called, that is closed, refused, or has no request or one that the handler does not
    know of. -/
inductive Early (cfg : Config) (c : Conn) : Prop
  | handed (h : Handed cfg.httpMaxRequestBufSize c.events)
  | dead (live : c.live = false)
  | refused (state : c.request.state = .write) (flags : httpFlagCheck c.request.flags httpChunkedResponse = false ∧
      httpFlagCheck c.request.flags httpKeepAlive = false) (hstack : c.stack = [] ∨ c.stack = [.writeSocket])
      (received : receivedBytes c.events = [])
  | fresh (state : c.request.state = .read) (block : c.request.buffer.buf = 0) (hstack : c.stack = [.readRequest])
      (chunkCb : c.request.chunkCb = false) (tokens : c.request.tokens = []) (received : receivedBytes c.events = [])
      (called : handlerCalled c.events = false)
  | idle (state : c.request.state = .read) (block : c.request.buffer.buf ≠ 0)
      (hstack : c.stack = [] ∨ c.stack = [.readRequest]) (waits : Waiting cfg c) (called : handlerCalled c.events = false)
  | parsing (state : c.request.state = .read) (block : c.request.buffer.buf ≠ 0) (hstack : c.stack = [.parseBuffer])
      (chunkCb : c.request.chunkCb = false) (ready : Ready cfg.httpMaxRequestBufSize (receivedBytes c.events)
        c.request.tokens c.request.parser c.request.buffer) (called : handlerCalled c.events = false)

theorem not_arrived_nil {max : ℤ} (w : List UInt8) : ¬ Arrived max w [] :=
  fun arrived => arrived.whole.ne_nil (List.prefix_nil.1 arrived.prefix_eq)

theorem Waits.unarrived {max : ℤ} {input : List UInt8} {tokens : List HshTokenS} {parser : HshParserS}
    {buffer : HshBufferS} (h : Waits max input tokens parser buffer) (w : List UInt8) : ¬ Arrived max w input := by
  rcases h with off | ⟨-, -, -, incomplete⟩
  · exact fun arrived => arrived.unbroken off
  · exact incomplete w

theorem Early.enter (h : Early cfg c) (env : ReadEnv) (live : c.live = true) (hstack : c.stack = .readRequest :: stack) :
    Handed cfg.httpMaxRequestBufSize c.events ∨ stack = [] ∧ handlerCalled c.events = false ∧ (entered cfg env (popped stack c)).request.buffer.buf ≠ 0 ∧
      (entered cfg env (popped stack c)).request.chunkCb = false ∧
      Waits cfg.httpMaxRequestBufSize (receivedBytes c.events) (entered cfg env (popped stack c)).request.tokens
        (entered cfg env (popped stack c)).request.parser (entered cfg env (popped stack c)).request.buffer := by
  cases h with
  | handed h => exact .inl h
  | dead dead => exact absurd (dead.symm.trans live) (by decide)
  | refused _ _ frames => rw [hstack] at frames; simp at frames
  | parsing _ _ frames => rw [hstack] at frames; cases frames
  | fresh _ block frames chunkCb tokens received called =>
    rw [hstack] at frames
    cases frames
    have none : (popped [] c).request.buffer.buf = 0 := block
    unfold entered initBuffer
    rw [if_pos none]
    refine .inr ⟨rfl, called, env.bufBlk.2.1.ne', chunkCb, ?_⟩
    change Waits cfg.httpMaxRequestBufSize (receivedBytes c.events) c.request.tokens _ _
    rw [tokens, received]
    exact @waits_init _ _ _ c.memused env.bufBlk.2 cfg.initial_pos.le cfg.initial_le cfg.max_lt
  | idle _ block frames waits called =>
    rw [hstack] at frames
    obtain rfl : stack = [] := by simpa using frames
    have some_block : (popped [] c).request.buffer.buf ≠ 0 := block
    rw [entered_of_buf cfg env some_block]
    exact .inr ⟨rfl, called, block, waits.1, waits.2⟩

theorem Early.parse (h : Early cfg c) (live : c.live = true) (hstack : c.stack = .parseBuffer :: stack) :
    Handed cfg.httpMaxRequestBufSize c.events ∨ stack = [] ∧ handlerCalled c.events = false ∧ c.request.buffer.buf ≠ 0 ∧ c.request.chunkCb = false ∧
      Ready cfg.httpMaxRequestBufSize (receivedBytes c.events) c.request.tokens c.request.parser c.request.buffer := by
  cases h with
  | handed h => exact .inl h
  | dead dead => exact absurd (dead.symm.trans live) (by decide)
  | refused _ _ frames => rw [hstack] at frames; simp at frames
  | fresh _ _ frames => rw [hstack] at frames; cases frames
  | idle _ _ frames => rw [hstack] at frames; simp at frames
  | parsing _ block frames chunkCb ready called =>
    rw [hstack] at frames
    cases frames
    exact .inr ⟨rfl, called, block, chunkCb, ready⟩

theorem Early.write (h : Early cfg c) (live : c.live = true) (hstack : c.stack = .writeSocket :: stack) :
    Handed cfg.httpMaxRequestBufSize c.events ∨ stack = [] ∧ c.request.state = .write ∧
      (httpFlagCheck c.request.flags httpChunkedResponse = false ∧ httpFlagCheck c.request.flags httpKeepAlive = false) ∧
      receivedBytes c.events = [] := by
  cases h with
  | handed h => exact .inl h
  | dead dead => exact absurd (dead.symm.trans live) (by decide)
  | refused state flags frames received =>
    rw [hstack] at frames
    exact .inr ⟨by simpa using frames, state, flags, received⟩
  | fresh _ _ frames => rw [hstack] at frames; cases frames
  | idle _ _ frames => rw [hstack] at frames; simp at frames
  | parsing _ _ frames => rw [hstack] at frames; cases frames

theorem Early.quiet (h : Early cfg c) (live : c.live = true) (hstack : c.stack = []) :
    Handed cfg.httpMaxRequestBufSize c.events ∨ ∀ w, ¬ Arrived cfg.httpMaxRequestBufSize w (receivedBytes c.events) := by
  cases h with
  | handed h => exact .inl h
  | dead dead => exact absurd (dead.symm.trans live) (by decide)
  | refused _ _ _ received =>
    rw [received]
    exact .inr not_arrived_nil
  | fresh _ _ frames => rw [hstack] at frames; cases frames
  | idle _ _ _ waits => exact .inr (Waits.unarrived waits.2)
  | parsing _ _ frames => rw [hstack] at frames; cases frames

theorem Early.user (h : Early cfg c) (held : Holding c) (live : c.live = true) (asked : outstanding c.events = true) :
    Handed cfg.httpMaxRequestBufSize c.events := by
  have state := held.1 asked
  cases h with
  | handed h => exact h
  | dead dead => exact absurd (dead.symm.trans live) (by decide)
  | refused other => exact absurd (state.symm.trans other) (by decide)
  | fresh other => exact absurd (state.symm.trans other) (by decide)
  | idle other => exact absurd (state.symm.trans other) (by decide)
  | parsing other => exact absurd (state.symm.trans other) (by decide)

theorem move_events (move : Move cfg c l c') : ∃ more, c'.events = c.events ++ more := by
  cases move <;>
    simp [filled, popped, parsed, written, finished, setTimeout, invoked, streamed, answered, hsTokenArrayPush,
      hsRequestBeginRead, hsRequestBeginWrite, hsRequestTerminateConnection]

theorem nothing_received {env : ReadEnv} {max memused : ℤ} {tokens : List HshTokenS} {parser : HshParserS}
    {input : List UInt8} {b : HshBufferS} {r : ReadReturn} (waits : Waits max input tokens parser b)
    (undivided : received env.readCalls = [] ∨ env.readCalls.getLast?.map (fun call => call.result.count) ≠ some 0)
    (max_ge : -2147483648 ≤ max) (max_lt : max < 2147483648)
    (hr : hsReadIntoBuffer max env.readCalls b memused = some r) (eof : r.bytes = 0) (w : List UInt8) :
    ¬ Arrived max w (input ++ received env.readCalls) := by
  have blocks := readCalls_blockOk env
  rcases waits with off | ⟨pending, -, -, incomplete⟩
  · exact fun arrived => arrived.unbroken (off.more _)
  have ok := pending.ok
  have nonneg := ok.ahi_nonneg
  have le := ok.ahi_le
  obtain ⟨call, last, bytes, -⟩ := hsReadIntoBuffer_last max_ge max_lt blocks ok.buf_pos ok.capacity_lt (by omega)
    ok.length_lt hr
  have none := undivided.resolve_right fun other => other (by rw [last, Option.map_some, ← bytes, eof])
  rw [none, List.append_nil]
  exact incomplete w

theorem Early.grown (handed : Handed cfg.httpMaxRequestBufSize c.events) (move : Move cfg c l c') : Early cfg c' := by
  obtain ⟨more, events⟩ := move_events move
  exact .handed (events ▸ handed.append more)

theorem Early.step_wake (h : Early cfg c) (event : l = .socketEvent ∨ l = .timerEvent) (move : Move cfg c l c') :
    Early cfg c' := by
  cases move with
  | wakeRead live hstack state =>
    cases h with
    | handed handed => exact .handed handed
    | dead dead => exact absurd (dead.symm.trans live) (by decide)
    | refused other => exact absurd (state.symm.trans other) (by decide)
    | fresh _ _ frames => rw [hstack] at frames; cases frames
    | idle _ block _ waits called => exact .idle state block (.inr (by simp [hstack])) waits called
    | parsing _ _ frames => rw [hstack] at frames; cases frames
  | wakeWrite live hstack state =>
    cases h with
    | handed handed => exact .handed handed
    | dead dead => exact absurd (dead.symm.trans live) (by decide)
    | refused _ flags _ received => exact .refused state flags (.inr (by simp [hstack])) received
    | fresh other => exact absurd (state.symm.trans other) (by decide)
    | idle other => exact absurd (state.symm.trans other) (by decide)
    | parsing other => exact absurd (state.symm.trans other) (by decide)
  | swallow => exact h
  | tick live hstack =>
    cases h with
    | handed handed => exact .handed handed
    | dead dead => exact .dead dead
    | refused state flags frames received => exact .refused state flags frames received
    | fresh state block frames chunkCb tokens received called =>
      exact .fresh state block frames chunkCb tokens received called
    | idle state block frames waits called => exact .idle state block frames waits called
    | parsing state block frames chunkCb ready called => exact .parsing state block frames chunkCb ready called
  | expire => exact .dead rfl
  | _ => exact absurd event (by simp)

theorem Early.step_read {env : ReadEnv} (steady : Steady c) (h : Early cfg c) (move : Move cfg c (.read env) c') :
    Early cfg c' := by
  have max_lt := cfg.max_lt
  have max_pos : 0 < cfg.httpMaxRequestBufSize := cfg.initial_pos.trans_le cfg.initial_le
  have grown : Handed cfg.httpMaxRequestBufSize c.events → Early cfg c' := fun handed => .grown handed move
  cases move with
  | @readSkip env stack hstack requires =>
    rcases h.enter env (steady.library hstack rfl).live hstack with handed | ⟨rfl, called, block, chunkCb, waits⟩
    · exact grown handed
    have bytes : receivedBytes ((entered cfg env (popped [] c)).push .parseBuffer).events = receivedBytes c.events := by
      rw [push_events, entered_events]
      rfl
    refine .parsing (entered_state env _) block (by simp [popped]) chunkCb ?_ ?_
    swap
    · rw [push_events, entered_events]
      exact called
    rw [bytes]
    rcases waits with off | ⟨-, -, taken, -⟩
    · exact .inl off
    · unfold hsBufferRequiresRead at requires
      exact absurd taken.ge (of_decide_eq_false requires)
  | readEof => exact .dead rfl
  | @readMore env stack r hstack requires hr =>
    rcases h.enter env (steady.library hstack rfl).live hstack with handed | ⟨rfl, called, block, chunkCb, waits⟩
    · exact grown handed
    have blocks := readCalls_blockOk env
    have bytes : receivedBytes ((filled env r (entered cfg env (popped [] c))).push .parseBuffer).events =
        receivedBytes c.events ++ received env.readCalls := by
      rw [push_events, filled, log_events, entered_events, receivedBytes_append, receivedBytes_read]
      rfl
    refine .parsing (entered_state env _) (hsReadIntoBuffer_block blocks block hr).1 (by simp [filled, popped]) chunkCb ?_ ?_
    swap
    · rw [push_events, filled, log_events, entered_events]
      exact (List.any_append ..).trans (Bool.or_eq_false_iff.2 ⟨called, rfl⟩)
    rw [bytes]
    exact waits.read (by omega) max_lt blocks hr

theorem Early.outcome {blk : Block} {respond : RespondEnv} {token : HshTokenS} {parser : HshParserS} {buffer : HshBufferS}
    (steady : Steady c) (h : Early cfg c) (undivided : Undivided cfg c (.exec blk respond))
    (hstack : c.stack = .parseBuffer :: stack)
    (hr : hshParserExec cfg.httpMaxRequestBufSize blk.1 c.request.parser c.request.buffer = some (token, parser, buffer)) :
    Handed cfg.httpMaxRequestBufSize c.events ∨ stack = [] ∧ handlerCalled c.events = false ∧ c.request.chunkCb = false ∧
      buffer.buf ≠ 0 ∧ Outcome cfg.httpMaxRequestBufSize (receivedBytes c.events) c.request.tokens token parser buffer := by
  have live := (steady.library hstack rfl).live
  refine (h.parse live hstack).imp_right fun ⟨top, called, block, chunkCb, ready⟩ => ?_
  obtain ⟨unmoved, timely⟩ := undivided called
  have stays : buffer.buf = c.request.buffer.buf := unmoved _ hr
  exact ⟨top, called, chunkCb, stays ▸ block, ready.exec blk.2 cfg.max_lt timely hr stays⟩

theorem Early.step_exec {blk : Block} {respond : RespondEnv} (steady : Steady c) (h : Early cfg c)
    (undivided : Undivided cfg c (.exec blk respond)) (noErr : .parseErr ∉ c'.events)
    (move : Move cfg c (.exec blk respond) c') : Early cfg c' := by
  have grown : Handed cfg.httpMaxRequestBufSize c.events → Early cfg c' := fun handed => .grown handed move
  cases move with
  | @execNone _ _ stack token parser buffer hstack hr type =>
    obtain handed | ⟨rfl, called, chunkCb, block, outcome⟩ := h.outcome steady undivided hstack hr
    · exact grown handed
    refine .idle (steady.reading hstack (.inr rfl)).1 block (.inl rfl) ⟨chunkCb, ?_⟩ called
    change Waits _ (receivedBytes c.events) c.request.tokens parser buffer
    cases outcome with
    | off h => exact .inl h
    | waits _ h => exact h
    | goes typed =>
      rw [type] at typed
      simp [isLine] at typed
    | handed typed =>
      rw [type] at typed
      simp at typed
  | execErr => exact absurd (by simp [hsRequestBeginWrite, answered]) noErr
  | @execLine _ _ stack token parser buffer hstack hr type =>
    obtain handed | ⟨rfl, called, chunkCb, block, outcome⟩ := h.outcome steady undivided hstack hr
    · exact grown handed
    have bytes : receivedBytes (c.events ++ [.push c.serial token]) = receivedBytes c.events := receivedBytes_silent rfl
    refine .parsing (steady.reading hstack (.inr rfl)).1 block rfl chunkCb ?_
      ((List.any_append ..).trans (Bool.or_eq_false_iff.2 ⟨called, rfl⟩))
    change Ready _ (receivedBytes (c.events ++ [.push c.serial token])) (c.request.tokens ++ [token]) parser buffer
    rw [bytes]
    cases outcome with
    | off h => exact .inl h
    | waits none => exact absurd none type.1
    | goes _ h => exact h
    | handed typed =>
      rcases typed with body | ⟨done, starts⟩
      · exact absurd body type.2.2.1
      · exact absurd ((type.2.2.2 done).symm.trans starts) (by decide)
  | @execHead _ _ stack token parser buffer hstack hr type starts =>
    obtain handed | ⟨rfl, called, chunkCb, block, outcome⟩ := h.outcome steady undivided hstack hr
    · exact grown handed
    refine .handed (handed_invoke ?_)
    cases outcome with
    | off h => exact .inl h
    | waits none => exact absurd (type.symm.trans none) (by decide)
    | goes typed =>
      rcases typed with line | ⟨-, waits⟩
      · rw [type] at line
        cases line
      · exact absurd (starts.symm.trans waits) (by decide)
    | handed _ h => exact .inr h
  | @execSmall _ _ stack token parser buffer hstack hr type =>
    obtain handed | ⟨rfl, called, chunkCb, block, outcome⟩ := h.outcome steady undivided hstack hr
    · exact grown handed
    refine .handed (handed_invoke ?_)
    cases outcome with
    | off h => exact .inl h
    | waits none => exact absurd (type.symm.trans none) (by decide)
    | goes typed =>
      rw [type] at typed
      simp [isLine] at typed
    | handed _ h => exact .inr h
  | execFinal hstack _ _ _ _ _ callback =>
    rcases h.parse (steady.library hstack rfl).live hstack with handed | ⟨-, -, -, chunkCb, -⟩
    · exact grown handed
    · exact absurd (chunkCb.symm.trans callback) (by decide)
  | execPiece hstack _ _ _ _ callback =>
    rcases h.parse (steady.library hstack rfl).live hstack with handed | ⟨-, -, -, chunkCb, -⟩
    · exact grown handed
    · exact absurd (chunkCb.symm.trans callback) (by decide)

theorem Early.step_write {call : WriteCall} (steady : Steady c) (h : Early cfg c) (move : Move cfg c (.write call) c') :
    Early cfg c' := by
  have grown : Handed cfg.httpMaxRequestBufSize c.events → Early cfg c' := fun handed => .grown handed move
  cases move with
  | writeMore hstack =>
    rcases h.write (steady.library hstack rfl).live hstack with handed | ⟨rfl, state, flags, received⟩
    · exact grown handed
    · exact .refused state flags (.inl rfl) ((receivedBytes_silent rfl).trans received)
  | writeErr => exact .dead rfl
  | writeClose => exact .dead rfl
  | writeNext hstack _ _ _ keep =>
    rcases h.write (steady.library hstack rfl).live hstack with handed | ⟨-, -, flags, -⟩
    · exact grown handed
    · exact absurd (flags.2.symm.trans keep) (by decide)
  | writeChunk hstack _ _ chunk =>
    rcases h.write (steady.library hstack rfl).live hstack with handed | ⟨-, -, flags, -⟩
    · exact grown handed
    · exact absurd (flags.1.symm.trans chunk) (by decide)

theorem Early.step_return (h : Early cfg c) (returns : l = .callbackReturn ∨ l = .finalChunk) (move : Move cfg c l c') :
    Early cfg c' := by
  have grown : Handed cfg.httpMaxRequestBufSize c.events → Early cfg c' := fun handed => .grown handed move
  cases move with
  | callbackReturn hstack =>
    cases h with
    | handed handed => exact grown handed
    | dead dead => exact .dead dead
    | refused _ _ frames => rw [hstack] at frames; simp at frames
    | fresh _ _ frames => rw [hstack] at frames; cases frames
    | idle _ _ frames => rw [hstack] at frames; simp at frames
    | parsing _ _ frames => rw [hstack] at frames; cases frames
  | finalChunk hstack live =>
    cases h with
    | handed handed => exact grown handed
    | dead dead => exact absurd (dead.symm.trans live) (by decide)
    | refused _ _ frames => rw [hstack] at frames; simp at frames
    | fresh _ _ frames => rw [hstack] at frames; cases frames
    | idle _ _ frames => rw [hstack] at frames; simp at frames
    | parsing _ _ frames => rw [hstack] at frames; cases frames
  | _ => exact absurd returns (by simp)

theorem Early.step (steady : Steady c) (held : Holding c) (h : Early cfg c) (asked : Asked c l)
    (undivided : Undivided cfg c l) (noErr : .parseErr ∉ c'.events) (move : Move cfg c l c') :
    Early cfg c' := by
  cases l with
  | socketEvent => exact h.step_wake (.inl rfl) move
  | timerEvent => exact h.step_wake (.inr rfl) move
  | read env => exact h.step_read steady move
  | exec blk respond => exact h.step_exec steady undivided noErr move
  | write call => exact h.step_write steady move
  | callbackReturn => exact h.step_return (.inl rfl) move
  | finalChunk => exact h.step_return (.inr rfl) move
  | call call =>
    have user : c.live = true := by
      cases move with
      | respond _ live | readChunk _ live | freeBuffer _ live | connection _ live => exact live
    exact .grown (h.user held user (asked _ rfl)) move

theorem Told.move {max : ℤ} (told : Told max c.events) (move : Move cfg c l c')
    (quiet : Handed max c.events ∨ terminations c'.events = terminations c.events) : Told max c'.events := by
  obtain ⟨more, events⟩ := move_events move
  rw [events] at quiet ⊢
  rcases quiet with handed | none
  · exact told.handed handed
  · rw [terminations_append] at none
    exact told.quiet (not_terminated (by omega))

theorem Told.step (steady : Steady c) (h : Early cfg c) (told : Told cfg.httpMaxRequestBufSize c.events)
    (undivided : Undivided cfg c l) (move : Move cfg c l c') : Told cfg.httpMaxRequestBufSize c'.events := by
  have max_lt := cfg.max_lt
  have max_pos : 0 < cfg.httpMaxRequestBufSize := cfg.initial_pos.trans_le cfg.initial_le
  have writes : ∀ {stack}, c.stack = .writeSocket :: stack → c.live = true := fun hstack => (steady.library hstack rfl).live
  have same := told.move move
  cases move with
  | expire live hstack left =>
    rcases h.quiet live hstack with handed | unarrived
    · exact same (.inl handed)
    · exact @Told.last _ _ [] told List.not_mem_nil (by rw [List.append_nil]; exact unarrived)
  | @readEof env stack r hstack requires hr eof =>
    have live := (steady.library hstack rfl).live
    rcases h.enter env live hstack with handed | ⟨rfl, called, block, chunkCb, waits⟩
    · exact same (.inl handed)
    have events : (hsRequestTerminateConnection (filled env r (entered cfg env (popped [] c)))).events =
        c.events ++ ([.read (env.readCalls.map ReadCall.result)] ++ [.terminate]) := by
      simp [hsRequestTerminateConnection, filled, popped]
    rw [events]
    refine told.last (by simp) ?_
    rw [receivedBytes_append, receivedBytes_read]
    exact nothing_received waits (undivided called) (by omega) max_lt hr eof
  | @writeErr call stack hstack =>
    rcases h.write (writes hstack) hstack with handed | ⟨rfl, -, -, received⟩
    · exact same (.inl handed)
    have events : (hsRequestTerminateConnection (finished httpRequestTimeout (written call (popped [] c)))).events =
        c.events ++ ([.write call.bytes] ++ [.terminate]) := by
      simp [hsRequestTerminateConnection, finished, written, popped]
    rw [events]
    refine told.last (by simp) ?_
    rw [receivedBytes_silent rfl, received]
    exact not_arrived_nil
  | @writeClose call stack hstack =>
    rcases h.write (writes hstack) hstack with handed | ⟨rfl, -, -, received⟩
    · exact same (.inl handed)
    have events : (hsRequestTerminateConnection ((finished httpRequestTimeout (written call (popped [] c))).log
        (.responded c.serial))).events = c.events ++ ([.write call.bytes, .responded c.serial] ++ [.terminate]) := by
      simp [hsRequestTerminateConnection, finished, written, popped]
    rw [events]
    refine told.last (by simp) ?_
    rw [receivedBytes_append, received]
    exact not_arrived_nil
  | _ => exact same (.inr (by simp [terminations, terminations_append, filled, popped, parsed, written, finished, setTimeout,
      invoked, streamed, answered, hsTokenArrayPush, hsRequestBeginRead, hsRequestBeginWrite]))

end Steps

section Runs

variable {cfg : Config} {c : Conn} {before after : List Event} {w : List UInt8}

theorem told_quiet {max : ℤ} {events : List Event} (quiet : .terminate ∉ events) : Told max events :=
  fun before after split => absurd (by rw [split]; simp) quiet

theorem early_accepted (h : Accepted c) : Early cfg c ∧ Told cfg.httpMaxRequestBufSize c.events := by
  have first := @first_accepted cfg c h
  obtain ⟨memused, rfl | ⟨respond, request, memused', hresp, rfl⟩⟩ := accepted_cases h
  · exact ⟨.fresh rfl rfl rfl rfl rfl rfl rfl, told_quiet (by simp [hsRequestBeginRead, hsRequestInit])⟩
  · refine ⟨?_, told_quiet (by simp [hsRequestBeginWrite, answered, hsRequestInit])⟩
    cases first with
    | dead dead => cases dead
    | refused state whole close => exact .refused state ⟨whole, close⟩ (.inr rfl) rfl
    | fresh _ _ state => cases state
    | parsing _ _ other => exact absurd rfl other

/-- Whenever the connection is terminated after a request has arrived, its handler was called before, with the tokens
    and the bytes of its head and of a body that comes with it. -/
theorem handler_before_end (run : Runs.Reached (Connection.step cfg) Accepted
      (fun c l => Asked c l ∧ Undivided cfg c l) c) (ended : c.events = before ++ .terminate :: after)
    (arrived : Arrived cfg.httpMaxRequestBufSize w (receivedBytes before)) :
    ∃ serial request, .invoke serial .requestHandler request ∈ before ∧
      request.tokens.map shape = handedShapes cfg.httpMaxRequestBufSize w ∧
      slice request.buffer.data 0 (handedLength cfg.httpMaxRequestBufSize w) =
        (receivedBytes before).take (handedLength cfg.httpMaxRequestBufSize w) := by
  have invariant : Steady c ∧ Holding c ∧ Early cfg c ∧ Told cfg.httpMaxRequestBufSize c.events := by
    clear ended
    induction run with
    | init h => exact ⟨steady_accepted h, holding_accepted h, early_accepted h⟩
    | @step c c' l run h hs ih =>
      obtain ⟨steady, held, early, told⟩ := ih
      obtain ⟨asked, undivided⟩ := h
      have move := step_move hs
      have noErr := noParseErr_reached (.step l run ⟨asked, undivided⟩ hs)
      exact ⟨steady.step move, held.step steady move, early.step steady held asked undivided noErr move,
        told.step steady early undivided move⟩
  obtain ⟨-, -, -, told⟩ := invariant
  obtain ⟨serial, request, called, off | ⟨w', accepted, start, tells⟩⟩ := told before after ended w arrived
  · exact absurd off arrived.unbroken
  obtain rfl := accepted_unique accepted arrived.whole.accepted start arrived.prefix_eq
  have told := tells arrived.length_ge
  exact ⟨serial, request, called, told.shapes, told.bytes⟩

/-- A request without a body, for which nothing follows the head. -/
def closing : List UInt8 := ascii "GET / HTTP/1.1\r\nConnection: close\r\n\r\n"

theorem closing_arrived : Arrived 8388608 closing closing := by
  have whole : ((headRun closing {}).any fun r => decide (r.1.ph = .headersDone ∧ none ∉ r.2)) = true := by decide +kernel
  have mode : modeOf 8388608 closing ≠ 0 := by decide +kernel
  obtain ⟨r, hr, head⟩ := (Option.any_eq_true _ _).1 whole
  obtain ⟨done, within⟩ := of_decide_eq_true head
  exact ⟨⟨r.1, r.2, hr, done, within⟩, List.prefix_rfl, fun none => absurd none mode, fun none => absurd none mode⟩

/-- The connection was terminated last. -/
def endsTerminated (c : Conn) : Bool :=
  match c.events.getLast? with
  | some .terminate => true
  | _ => false

theorem endsTerminated_split (h : endsTerminated c = true) : ∃ before, c.events = before ++ [.terminate] ∧
    receivedBytes before = receivedBytes c.events := by
  unfold endsTerminated at h
  split at h
  · rename_i last
    obtain ⟨before, events⟩ := List.getLast?_eq_some_iff.1 last
    exact ⟨before, events, by rw [events, receivedBytes_silent rfl]⟩
  · cases h

/-- A request whose body comes in a read of its own. -/
def posting : List UInt8 := ascii "POST / HTTP/1.1\r\nConnection: close\r\nContent-Length: 2\r\n\r\n"

theorem posting_arrived : Arrived 8388608 posting (posting ++ ascii "ab") := by
  have whole : ((headRun posting {}).any fun r => decide (r.1.ph = .headersDone ∧ none ∉ r.2)) = true := by decide +kernel
  have two : (Fields.start.run posting).contentLength = 2 := by decide +kernel
  obtain ⟨r, hr, head⟩ := (Option.any_eq_true _ _).1 whole
  obtain ⟨done, within⟩ := of_decide_eq_true head
  refine ⟨⟨r.1, r.2, hr, done, within⟩, List.prefix_append _ _, fun _ => ?_, fun _ => ?_⟩
  · rw [two]
    decide
  · rw [two, List.length_append]
    exact le_refl _

theorem handler_before_end_posting : ∃ (c : Conn) (before : List Event),
    Runs.Reached (Connection.step {}) Accepted (fun c l => Asked c l ∧ Undivided {} c l) c ∧
      c.events = before ++ [.terminate] ∧ ∃ serial request, .invoke serial .requestHandler request ∈ before ∧
        request.tokens.map shape = headShapes posting ++ [(HshTokenE.body, (posting.length : ℤ), 2)] ∧
        slice request.buffer.data 0 (posting ++ ascii "ab").length = posting ++ ascii "ab" := by
  have run : ((Runs.exec (Runs.guarded (Connection.step {}) fun c l => Asked c l ∧ Undivided {} c l)
      (reads posting :: execs 9 ++ .socketEvent :: reads (ascii "ab") :: execs 1 ++
        [.call (.respond {} sessionEnv), .write ⟨93, false⟩]) accepted).any fun c =>
        endsTerminated c && decide (receivedBytes c.events = posting ++ ascii "ab")) = true := by
    decide +kernel
  have mode : modeOf 8388608 posting = 0 := by decide +kernel
  have two : (Fields.start.run posting).contentLength = 2 := by decide +kernel
  obtain ⟨c, hc, check⟩ := (Option.any_eq_true _ _).1 run
  obtain ⟨terminated, bytes⟩ := Bool.and_eq_true_iff.1 check
  obtain ⟨before, events, same⟩ := endsTerminated_split terminated
  have received : receivedBytes before = posting ++ ascii "ab" := same.trans (of_decide_eq_true bytes)
  have reached : Runs.Reached (Connection.step {}) Accepted (fun c l => Asked c l ∧ Undivided {} c l) c :=
    .guarded (.init accepted_accepted) hc
  have arrived : Arrived 8388608 posting (receivedBytes before) := received ▸ posting_arrived
  obtain ⟨serial, request, called, shapes, text⟩ := handler_before_end reached events arrived
  have shapes_eq : handedShapes 8388608 posting = headShapes posting ++ [(HshTokenE.body, (posting.length : ℤ), 2)] := by
    unfold handedShapes
    rw [if_pos mode, two]
  have length_eq : handedLength 8388608 posting = (posting ++ ascii "ab").length := by
    unfold handedLength
    rw [if_pos mode, two, List.length_append]
    rfl
  change slice _ 0 (handedLength 8388608 posting) = _ at text
  rw [length_eq, received, List.take_length] at text
  exact ⟨c, before, reached, events, serial, request, called, shapes.trans shapes_eq, text⟩

/-- The read loop meets the end of the stream right behind the request: the bytes are dropped. -/
theorem request_dropped : ∃ (c : Conn) (before : List Event),
    Runs.Reached (Connection.step {}) Accepted Asked c ∧ c.events = before ++ [.terminate] ∧
      Arrived 8388608 closing (receivedBytes before) ∧
      ∀ serial request, .invoke serial .requestHandler request ∉ before := by
  have run : ((Runs.exec (Runs.guarded (Connection.step {}) Asked)
      [.read ⟨sessionBlock, [⟨⟨.bytes closing, sessionBlock.1⟩, sessionBlock.2⟩,
        ⟨⟨.eof, sessionBlock.1⟩, sessionBlock.2⟩]⟩] accepted).any fun c =>
        endsTerminated c && (decide (receivedBytes c.events = closing) && !handlerCalled c.events)) = true := by
    decide +kernel
  obtain ⟨c, hc, check⟩ := (Option.any_eq_true _ _).1 run
  obtain ⟨terminated, check⟩ := Bool.and_eq_true_iff.1 check
  obtain ⟨bytes, silent⟩ := Bool.and_eq_true_iff.1 check
  obtain ⟨before, events, same⟩ := endsTerminated_split terminated
  refine ⟨c, before, .guarded (.init accepted_accepted) hc, events, ?_, fun serial request called => ?_⟩
  · rw [same, of_decide_eq_true bytes]
    exact closing_arrived
  · have some : handlerCalled c.events = true :=
      List.any_eq_true.2 ⟨_, events ▸ List.mem_append_left _ called, rfl⟩
    rw [some] at silent
    cases silent

end Runs

end HttpServer.EndsOfStream
