import HttpServer.ServedRequests

set_option autoImplicit false

/-!
# HTTP_FLG_STREAMED

The flag is the bit of `HTTP_KEEP_ALIVE`. It says of a request whether its body is streamed as long as
nothing else has set or cleared that bit.
-/
namespace HttpServer.StreamedFlag
open MachineInt ParserGrammar HttpServer.Parser ReadBuffer ParserInvariant ParserRuns HeadMachine HeadGrammar HeadFields
  RequestRuns RequestUtil Respond Connection ConnectionSteps ConnectionInvariant HeldRequests AnsweredRequests
  ServedRequests

def httpRequestHasFlag (request : HttpRequestS) (flag : BitVec 8) : Bool := httpFlagCheck request.flags flag

/-- The body of the request is chunked, or too long for the buffer. -/
def BodyStreamed (max : ℤ) (request : HttpRequestS) : Prop :=
  httpFlagCheck request.parser.flags flagChunked = true ∨
    request.parser.contentLength > max - request.buffer.afterHeadersIndex

instance (max : ℤ) (request : HttpRequestS) : Decidable (BodyStreamed max request) := inferInstanceAs (Decidable (_ ∨ _))

def handedStep (held : Option HttpRequestS) : Event → Option HttpRequestS
  | .invoke _ .requestHandler request => some request
  | .response _ => none
  | _ => held

/-- The request that `request_handler` got last, until its response is started. -/
def handed (events : List Event) : Option HttpRequestS := events.foldl handedStep none

/-- A callback was called, or a response started. -/
def busy : Event → Bool
  | .invoke _ _ _ | .response _ => true
  | _ => false

/-- Nothing touches the bit: every head has a body, only the first request may have one that is read whole,
    and a directive says what the flag says. -/
def FlagKept (cfg : Config) (c : Conn) : Label → Prop
  | .exec blk _ => ∀ r ∈ hshParserExec cfg.httpMaxRequestBufSize blk.1 c.request.parser c.request.buffer,
      (r.1.type = .headersDone → httpFlagCheck r.1.flags hshTokFlagNoBody = false) ∧
        (r.1.type = .body → httpFlagCheck r.1.flags hshTokFlagSmallBody = true → c.events.any busy = false)
  | .call (.connection directive) => ∀ request ∈ handed c.events,
      (directive = 1 → BodyStreamed cfg.httpMaxRequestBufSize request) ∧
        (directive = 0 → ¬ BodyStreamed cfg.httpMaxRequestBufSize request)
  | _ => True

instance (cfg : Config) (c : Conn) (l : Label) : Decidable (FlagKept cfg c l) :=
  match l with
  | .exec _ _ => inferInstanceAs (Decidable (∀ r ∈ _, _ ∧ _))
  | .call (.connection _) => inferInstanceAs (Decidable (∀ request ∈ _, _ ∧ _))
  | .call (.respond _ _) | .call (.respondChunk _ _) | .call (.respondChunkEnd _ _) | .call .readChunk
  | .call .freeBuffer | .socketEvent | .timerEvent | .read _ | .write _ | .callbackReturn | .finalChunk => isTrue trivial

structure Flagged (max : ℤ) (c : Conn) : Prop where
  fresh : c.events.any busy = false → httpRequestHasFlag c.request httpFlgStreamed = false
  held : ∀ request ∈ handed c.events,
    (httpRequestHasFlag c.request httpFlgStreamed = true ↔ BodyStreamed max request)

section Events

variable {events more : List Event} {event : Event}

theorem handed_append (events more : List Event) : handed (events ++ more) = more.foldl handedStep (handed events) :=
  List.foldl_append

def plain (event : Event) : Bool :=
  match event with
  | .invoke _ .requestHandler _ | .response _ => false
  | _ => true

theorem handed_plain (h : ∀ event ∈ more, plain event = true) : handed (events ++ more) = handed events := by
  rw [handed_append]
  induction more with
  | nil => rfl
  | cons event more ih =>
    rw [List.foldl_cons]
    have first : handedStep (handed events) event = handed events := by
      have := h event List.mem_cons_self
      cases event with
      | invoke serial cb request =>
        cases cb with
        | requestHandler => cases this
        | chunkCb => rfl
      | response => cases this
      | _ => rfl
    rw [first]
    exact ih fun e he => h e (List.mem_cons_of_mem _ he)

theorem busy_append (h : (events ++ more).any busy = false) : events.any busy = false := by
  rw [List.any_append, Bool.or_eq_false_iff] at h
  exact h.1

theorem busy_outstanding (h : outstanding events = true) : events.any busy = true := by
  induction events using List.reverseRecOn with
  | nil => cases h
  | append_singleton events event ih =>
    rw [List.any_append, Bool.or_eq_true]
    cases event with
    | invoke => exact .inr rfl
    | response => exact .inr rfl
    | watch => simp at h
    | parseErr => exact .inl (ih (by simpa [outstanding] using h))
    | _ => exact .inl (ih (by simpa using h))

end Events

section Steps

variable {cfg : Config} {max : ℤ} {c c' d : Conn} {l : Label} {stack : List Frame}

theorem Flagged.same (h : Flagged max c) {more : List Event} (flags : d.request.flags = c.request.flags)
    (events : d.events = c.events ++ more) (quiet : ∀ event ∈ more, plain event = true) : Flagged max d := by
  have same : httpRequestHasFlag d.request httpFlgStreamed = httpRequestHasFlag c.request httpFlgStreamed :=
    congrArg (httpFlagCheck · httpFlgStreamed) flags
  refine ⟨fun idle => ?_, fun request hr => ?_⟩
  · rw [events] at idle
    exact same.trans (h.fresh (busy_append idle))
  · rw [events, handed_plain quiet] at hr
    rw [same]
    exact h.held request hr

theorem Flagged.response {request : HttpRequestS} {more : List Event} (events : d.events = c.events ++ .response request :: more)
    (quiet : ∀ event ∈ more, plain event = true) : Flagged max d := by
  refine ⟨fun idle => ?_, fun q hq => ?_⟩
  · rw [events] at idle
    simp [busy] at idle
  · rw [events, ← List.singleton_append, ← List.append_assoc, handed_plain quiet, handed_append] at hq
    cases hq

theorem Flagged.invoke {serial : ℕ} {request : HttpRequestS} {more : List Event}
    (events : d.events = c.events ++ more ++ [.invoke serial .requestHandler request])
    (flag : httpRequestHasFlag d.request httpFlgStreamed = true ↔ BodyStreamed max request) : Flagged max d := by
  refine ⟨fun idle => ?_, fun q hq => ?_⟩
  · rw [events] at idle
    simp [busy] at idle
  · rw [events, handed_append] at hq
    obtain rfl : request = q := Option.some.inj hq
    exact flag

theorem Flagged.piece (h : Flagged max c) {serial : ℕ} {request : HttpRequestS} {more : List Event}
    (flags : d.request.flags = c.request.flags)
    (events : d.events = c.events ++ more ++ [.invoke serial .chunkCb request])
    (quiet : ∀ event ∈ more, plain event = true) : Flagged max d := by
  refine h.same flags (events.trans (List.append_assoc ..)) fun event he => ?_
  rcases List.mem_append.1 he with he | he
  · exact quiet event he
  · rw [List.mem_singleton.1 he]
    rfl

theorem bodyMode_streamed {ahi n : ℤ} {chunked : Bool}
    (h : httpFlagCheck (bodyMode max ahi n chunked) hshTokFlagStreamedBody = true) :
    chunked = true ∨ n > wrap32 (max - ahi) := by
  unfold bodyMode at h
  split at h
  · exact .inl ‹_›
  split at h
  · exact absurd h (by decide)
  split at h
  · exact .inr ‹_›
  · exact absurd h (by decide)

theorem bodyMode_whole {ahi n : ℤ} {chunked : Bool} (h : bodyMode max ahi n chunked = 0) :
    chunked = false ∧ n ≤ wrap32 (max - ahi) := by
  unfold bodyMode at h
  split at h
  · exact absurd h (by decide)
  rename_i clear
  split at h
  · exact absurd h (by decide)
  split at h
  · exact absurd h (by decide)
  · exact ⟨eq_false_of_ne_true clear, not_lt.1 ‹_›⟩

theorem streamed_set (flags : BitVec 8) : httpFlagCheck (httpFlagSet flags httpFlgStreamed) httpFlgStreamed = true := by
  revert flags
  decide

theorem setKeepAlive_streamed (request : HttpRequestS) (directive : ℤ) :
    (directive = 1 ∧ httpRequestHasFlag (hsRequestSetKeepAliveFlag request directive) httpFlgStreamed = true) ∨
      (directive = 0 ∧ httpRequestHasFlag (hsRequestSetKeepAliveFlag request directive) httpFlgStreamed = false) ∨
      hsRequestSetKeepAliveFlag request directive = request := by
  have bits : ∀ flags : BitVec 8,
      httpFlagCheck (httpFlagSet (httpFlagClear flags httpAutomatic) httpKeepAlive) httpFlgStreamed = true ∧
        httpFlagCheck (httpFlagClear (httpFlagClear flags httpAutomatic) httpKeepAlive) httpFlgStreamed = false := by
    decide
  unfold hsRequestSetKeepAliveFlag httpRequestHasFlag
  split
  · exact .inl ⟨‹_›, (bits request.flags).1⟩
  split
  · exact .inr (.inl ⟨‹_›, (bits request.flags).2⟩)
  · exact .inr (.inr rfl)

theorem requested (session : Session (WithBody cfg.httpMaxRequestBufSize) cfg c) (hstack : c.stack = .parseBuffer :: stack) :
    ∃ input tokens, Requested cfg.httpMaxRequestBufSize input tokens c.request.parser c.request.buffer ∧
      phase c.request.parser.state ≠ .headersDone := by
  have live := (session.steady.library hstack rfl).live
  have state := (session.steady.reading hstack (.inr rfl)).1
  have block : c.request.buffer.buf ≠ 0 := by
    refine (session.buffered.reading live state).resolve_left ?_
    rw [hstack]
    simpa using (not_library (session.steady.below_popped hstack)).1
  obtain ⟨-, input, tokens, run, -⟩ := session.served.parsed live (by rw [state]; decide) block
  exact ⟨input, tokens, requested_withBody cfg.initial_pos.le cfg.initial_le cfg.max_lt run⟩

theorem Flagged.step (session : Session (WithBody cfg.httpMaxRequestBufSize) cfg c)
    (h : Flagged cfg.httpMaxRequestBufSize c) (protocol : Protocol c l) (kept : FlagKept cfg c l)
    (move : Move cfg c l c') : Flagged cfg.httpMaxRequestBufSize c' := by
  have max_lt := cfg.max_lt
  have max_pos : 0 < cfg.httpMaxRequestBufSize := cfg.initial_pos.trans_le cfg.initial_le
  have entered_flags : ∀ env d, (entered cfg env d).request.flags = d.request.flags := by
    intro env d
    unfold entered initBuffer
    split <;> rfl
  cases move with
  | wakeRead => exact @Flagged.same _ c _ h [] rfl (by simp) (by simp)
  | wakeWrite => exact @Flagged.same _ c _ h [] rfl (by simp) (by simp)
  | swallow => exact h
  | tick => exact @Flagged.same _ c _ h [] rfl (by simp [setTimeout]) (by simp)
  | expire => exact @Flagged.same _ c _ h [.terminate] rfl rfl (by simp [plain])
  | readSkip => exact @Flagged.same _ c _ h [] (entered_flags _ _) (by simp [popped]) (by simp)
  | @readEof env =>
    exact @Flagged.same _ c _ h [.read (env.readCalls.map ReadCall.result), .terminate] (entered_flags _ _)
      (by simp [hsRequestTerminateConnection, filled, popped]) (by simp [plain])
  | @readMore env =>
    exact @Flagged.same _ c _ h [.read (env.readCalls.map ReadCall.result)] (entered_flags _ _)
      (by simp [filled, popped]) (by simp [plain])
  | execNone => exact @Flagged.same _ c _ h [] rfl (by simp [parsed, popped]) (by simp)
  | @execErr _ _ _ _ _ _ request =>
    refine @Flagged.response _ (c.log .parseErr) _ request [.watch .epollout] ?_ (by simp [plain])
    simp [hsRequestBeginWrite, answered, parsed, popped]
  | @execLine _ _ _ token => exact @Flagged.same _ c _ h [.push c.serial token] rfl rfl (by simp [plain])
  | @execHead blk _ _ token parser buffer hstack hr type starts =>
    obtain ⟨input, tokens, req, goesOn⟩ := requested session hstack
    obtain ⟨-, w, ended⟩ := (req.exec blk.2 max_lt goesOn hr).2.ended type
    refine @Flagged.invoke _ c _ c.serial _ [.push c.serial token] rfl ⟨fun _ => ?_, fun _ => streamed_set _⟩
    have noBody := (kept _ hr).1 type
    have streamedBody : httpFlagCheck token.flags hshTokFlagStreamedBody = true := by
      unfold startsHandler at starts
      rw [noBody, Bool.or_false] at starts
      exact starts
    rw [ended.mode_eq] at streamedBody
    have ahi := ended.finished.ahi_eq
    have ok := ended.finished.ok
    have held := ok.held rfl
    have nonneg := ok.ahi_nonneg
    have le := ok.ahi_le
    refine (bodyMode_streamed streamedBody).imp_right fun large => ?_
    change parser.contentLength > cfg.httpMaxRequestBufSize - buffer.afterHeadersIndex
    rw [wrap32_eq (by omega) (by omega)] at large
    exact large
  | @execSmall blk _ _ token parser buffer hstack hr type small =>
    obtain ⟨input, tokens, req, goesOn⟩ := requested session hstack
    obtain ⟨w, mode, place⟩ := (req.exec blk.2 max_lt goesOn hr).2.whole type small
    have clear := h.fresh ((kept _ hr).2 type small)
    refine @Flagged.invoke _ c _ c.serial _ [.push c.serial token] rfl ⟨fun set => ?_, fun streamed => ?_⟩
    · exact absurd (clear.symm.trans set) (by decide)
    · obtain ⟨chunked, fits⟩ := bodyMode_whole mode
      have ahi := place.ahi_eq
      have content := place.content_eq
      have ok := place.ok
      have held := ok.held rfl
      have nonneg := ok.ahi_nonneg
      have le := ok.ahi_le
      rcases streamed with set | large
      · have := place.chunked_eq.symm.trans set
        rw [chunked] at this
        cases this
      · change parser.contentLength > cfg.httpMaxRequestBufSize - buffer.afterHeadersIndex at large
        rw [wrap32_eq (by omega) (by omega)] at fits
        omega
  | @execFinal _ _ _ token => exact @Flagged.piece _ c _ h c.serial _ [.push c.serial token] rfl rfl (by simp [plain])
  | @execPiece _ _ _ token => exact @Flagged.piece _ c _ h c.serial _ [.push c.serial token] rfl rfl (by simp [plain])
  | @writeMore call => exact @Flagged.same _ c _ h [.write call.bytes] rfl rfl (by simp [plain])
  | @writeErr call =>
    exact @Flagged.same _ c _ h [.write call.bytes, .terminate] rfl
      (by simp [hsRequestTerminateConnection, finished, written, popped]) (by simp [plain])
  | @writeClose call =>
    exact @Flagged.same _ c _ h [.write call.bytes, .responded c.serial, .terminate] rfl
      (by simp [hsRequestTerminateConnection, finished, written, popped]) (by simp [plain])
  | @writeNext call =>
    exact @Flagged.same _ c _ h [.write call.bytes, .responded c.serial, .watch .epollin] rfl
      (by simp [hsRequestBeginRead, finished, written, popped]) (by simp [plain])
  | @writeChunk call => exact @Flagged.piece _ c _ h c.serial _ [.write call.bytes] rfl rfl (by simp [plain])
  | @respond _ _ _ request =>
    exact @Flagged.response _ c _ request [.watch .epollout] (by simp [hsRequestBeginWrite, answered]) (by simp [plain])
  | readChunk => exact @Flagged.same _ c _ h [.watch .epollin] rfl rfl (by simp [plain])
  | freeBuffer => exact @Flagged.same _ c _ h [] rfl (by simp [finished]) (by simp)
  | @connection directive =>
    have called : c.events.any busy = true := busy_outstanding (protocol.1 _ rfl)
    rcases setKeepAlive_streamed c.request directive with ⟨one, set⟩ | ⟨zero, clear⟩ | same
    · refine ⟨fun idle => absurd (called.symm.trans idle) (by decide), fun request hr => ⟨fun _ => ?_, fun _ => set⟩⟩
      exact (kept request hr).1 one
    · refine ⟨fun idle => absurd (called.symm.trans idle) (by decide), fun request hr => ⟨fun on => ?_, fun on => ?_⟩⟩
      · exact absurd (clear.symm.trans on) (by decide)
      · exact absurd on ((kept request hr).2 zero)
    · exact @Flagged.same _ c _ h [] (congrArg HttpRequestS.flags same) (by simp) (by simp)
  | callbackReturn => exact @Flagged.same _ c _ h [] rfl (by simp [popped]) (by simp)
  | @finalChunk serial =>
    exact @Flagged.piece _ c _ h serial _ [.push serial { type := .body }] rfl rfl (by simp [plain])

theorem flagged_accepted (h : Accepted c) : Flagged max c := by
  obtain ⟨memused, rfl | ⟨respond, request, memused', -, rfl⟩⟩ := accepted_cases h
  · have flags : (hsRequestBeginRead (hsRequestInit memused)).request.flags = httpAutomatic := rfl
    have events : (hsRequestBeginRead (hsRequestInit memused)).events = [.watch .epollin, .watch .epollin] := rfl
    refine ⟨fun _ => ?_, fun request hr => ?_⟩
    · rw [httpRequestHasFlag, flags]
      decide
    · rw [events] at hr
      cases hr
  · exact @Flagged.response _ (hsRequestInit memused) _ request [.watch .epollout]
      (by simp [hsRequestBeginWrite, answered]) (by simp [plain])

end Steps

section Runs

variable {cfg : Config} {c : Conn} {request : HttpRequestS}

structure FlagRun (cfg : Config) (c : Conn) : Prop where
  session : Session (WithBody cfg.httpMaxRequestBufSize) cfg c
  flagged : Flagged cfg.httpMaxRequestBufSize c

theorem FlagRun.step {c' : Conn} {l : Label} (h : FlagRun cfg c) (protocol : Protocol c l) (kept : FlagKept cfg c l)
    (move : Move cfg c l c') : FlagRun cfg c' := by
  refine ⟨h.session.step protocol ?_ move, h.flagged.step h.session protocol kept move⟩
  cases l with
  | exec => exact fun r hr => (kept r hr).1
  | _ => trivial

/-- In every run in which nothing else touches the bit, the flag says of the request that was handed over
    whether its body is streamed, until the response is started. -/
theorem streamed_flag (run : Runs.Reached (Connection.step cfg) Accepted (fun c l => Protocol c l ∧ FlagKept cfg c l) c)
    (h : handed c.events = some request) :
    httpRequestHasFlag c.request httpFlgStreamed = true ↔ BodyStreamed cfg.httpMaxRequestBufSize request := by
  have flagRun : FlagRun cfg c := run.invariant (fun _ h => ⟨session_accepted h, flagged_accepted h⟩)
    fun _ _ _ h ok hs => h.step ok.1 ok.2 (step_move hs)
  exact flagRun.flagged.held request h

/-- A chunked request. -/
theorem streamed_flag_chunked : ∃ c request,
    Runs.Reached (Connection.step {}) Accepted (fun c l => Protocol c l ∧ FlagKept {} c l) c ∧
      handed c.events = some request ∧
      (httpRequestHasFlag c.request httpFlgStreamed = true ↔ BodyStreamed 8388608 request) := by
  have run : ((Runs.exec (Runs.guarded (Connection.step {}) fun c l => Protocol c l ∧ FlagKept {} c l)
      (reads (ascii "POST / HTTP/1.1\r\nTransfer-Encoding: chunked\r\n\r\n") :: execs 6) accepted).any fun c =>
        (handed c.events).isSome) = true := by
    decide +kernel
  obtain ⟨c, hc, some⟩ := (Option.any_eq_true _ _).1 run
  obtain ⟨request, hr⟩ := Option.isSome_iff_exists.1 some
  have reached : Runs.Reached (Connection.step {}) Accepted (fun c l => Protocol c l ∧ FlagKept {} c l) c :=
    .guarded (.init accepted_accepted) hc
  exact ⟨c, request, reached, hr, streamed_flag reached hr⟩

/-- The flag of a request without a body is set. -/
theorem streamed_without_body : ∃ c request,
    Runs.Reached (Connection.step {}) Accepted (fun _ _ => True) c ∧ handed c.events = some request ∧
      ¬ (httpRequestHasFlag c.request httpFlgStreamed = true ↔ BodyStreamed 8388608 request) := by
  have run : ((Runs.exec (Connection.step {}) handled accepted).any fun c =>
      (handed c.events).any fun request =>
        decide (httpRequestHasFlag c.request httpFlgStreamed = true ∧ ¬ BodyStreamed 8388608 request)) = true := by
    decide +kernel
  obtain ⟨c, hc, some⟩ := (Option.any_eq_true _ _).1 run
  obtain ⟨request, hr, set⟩ := (Option.any_eq_true _ _).1 some
  rw [decide_eq_true_eq] at set
  exact ⟨c, request, session_reached hc, hr, fun iff => set.2 (iff.1 set.1)⟩

end Runs

end HttpServer.StreamedFlag
