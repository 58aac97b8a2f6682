import HttpServer.HandlerCalls

set_option autoImplicit false

/-!
# No head is handed over twice

For each request `request_handler` is called at most as often as heads of it were completed, whatever is read
and whatever user code calls.
-/
namespace HttpServer.HandlerCounts
open Scanner ParserTables ParserGrammar HttpServer.Parser ReadBuffer ParserInvariant ParserCalls BodyPhases
  RequestRuns Respond Connection ConnectionSteps ConnectionInvariant HeldRequests FirstRequests HandlerCalls

section Heads

variable {max : ℤ} {blk : NewBlock} {parser parser' : HshParserS} {buffer buffer' : HshBufferS} {token : HshTokenS}
  {s t : Exec} {c : UInt8}

/-- The loop is left for a small body only with a token without flags. -/
def Plain (t : Exec) : Prop := inSmall (phase t.cs) = true → t.parser.token.flags = 0

theorem plain_of_outside (outside : inSmall (phase t.cs) = false) : Plain t :=
  fun small => absurd (outside.symm.trans small) (by decide)

theorem runAction_plain {a : Action} (outside : inSmall (phase t.cs) = false) :
    (runAction max blk c a t).Sat True (fun u => inSmall (phase u.cs) = false) Plain := by
  cases a with
  | emitToken => exact plain_of_outside outside
  | incCount =>
    change (incCount t).Sat _ _ _
    unfold incCount
    dsimp only
    split
    · exact plain_of_outside outside
    · exact outside
  | doneHeaders =>
    change (doneHeaders max blk t).Sat _ _ _
    unfold doneHeaders
    dsimp only
    split
    · exact plain_of_outside (show inSmall (phase hshHttpEnChunkedBody) = false by decide)
    split
    · exact plain_of_outside outside
    split
    · exact plain_of_outside (show inSmall (phase hshHttpEnLargeBody) = false by decide)
    · exact fun _ => rfl
  | chunkSize =>
    obtain ⟨n, hn⟩ := chunkSize_cases c t
    change (Flow.fall (chunkSize c t)).Sat _ _ _
    rw [hn]
    exact outside
  | chunkRead =>
    change (chunkRead max t).Sat _ _ _
    unfold chunkRead
    dsimp only
    split
    · exact plain_of_outside (show inSmall (phase hshHttpEnChunkEnd) = false by decide)
    split
    · split
      · trivial
      · exact plain_of_outside outside
    · exact outside
  | endStream => exact plain_of_outside outside
  | smallBodyRead =>
    change (smallBodyRead t).Sat _ _ _
    unfold smallBodyRead
    dsimp only
    split <;> exact plain_of_outside outside
  | largeBodyRead =>
    change (largeBodyRead t).Sat _ _ _
    unfold largeBodyRead
    dsimp only
    split <;> exact plain_of_outside outside
  | error => exact plain_of_outside outside
  | _ => exact outside

theorem not_inSmall {ph : Phase} (head : inHead ph = true) : inSmall ph = false := by
  cases ph <;> first | rfl | cases head

theorem head_plain (h : HeadInv s) (alive : s.cs ≠ hshHttpError) :
    ((machine max blk).step c s).Sat True (fun _ => True) Plain := by
  have hc : c.toNat < 256 := c.toNat_lt
  have data : phase s.cs ≠ .bodyData := by
    intro hd
    have head := h.head
    rw [hd] at head
    cases head
  obtain ⟨htarg, -⟩ := tables_agree h.state_lt hc alive data
  have outside : inSmall (phase (transTarg s.cs c.toNat)) = false := by
    rw [htarg]
    rcases phaseStep_inHead h.head c.toNat with ⟨error, -⟩ | ended | ⟨head, -⟩
    · rw [error]
      rfl
    · rw [ended]
      rfl
    · exact not_inSmall head
  refine Machine.step_sat (P := fun u => inSmall (phase u.cs) = false) _ ?_ fun u hu => ?_
  · exact Machine.runActs_sat _ (C := fun _ _ _ => True) (fun a _ t ht _ => runAction_plain ht) outside
      (Machine.actsOk_true _ _ _ _)
  · rcases ParserCalls.again_cases u with ⟨heq, -⟩ | heq <;> rw [heq]
    · exact plain_of_outside hu
    · trivial

theorem head_waits (h : HeadCall parser) (hr : hshParserExec max blk parser buffer = some (token, parser', buffer'))
    (small : SmallBody parser') : startsHandler token = false := by
  have typed := (h.exec hr).2.1 small
  have running : httpFlagCheck parser.flags flagDone = false := by
    refine eq_false_of_ne_true fun finished => ?_
    unfold hshParserExec at hr
    rw [if_pos (.inl finished)] at hr
    cases hr
    cases typed
  have start : HeadInv (enter parser buffer) := ⟨h.state_lt, h.head, h.token, h.tokenReady, running⟩
  have step : ∀ c s, HeadInv s → s.p ≠ s.pe → s.cs ≠ hshHttpError → True →
      ((machine max blk).step c s).Sat True HeadInv Plain := by
    intro c s hs _ alive _
    have inv : ((machine max blk).step c s).Sat True HeadInv HeadExit := head_place hs alive
    have plain : ((machine max blk).step c s).Sat True (fun _ => True) Plain := head_plain hs alive
    cases hst : (machine max blk).step c s with
    | fall t =>
      rw [hst] at inv
      exact inv
    | out t =>
      rw [hst] at plain
      exact plain
    | fault => trivial
  have flags : token.flags = 0 := by
    rcases hshParserExec_sat start (fun s hs => plain_of_outside (not_inSmall hs.head)) step execOk_any hr with
      heq | ⟨t, plain, heq⟩
    · cases heq
      rfl
    rcases leave_cases t with ⟨-, hl⟩ | ⟨-, hl⟩ <;> rw [hl] at heq <;> cases heq
    · refine plain ?_
      rcases (small {}).small with ph | ⟨ph, -⟩ <;>
        · change phase t.cs = _ at ph
          rw [ph]
          rfl
    · rfl
  rw [startsHandler, flags]
  decide

end Heads

def isCall (serial : ℕ) : Event → Bool
  | .invoke g .requestHandler _ => serial = g
  | _ => false

def isEnd (serial : ℕ) : Event → Bool
  | .push g token => serial = g ∧ token.type = .headersDone
  | _ => false

def handlerCalls (serial : ℕ) (events : List Event) : ℕ := events.countP (isCall serial)

def headEnds (serial : ℕ) (events : List Event) : ℕ := events.countP (isEnd serial)

/-- The tokens with which the handler is called. -/
def hands (token : HshTokenS) : Bool :=
  (token.type = .headersDone && startsHandler token) || (token.type = .body && httpFlagCheck token.flags hshTokFlagSmallBody)

section Counts

variable {cfg : Config} {c c' : Conn} {l : Label} {serial : ℕ} {events more : List Event}

@[simp] theorem handlerCalls_append : handlerCalls serial (events ++ more) = handlerCalls serial events + handlerCalls serial more :=
  List.countP_append

@[simp] theorem headEnds_append : headEnds serial (events ++ more) = headEnds serial events + headEnds serial more :=
  List.countP_append

/-- What a step counts. -/
inductive Counts (cfg : Config) (c c' : Conn) : Prop
  | quiet (parser : c'.request.parser = c.request.parser ∧ c'.serial = c.serial ∨ c'.request.parser = hshParserInit)
      (more : List Event) (events : c'.events = c.events ++ more)
      (calls : ∀ g, handlerCalls g more = 0) (heads : ∀ g, headEnds g more = 0)
  | exec {blk : Block} {token : HshTokenS} {parser : HshParserS} {buffer : HshBufferS}
      (hr : hshParserExec cfg.httpMaxRequestBufSize blk.1 c.request.parser c.request.buffer = some (token, parser, buffer))
      (parser_eq : c'.request.parser = parser) (serial : c'.serial = c.serial)
      (more : List Event) (events : c'.events = c.events ++ more)
      (calls : ∀ g, handlerCalls g more = if g = c.serial ∧ hands token = true then 1 else 0)
      (heads : ∀ g, headEnds g more = if g = c.serial ∧ token.type = .headersDone then 1 else 0)

theorem entered_machine (env : ReadEnv) (c : Conn) :
    (entered cfg env c).request.parser = c.request.parser ∧ (entered cfg env c).serial = c.serial ∨
      (entered cfg env c).request.parser = hshParserInit := by
  unfold entered initBuffer
  split
  · exact .inr rfl
  · exact .inl ⟨rfl, rfl⟩

theorem move_counts (move : Move cfg c l c') : Counts cfg c c' := by
  have same : ∀ {d : Conn}, d.events = c.events → d.request.parser = c.request.parser ∧ d.serial = c.serial ∨
      d.request.parser = hshParserInit → Counts cfg c d := fun events parser =>
    .quiet parser [] (by rw [events, List.append_nil]) (fun _ => rfl) fun _ => rfl
  cases move with
  | wakeRead => exact same rfl (.inl ⟨rfl, rfl⟩)
  | wakeWrite => exact same rfl (.inl ⟨rfl, rfl⟩)
  | swallow => exact same rfl (.inl ⟨rfl, rfl⟩)
  | tick => exact same rfl (.inl ⟨rfl, rfl⟩)
  | expire => exact .quiet (.inl ⟨rfl, rfl⟩) [.terminate] rfl (fun _ => rfl) fun _ => rfl
  | @readSkip env stack => exact same (by simp [popped]) (entered_machine env (popped stack c))
  | @readEof env stack =>
    refine .quiet (entered_machine env (popped stack c)) [.read (env.readCalls.map ReadCall.result), .terminate] ?_
      (fun _ => rfl) fun _ => rfl
    simp [hsRequestTerminateConnection, filled, popped]
  | @readMore env stack =>
    refine .quiet (entered_machine env (popped stack c)) [.read (env.readCalls.map ReadCall.result)] ?_ (fun _ => rfl)
      fun _ => rfl
    simp [filled, popped]
  | execNone hstack hr type =>
    exact .exec hr rfl rfl [] (by simp [parsed, popped]) (fun g => by simp [handlerCalls, hands, type])
      fun g => by simp [headEnds, type]
  | @execErr _ _ _ _ _ _ request _ hstack hr type hresp =>
    have parser := (hsRequestRespond_responded hresp).parser_eq
    exact .exec hr parser rfl [.parseErr, .response request, .watch .epollout]
      (by simp [hsRequestBeginWrite, answered, parsed, popped])
      (fun g => by simp [handlerCalls, isCall, hands, type]) fun g => by simp [headEnds, isEnd, type]
  | @execLine _ _ _ token _ _ hstack hr type =>
    have silent : hands token = false := by
      have waits := type.2.2.2
      by_cases ended : token.type = .headersDone
      · simp [hands, ended, waits ended]
      · simp [hands, ended, type.2.2.1]
    refine .exec hr rfl rfl [.push c.serial token] rfl (fun g => ?_) fun g => ?_
    · simp [handlerCalls, isCall, silent]
    · simp [headEnds, isEnd]
  | @execHead _ _ _ token _ _ hstack hr type starts =>
    refine .exec hr rfl rfl [.push c.serial token, .invoke c.serial .requestHandler _] (List.append_assoc c.events [_] [_])
      (fun g => ?_) fun g => ?_
    · simp [handlerCalls, isCall, List.countP_cons, hands, type, starts]
    · simp [headEnds, isEnd, List.countP_cons, type]
  | @execSmall _ _ _ token _ _ hstack hr type small =>
    refine .exec hr rfl rfl [.push c.serial token, .invoke c.serial .requestHandler _] (List.append_assoc c.events [_] [_])
      (fun g => ?_) fun g => ?_
    · simp [handlerCalls, isCall, hands, type, small, eq_comm]
    · simp [headEnds, isEnd, type]
  | @execFinal _ _ _ token _ _ hstack hr type small =>
    refine .exec hr rfl rfl [.push c.serial token, .invoke c.serial .chunkCb _] (List.append_assoc c.events [_] [_])
      (fun g => ?_) fun g => ?_
    · simp [handlerCalls, isCall, hands, type, small]
    · simp [headEnds, isEnd, type]
  | @execPiece _ _ _ token _ _ hstack hr type small =>
    refine .exec hr rfl rfl [.push c.serial token, .invoke c.serial .chunkCb _] (List.append_assoc c.events [_] [_])
      (fun g => ?_) fun g => ?_
    · simp [handlerCalls, isCall, hands, type, small]
    · simp [headEnds, isEnd, type]
  | @writeMore call => exact .quiet (.inl ⟨rfl, rfl⟩) [.write call.bytes] rfl (fun _ => rfl) fun _ => rfl
  | @writeErr call =>
    refine .quiet (.inl ⟨rfl, rfl⟩) [.write call.bytes, .terminate] ?_ (fun _ => rfl) fun _ => rfl
    simp [hsRequestTerminateConnection, finished, written, popped]
  | @writeClose call =>
    refine .quiet (.inl ⟨rfl, rfl⟩) [.write call.bytes, .responded c.serial, .terminate] ?_ (fun _ => rfl) fun _ => rfl
    simp [hsRequestTerminateConnection, finished, written, popped]
  | @writeNext call =>
    refine .quiet (.inl ⟨rfl, rfl⟩) [.write call.bytes, .responded c.serial, .watch .epollin] ?_ (fun _ => rfl) fun _ => rfl
    simp [hsRequestBeginRead, finished, written, popped]
  | @writeChunk call =>
    exact .quiet (.inl ⟨rfl, rfl⟩) [.write call.bytes, .invoke c.serial .chunkCb _] (List.append_assoc c.events [_] [_])
      (fun _ => rfl) fun _ => rfl
  | @respond _ _ _ request _ _ _ hcall hf =>
    exact .quiet (.inl ⟨(responds_responded hcall hf).parser_eq, rfl⟩) [.response request, .watch .epollout]
      (List.append_assoc c.events [_] [_]) (fun _ => rfl) fun _ => rfl
  | readChunk => exact .quiet (.inl ⟨rfl, rfl⟩) [.watch .epollin] rfl (fun _ => rfl) fun _ => rfl
  | freeBuffer => exact same rfl (.inl ⟨rfl, rfl⟩)
  | @connection directive =>
    obtain ⟨flags, hflags⟩ := @setKeepAlive_flags c.request directive
    exact same rfl (.inl ⟨by rw [hflags], rfl⟩)
  | callbackReturn => exact same rfl (.inl ⟨rfl, rfl⟩)
  | @finalChunk serial =>
    refine .quiet (.inl ⟨rfl, rfl⟩) [.push serial { type := .body }, .invoke serial .chunkCb _]
      (List.append_assoc c.events [_] [_]) (fun _ => rfl) fun g => ?_
    simp [headEnds, isEnd]

/-- No request was handed over more often than heads of it ended, and a head whose small body is not complete was not
    handed over yet. -/
structure Fair (c : Conn) : Prop where
  mode : Mode c.request.parser
  fewer : ∀ g, handlerCalls g c.events ≤ headEnds g c.events
  waits : SmallBody c.request.parser → httpFlagCheck c.request.parser.flags flagDone = true ∨
    handlerCalls c.serial c.events + 1 ≤ headEnds c.serial c.events

theorem Fair.step (h : Fair c) (move : Move cfg c l c') : Fair c' := by
  obtain ⟨mode, fewer, waits⟩ := h
  cases move_counts move with
  | quiet parser more events calls heads =>
    have same : ∀ g, handlerCalls g c'.events = handlerCalls g c.events ∧ headEnds g c'.events = headEnds g c.events := by
      intro g
      rw [events, handlerCalls_append, headEnds_append, calls, heads]
      exact ⟨rfl, rfl⟩
    refine ⟨?_, fun g => by rw [(same g).1, (same g).2]; exact fewer g, fun small => ?_⟩
    · rcases parser with ⟨parser, -⟩ | parser <;> rw [parser]
      · exact mode
      · exact mode_init
    · rcases parser with ⟨parser, serial⟩ | parser
      · rw [parser] at small ⊢
        rw [serial, (same _).1, (same _).2]
        exact waits small
      · rw [parser] at small
        exact absurd small (not_small_of_head ⟨by decide, by decide, by decide, by decide⟩)
  | @exec blk token parser buffer hr parser_eq serial more events calls heads =>
    have next : ∀ g, handlerCalls g c'.events = handlerCalls g c.events + (if g = c.serial ∧ hands token = true then 1 else 0) ∧
        headEnds g c'.events = headEnds g c.events + (if g = c.serial ∧ token.type = .headersDone then 1 else 0) := by
      intro g
      rw [events, handlerCalls_append, headEnds_append, calls, heads]
      exact ⟨rfl, rfl⟩
    have quiet : hands token = false → token.type ≠ .headersDone → ∀ g,
        handlerCalls g c'.events = handlerCalls g c.events ∧ headEnds g c'.events = headEnds g c.events := by
      intro silent line g
      simpa [silent, line] using next g
    cases mode with
    | head head =>
      obtain ⟨mode', ended, notBody⟩ := head.exec hr
      have calls_end : hands token = true → token.type = .headersDone := by
        intro hand
        simp only [hands, notBody, decide_false, Bool.false_and, Bool.or_false, Bool.and_eq_true, decide_eq_true_eq] at hand
        exact hand.1
      refine ⟨parser_eq ▸ mode', fun g => ?_, fun small => .inr ?_⟩
      · have before := fewer g
        rw [(next g).1, (next g).2]
        by_cases hand : g = c.serial ∧ hands token = true
        · rw [if_pos hand, if_pos ⟨hand.1, calls_end hand.2⟩]
          omega
        · rw [if_neg hand]
          omega
      · rw [parser_eq] at small
        have typed := ended small
        have silent : hands token = false := by simp [hands, typed, head_waits head hr small]
        have before := fewer c.serial
        rw [serial, (next _).1, (next _).2, silent, typed]
        simpa using before
    | stream stream =>
      obtain ⟨stream', piece⟩ := hshParserExec_stream stream hr
      have silent : hands token = false ∧ token.type ≠ .headersDone := by
        rcases piece with rfl | ⟨typed, small⟩
        · decide
        · simp [hands, typed, small]
      have same := quiet silent.1 silent.2
      refine ⟨parser_eq ▸ .stream stream', fun g => by rw [(same g).1, (same g).2]; exact fewer g, fun small => ?_⟩
      rw [parser_eq] at small
      exact absurd small (not_small_of_stream stream')
    | small body =>
      obtain ⟨small', -, left⟩ := hshParserExec_small body hr
      rcases left with rfl | ⟨typed, running, done⟩
      · have same := quiet (by decide) (by decide)
        refine ⟨parser_eq ▸ .small small', fun g => by rw [(same g).1, (same g).2]; exact fewer g, fun _ => ?_⟩
        rw [serial, (same _).1, (same _).2, parser_eq]
        by_cases finished : httpFlagCheck c.request.parser.flags flagDone = true
        · unfold hshParserExec at hr
          rw [if_pos (.inl finished)] at hr
          cases hr
          exact .inl finished
        · exact .inr ((waits body).resolve_left finished)
      · have slack := (waits body).resolve_left fun finished => absurd (running.symm.trans finished) (by decide)
        have line : token.type ≠ .headersDone := by rw [typed]; decide
        refine ⟨parser_eq ▸ .small small', fun g => ?_, fun _ => .inl (parser_eq ▸ done)⟩
        have before := fewer g
        have heads : headEnds g c'.events = headEnds g c.events := by simpa [line] using (next g).2
        rw [(next g).1, heads]
        by_cases hand : g = c.serial ∧ hands token = true
        · rw [if_pos hand, hand.1]
          exact slack
        · rw [if_neg hand]
          exact before

theorem fair_accepted (cfg : Config) (h : Accepted c) : Fair c := by
  have course : Course cfg c := course_accepted h
  have silent : (∀ g, handlerCalls g c.events = 0) ∧ ¬ SmallBody c.request.parser := by
    have dead : ¬ SmallBody {} := by
      intro small
      rcases (small {}).small with ph | ⟨ph, -⟩ <;> cases ph
    obtain ⟨memused, rfl | ⟨respond, request, memused', hresp, rfl⟩⟩ := accepted_cases h
    · exact ⟨fun _ => rfl, dead⟩
    · have parser : request.parser = {} := (hsRequestRespond_responded hresp).parser_eq
      refine ⟨fun _ => rfl, ?_⟩
      change ¬ SmallBody request.parser
      rw [parser]
      exact dead
  exact ⟨course.mode, fun g => by rw [silent.1]; exact Nat.zero_le _, fun small => absurd small silent.2⟩

/-- In every run the handler is called for a request at most as often as heads of it have ended. -/
theorem handler_calls_le (run : Runs.Reached (Connection.step cfg) Accepted (fun _ _ => True) c) (serial : ℕ) :
    handlerCalls serial c.events ≤ headEnds serial c.events := by
  have fair : Fair c := run.invariant (fun _ h => fair_accepted cfg h) fun _ _ _ h _ hs => h.step (step_move hs)
  exact fair.fewer serial

/-- A request with a body, which is handed over once. -/
theorem handler_calls_le_post : ∃ c, Runs.Reached (Connection.step {}) Accepted (fun _ _ => True) c ∧
    handlerCalls 1 c.events = 1 ∧ handlerCalls 1 c.events ≤ headEnds 1 c.events := by
  have run : ((Runs.exec (Connection.step {}) (reads (ascii "POST / HTTP/1.1\r\nContent-Length: 2\r\n\r\nab") :: execs 7)
      accepted).any fun c => decide (handlerCalls 1 c.events = 1)) = true := by
    decide +kernel
  obtain ⟨c, hc, hs⟩ := (Option.any_eq_true _ _).1 run
  exact ⟨c, session_reached hc, of_decide_eq_true hs, handler_calls_le (session_reached hc) 1⟩

end Counts

end HttpServer.HandlerCounts
