import HttpServer.AnsweredRequests
import HttpServer.RequestRuns

set_option autoImplicit false

/-!
# The parser of a connection

While a request is read, the parser and the buffer of the connection are those of a run of the parser that
began with the buffer. On the first request of a connection the run has taken every byte, and its tokens
are the ones of the request, up to the empty piece that ends a body.
-/
namespace HttpServer.ServedRequests
open HttpServer.Parser ReadBuffer RequestUtil Respond Connection ConnectionSteps ConnectionInvariant HeldRequests
  AnsweredRequests ParserRuns ParserCalls RequestRuns

def receivedBytes : List Event → List UInt8
  | [] => []
  | .read results :: events => results.flatMap ReadResult.received ++ receivedBytes events
  | _ :: events => receivedBytes events

def Calls (ok : HshParserS → HshBufferS → NewBlock → Prop) (c : Conn) : Label → Prop
  | .exec blk _ => ok c.request.parser c.request.buffer blk.1
  | _ => True

/-- User code calls while a call is outstanding, and in the callback of a final piece it only asks for more. -/
def Protocol (c : Conn) (l : Label) : Prop := Asked c l ∧ Finishing c l

instance (c : Conn) (l : Label) : Decidable (Protocol c l) := inferInstanceAs (Decidable (_ ∧ _))

structure Served (ok : HshParserS → HshBufferS → NewBlock → Prop) (cfg : Config) (c : Conn) : Prop where
  parsed : c.live = true → c.request.state ≠ .write → c.request.buffer.buf ≠ 0 → 1 ≤ c.serial ∧
    ∃ input tokens, ParserRun ok cfg.httpRequestBufSize cfg.httpMaxRequestBufSize input tokens c.request.parser
      c.request.buffer ∧
      (c.serial = 1 → lines c.request.tokens = lines tokens ∧ receivedBytes c.events = input)
  fresh : c.serial = 0 → c.request.tokens = [] ∧ receivedBytes c.events = []

section Ghosts

variable {tokens tokens' : List HshTokenS} {token : HshTokenS} {events : List Event}

theorem lines_emitted : lines (emitted token) = lines [token] ∨ token.type = .none := by
  by_cases none : token.type = .none
  · exact .inr none
  · simp [emitted, none]

theorem lines_push (typed : token.type ≠ .none) (same : lines tokens = lines tokens') :
    lines (tokens ++ [token]) = lines (tokens' ++ emitted token) := by
  rw [lines_append, lines_append, same, lines_emitted.resolve_right typed]

theorem receivedBytes_append (events events' : List Event) :
    receivedBytes (events ++ events') = receivedBytes events ++ receivedBytes events' := by
  induction events with
  | nil => rfl
  | cons event events ih => cases event <;> simp [receivedBytes, ih]

theorem receivedBytes_read (env : ReadEnv) :
    receivedBytes [.read (env.readCalls.map ReadCall.result)] = received env.readCalls := by
  simp [receivedBytes, received, List.flatMap_map]

def silent : Event → Bool
  | .read _ => false
  | _ => true

theorem receivedBytes_silent {event : Event} (h : silent event = true) :
    receivedBytes (events ++ [event]) = receivedBytes events := by
  rw [receivedBytes_append]
  cases event <;> first | (simp [receivedBytes]; done) | cases h

end Ghosts

section Steps

variable {ok : HshParserS → HshBufferS → NewBlock → Prop} {cfg : Config} {c c' d : Conn} {l : Label}
  {stack : List Frame}

theorem Served.idle (quiet : d.live = false ∨ d.request.state = .write ∨ d.request.buffer.buf = 0)
    (fresh : d.serial = 0 → d.request.tokens = [] ∧ receivedBytes d.events = []) : Served ok cfg d := by
  refine ⟨fun live state block => ?_, fresh⟩
  rcases quiet with h | h | h
  · exact absurd (h.symm.trans live) (by decide)
  · exact absurd h state
  · exact absurd h block

theorem Served.same (h : Served ok cfg c) (live : d.live = c.live) (request : d.request.parser = c.request.parser ∧
      d.request.buffer = c.request.buffer ∧ lines d.request.tokens = lines c.request.tokens)
    (state : d.request.state ≠ .write → c.request.state ≠ .write) (serial : d.serial = c.serial)
    (events : receivedBytes d.events = receivedBytes c.events)
    (tokens : c.serial = 0 → d.request.tokens = c.request.tokens) : Served ok cfg d := by
  obtain ⟨parser, buffer, shown⟩ := request
  refine ⟨fun alive notWrite block => ?_, fun zero => ?_⟩
  · rw [parser, buffer, serial, events, shown]
    exact h.parsed (live ▸ alive) (state notWrite) (buffer ▸ block)
  · rw [serial] at zero
    rw [tokens zero, events]
    exact h.fresh zero

theorem Served.enter (env : ReadEnv) (h : Served ok cfg c) (live : c.live = true) (state : c.request.state = .read) :
    1 ≤ (entered cfg env c).serial ∧ ∃ input tokens,
      ParserRun ok cfg.httpRequestBufSize cfg.httpMaxRequestBufSize input tokens (entered cfg env c).request.parser
        (entered cfg env c).request.buffer ∧
      ((entered cfg env c).serial = 1 →
        lines (entered cfg env c).request.tokens = lines tokens ∧ receivedBytes c.events = input) := by
  by_cases block : c.request.buffer.buf = 0
  · unfold entered initBuffer
    rw [if_pos block]
    refine ⟨Nat.le_add_left 1 _, [], [], .init c.memused env.bufBlk.2, fun first => ?_⟩
    obtain ⟨tokens, events⟩ := h.fresh (Nat.succ_injective first)
    exact ⟨congrArg lines tokens, events⟩
  · rw [entered_of_buf cfg env block]
    exact h.parsed live (by rw [state]; decide) block

theorem Served.exec (steady : Steady c) (buffered : Buffered c) (h : Served ok cfg c) {blk : Block} {token : HshTokenS}
    {parser : HshParserS} {buffer : HshBufferS} (hstack : c.stack = .parseBuffer :: stack)
    (hok : ok c.request.parser c.request.buffer blk.1)
    (hr : hshParserExec cfg.httpMaxRequestBufSize blk.1 c.request.parser c.request.buffer =
      some (token, parser, buffer)) :
    1 ≤ c.serial ∧ ∃ input tokens,
      ParserRun ok cfg.httpRequestBufSize cfg.httpMaxRequestBufSize input (tokens ++ emitted token) parser buffer ∧
      (c.serial = 1 → lines c.request.tokens = lines tokens ∧ receivedBytes c.events = input) := by
  have live := (steady.library hstack rfl).live
  have state := (steady.reading hstack (.inr rfl)).1
  have block : c.request.buffer.buf ≠ 0 := by
    refine (buffered.reading live state).resolve_left ?_
    rw [hstack]
    simpa using (not_library (steady.below_popped hstack)).1
  obtain ⟨serial, input, tokens, run, ghosts⟩ := h.parsed live (by rw [state]; decide) block
  exact ⟨serial, input, tokens, run.exec blk.2 hok hr, ghosts⟩

theorem Served.token (steady : Steady c) (buffered : Buffered c) (h : Served ok cfg c) {blk : Block} {token : HshTokenS}
    {parser : HshParserS} {buffer : HshBufferS} (hstack : c.stack = .parseBuffer :: stack)
    (hok : ok c.request.parser c.request.buffer blk.1)
    (hr : hshParserExec cfg.httpMaxRequestBufSize blk.1 c.request.parser c.request.buffer =
      some (token, parser, buffer)) (typed : token.type ≠ .none) (serial : d.serial = c.serial)
    (request : d.request.parser = parser ∧ d.request.buffer = buffer ∧ d.request.tokens = c.request.tokens ++ [token])
    (events : receivedBytes d.events = receivedBytes c.events) : Served ok cfg d := by
  obtain ⟨pos, input, tokens, run, ghosts⟩ := h.exec steady buffered hstack hok hr
  obtain ⟨hparser, hbuffer, htokens⟩ := request
  refine ⟨fun _ _ _ => ?_, fun zero => by omega⟩
  rw [hparser, hbuffer, htokens, serial, events]
  refine ⟨pos, input, _, run, fun first => ?_⟩
  obtain ⟨same, all⟩ := ghosts first
  exact ⟨lines_push typed same, all⟩

theorem Served.step (steady : Steady c) (held : Holding c) (buffered : Buffered c) (kept : Kept c)
    (h : Served ok cfg c) (protocol : Protocol c l) (calls : Calls ok c l) (move : Move cfg c l c') :
    Served ok cfg c' := by
  have readFrame : ∀ {stack}, c.stack = .readRequest :: stack → c.live = true ∧ c.request.state = .read :=
    fun hstack => ⟨(steady.library hstack rfl).live, (steady.reading hstack (.inl rfl)).1⟩
  have enters : ∀ {env stack}, c.stack = .readRequest :: stack → 1 ≤ (entered cfg env (popped stack c)).serial ∧
      ∃ input tokens, ParserRun ok cfg.httpRequestBufSize cfg.httpMaxRequestBufSize input tokens
        (entered cfg env (popped stack c)).request.parser (entered cfg env (popped stack c)).request.buffer ∧
      ((entered cfg env (popped stack c)).serial = 1 →
        lines (entered cfg env (popped stack c)).request.tokens = lines tokens ∧
          receivedBytes c.events = input) := by
    intro env stack hstack
    obtain ⟨live, state⟩ := readFrame hstack
    exact @Served.enter ok cfg (popped stack c) env ⟨h.parsed, h.fresh⟩ live state
  cases move with
  | wakeRead => exact h.same rfl ⟨rfl, rfl, rfl⟩ id rfl rfl fun _ => rfl
  | wakeWrite => exact h.same rfl ⟨rfl, rfl, rfl⟩ id rfl rfl fun _ => rfl
  | swallow => exact h
  | tick => exact h.same rfl ⟨rfl, rfl, rfl⟩ id rfl rfl fun _ => rfl
  | expire =>
    refine .idle (.inl rfl) fun zero => ?_
    obtain ⟨-, events⟩ := h.fresh zero
    exact ⟨rfl, (receivedBytes_silent rfl).trans events⟩
  | @readSkip env stack hstack =>
    obtain ⟨pos, input, tokens, run, ghosts⟩ := @enters env _ hstack
    refine ⟨fun _ _ _ => ⟨pos, input, tokens, run, fun first => ?_⟩, fun zero => ?_⟩
    · rw [push_events, entered_events]
      exact ghosts first
    · exact absurd (zero.symm.trans_ge pos) (by decide)
  | @readEof env stack r hstack =>
    obtain ⟨pos, -⟩ := @enters env _ hstack
    exact .idle (.inl rfl) fun zero => absurd (zero.symm.trans_ge pos) (by decide)
  | @readMore env stack r hstack requires hr =>
    obtain ⟨pos, input, tokens, run, ghosts⟩ := @enters env _ hstack
    have blocks := readCalls_blockOk env
    refine ⟨fun _ _ _ => ⟨pos, _, tokens, run.read blocks hr, fun first => ?_⟩, fun zero => ?_⟩
    · obtain ⟨same, all⟩ := ghosts first
      refine ⟨same, ?_⟩
      rw [push_events, filled, log_events, entered_events, receivedBytes_append, receivedBytes_read]
      exact congrArg (· ++ _) all
    · exact absurd (zero.symm.trans_ge pos) (by decide)
  | @execNone blk _ _ _ _ _ hstack hr type =>
    obtain ⟨pos, input, tokens, run, ghosts⟩ := h.exec steady buffered hstack calls hr
    refine ⟨fun _ _ _ => ⟨pos, input, _, run, fun first => ?_⟩, fun zero => absurd (zero.symm.trans_ge pos) (by decide)⟩
    obtain ⟨same, all⟩ := ghosts first
    refine ⟨?_, all⟩
    rw [emitted, if_pos type, List.append_nil]
    exact same
  | execErr hstack hr type =>
    obtain ⟨-, rfl | left, -⟩ := kept.exec steady buffered hstack hr
    · cases type
    · exact absurd type left.2.1
  | execLine hstack hr type =>
    exact h.token steady buffered hstack calls hr type.1 rfl ⟨rfl, rfl, rfl⟩ (receivedBytes_silent rfl)
  | execHead hstack hr type =>
    refine h.token steady buffered hstack calls hr (by rw [type]; decide) rfl ⟨rfl, rfl, rfl⟩ ?_
    exact (receivedBytes_silent rfl).trans (receivedBytes_silent rfl)
  | execSmall hstack hr type =>
    refine h.token steady buffered hstack calls hr (by rw [type]; decide) rfl ⟨rfl, rfl, rfl⟩ ?_
    exact (receivedBytes_silent rfl).trans (receivedBytes_silent rfl)
  | execFinal hstack hr type =>
    refine h.token steady buffered hstack calls hr (by rw [type]; decide) rfl ⟨rfl, rfl, rfl⟩ ?_
    exact (receivedBytes_silent rfl).trans (receivedBytes_silent rfl)
  | execPiece hstack hr type =>
    refine h.token steady buffered hstack calls hr (by rw [type]; decide) rfl ⟨rfl, rfl, rfl⟩ ?_
    exact (receivedBytes_silent rfl).trans (receivedBytes_silent rfl)
  | writeMore hstack =>
    exact h.same rfl ⟨rfl, rfl, rfl⟩ id rfl (receivedBytes_silent rfl) fun _ => rfl
  | writeErr =>
    refine .idle (.inl rfl) fun zero => ?_
    obtain ⟨-, events⟩ := h.fresh zero
    exact ⟨rfl, (receivedBytes_silent rfl).trans ((receivedBytes_silent rfl).trans events)⟩
  | writeClose =>
    refine .idle (.inl rfl) fun zero => ?_
    obtain ⟨-, events⟩ := h.fresh zero
    exact ⟨rfl, (receivedBytes_silent rfl).trans ((receivedBytes_silent rfl).trans ((receivedBytes_silent rfl).trans events))⟩
  | writeNext =>
    refine .idle (.inr (.inr (finished_buf httpKeepAliveTimeout _))) fun zero => ?_
    obtain ⟨tokens, events⟩ := h.fresh zero
    exact ⟨tokens, (receivedBytes_silent rfl).trans ((receivedBytes_silent rfl).trans ((receivedBytes_silent rfl).trans events))⟩
  | writeChunk =>
    refine .idle (.inr (.inr (finished_buf httpRequestTimeout _))) fun zero => ?_
    obtain ⟨tokens, events⟩ := h.fresh zero
    exact ⟨tokens, (receivedBytes_silent rfl).trans ((receivedBytes_silent rfl).trans events)⟩
  | respond user live hcall hf =>
    refine .idle (.inr (.inl rfl)) fun zero => ?_
    obtain ⟨tokens, events⟩ := h.fresh zero
    refine ⟨(responds_responded hcall hf).tokens_eq.trans tokens, ?_⟩
    exact (receivedBytes_silent rfl).trans ((receivedBytes_silent rfl).trans events)
  | readChunk =>
    have state := held.1 (protocol.1 _ rfl)
    exact h.same rfl ⟨rfl, rfl, rfl⟩ (fun _ => by rw [state]; decide) rfl (receivedBytes_silent rfl) fun _ => rfl
  | freeBuffer => exact .idle (.inr (.inr (finished_buf c.request.timeout _))) h.fresh
  | @connection directive =>
    have tokens : (hsRequestSetKeepAliveFlag c.request directive).tokens = c.request.tokens := by
      obtain ⟨flags, hflags⟩ := @setKeepAlive_flags c.request directive
      rw [hflags]
    exact h.same rfl ⟨by simp, by simp, congrArg lines tokens⟩ (by simp) rfl rfl fun _ => tokens
  | callbackReturn => exact h.same rfl ⟨rfl, rfl, rfl⟩ id rfl rfl fun _ => rfl
  | @finalChunk serial _ hstack =>
    obtain ⟨live, -, state, block, -, -⟩ := kept.final _ (by rw [hstack]; exact List.mem_cons_self)
    obtain ⟨pos, -⟩ := h.parsed live state block
    refine h.same rfl ⟨rfl, rfl, ?_⟩ (fun _ => state) rfl ((receivedBytes_silent rfl).trans (receivedBytes_silent rfl))
      fun zero => absurd (zero.symm.trans_ge pos) (by decide)
    change lines (c.request.tokens ++ [{ type := .body }]) = lines c.request.tokens
    rw [lines_append]
    exact List.append_nil _

theorem served_accepted (h : Accepted c) : Served ok cfg c := by
  obtain ⟨memused, rfl | ⟨respond, request, memused', hresp, rfl⟩⟩ := accepted_cases h
  · exact .idle (.inr (.inr rfl)) fun _ => ⟨rfl, rfl⟩
  · exact .idle (.inr (.inl rfl)) fun _ => ⟨(hsRequestRespond_responded hresp).tokens_eq, rfl⟩

/-- The invariants of a run in which user code keeps to the protocol. -/
structure Session (ok : HshParserS → HshBufferS → NewBlock → Prop) (cfg : Config) (c : Conn) : Prop where
  steady : Steady c
  held : Holding c
  buffered : Buffered c
  kept : Kept c
  served : Served ok cfg c

theorem session_accepted (h : Accepted c) : Session ok cfg c :=
  ⟨steady_accepted h, holding_accepted h, buffered_accepted h, kept_accepted h, served_accepted h⟩

theorem Session.step (h : Session ok cfg c) (protocol : Protocol c l) (calls : Calls ok c l) (move : Move cfg c l c') :
    Session ok cfg c' :=
  ⟨h.steady.step move, h.held.step h.steady move, h.buffered.step h.steady h.held protocol.1 move,
    h.kept.step h.steady h.held h.buffered protocol.1 protocol.2 move,
    h.served.step h.steady h.held h.buffered h.kept protocol calls move⟩

end Steps

end HttpServer.ServedRequests
