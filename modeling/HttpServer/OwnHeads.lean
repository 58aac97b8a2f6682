import HttpServer.GivenPieces
import HttpServer.LineBreaks

set_option autoImplicit false

/-!
# The head of each request

Whenever user code holds a request, be it the first one of its connection or a later one, its head is at the front
of the buffer, and the tokens behind those of earlier requests are the parts of this head.
-/
namespace HttpServer.OwnHeads
open ParserGrammar HttpServer.Parser ReadBuffer RequestUtil Respond ParserRuns HeadMachine HeadRuns HeadSoundness HeadTexts
  RequestRuns KeptHeads ConnectionSteps ConnectionInvariant Connection HeldRequests AnsweredRequests ServedRequests
  FirstRequests GivenPieces ParserCalls

section Parsers

variable {initial max : ℤ} {input w : List UInt8} {tokens : List HshTokenS} {parser : HshParserS}
  {buffer : HshBufferS}

/-- The parser is not called behind a head without a body. -/
def GoesOn (parser : HshParserS) (_ : HshBufferS) (_ : NewBlock) : Prop := phase parser.state ≠ .headersDone

instance (parser : HshParserS) (buffer : HshBufferS) (blk : NewBlock) : Decidable (GoesOn parser buffer blk) :=
  inferInstanceAs (Decidable (_ ≠ _))

theorem run_past (nonneg : 0 ≤ initial) (le : initial ≤ max) (max_lt : max < 2147483648)
    (run : ParserRun GoesOn initial max input tokens parser buffer) : Place max input tokens parser buffer ∧
      ((∃ token ∈ tokens, token.type = .headersDone ∨ token.type = .body) → ∃ w, Past max input tokens parser buffer w) := by
  induction run with
  | init memused hblk =>
    refine ⟨place_init hblk nonneg le max_lt, ?_⟩
    rintro ⟨token, mem, -⟩
    cases mem
  | read _ hblk hr ih =>
    obtain ⟨place, past⟩ := ih
    refine ⟨place.read (by omega) max_lt hblk hr, fun begun => ?_⟩
    obtain ⟨w, behind⟩ := past begun
    exact ⟨w, behind.read (by omega) max_lt hblk hr⟩
  | @exec _ tokens _ _ _ _ _ token _ hblk goesOn hr ih =>
    obtain ⟨place, past⟩ := ih
    obtain ⟨place', -, ended⟩ := place.exec hblk max_lt goesOn hr
    refine ⟨place', ?_⟩
    rintro ⟨found, mem, typed⟩
    rcases List.mem_append.1 mem with old | new
    · obtain ⟨w, behind⟩ := past ⟨found, old, typed⟩
      exact ⟨w, (behind.exec goesOn hr).1⟩
    · by_cases none : token.type = .none
      · rw [emitted, if_pos none] at new
        cases new
      · rw [emitted_of_type none, List.mem_singleton] at new
        exact ended (new ▸ typed)

theorem Past.shapes (h : Past max input tokens parser buffer w) : (lines tokens).map shape = headShapes w := by
  obtain ⟨hd, breaks, run, -, shapes⟩ := h.behind.accepts.run
  rw [headShapes_of_run run]
  exact shapes

theorem ended_mem (accepted : AcceptedHead w) (shapes : (lines tokens).map shape = headShapes w) :
    ∃ token ∈ lines tokens, token.type = .headersDone := by
  obtain ⟨front, last⟩ := accepted.last
  have mem : (HshTokenE.headersDone, (0 : ℤ), (0 : ℤ)) ∈ (lines tokens).map shape := by
    rw [shapes, last]
    exact List.mem_append_right _ List.mem_cons_self
  obtain ⟨token, mem, same⟩ := List.mem_map.1 mem
  exact ⟨token, mem, congrArg Prod.fst same⟩

def shown (buffer : HshBufferS) (token : HshTokenS) : HshTokenE × List UInt8 := (token.type, tokenText buffer token)

def headTexts (w : List UInt8) : List (HshTokenE × List UInt8) := (headShapes w).map fun sh => (sh.1, text w sh)

theorem Past.texts (h : Past max input tokens parser buffer w) : (lines tokens).map (shown buffer) = headTexts w := by
  have shapes := Past.shapes h
  unfold headTexts
  rw [← shapes, List.map_map]
  refine List.map_congr_left fun token mem => ?_
  have inside : Inside w (shape token) := h.accepted.inside (shapes ▸ List.mem_map_of_mem mem)
  exact Prod.ext rfl (LineBreaks.slice_text h.front.text inside)

end Parsers

section First

variable {cfg : Config} {c c' d : Conn} {l : Label} {stack : List Frame} {tokens : List HshTokenS}

def Begun (tokens : List HshTokenS) : Prop :=
  ∃ w head rest, AcceptedHead w ∧ head.map shape = headShapes w ∧ lines tokens = head ++ rest

theorem Begun.append (h : Begun tokens) (more : List HshTokenS) : Begun (tokens ++ more) := by
  obtain ⟨w, head, rest, accepted, shapes, eq⟩ := h
  exact ⟨w, head, rest ++ lines more, accepted, shapes, by rw [lines_append, eq, List.append_assoc]⟩

/-- A connection without a request, or whose first request is read; later its tokens begin with the first head. -/
inductive Opening (c : Conn) : Prop
  | dead (live : c.live = false)
  | none (serial : c.serial = 0)
  | reading (serial : c.serial = 1) (state : c.request.state = .read) (block : c.request.buffer.buf ≠ 0)
  | begun (h : Begun c.request.tokens)

theorem first_begun (session : Session GoesOn cfg c) (giving : Giving GoesOn cfg c) (live : c.live = true)
    (serial : c.serial = 1) (state : c.request.state = .nop) (block : c.request.buffer.buf ≠ 0) : Begun c.request.tokens := by
  have notWrite : c.request.state ≠ .write := by rw [state]; decide
  obtain ⟨tokens, pieces, standing, -⟩ := giving.stands live notWrite block
  obtain ⟨-, past⟩ := run_past cfg.initial_pos.le cfg.initial_le cfg.max_lt standing.fed.run
  obtain ⟨w, behind⟩ := past (standing.begun state)
  obtain ⟨old, own⟩ := standing.behind
  obtain ⟨token, mem, done⟩ := ended_mem behind.accepted (Past.shapes behind)
  -- the run of the first request has all lines of the array
  obtain ⟨-, input, tokens₁, run, first⟩ := session.served.parsed live notWrite block
  obtain ⟨same, -⟩ := first serial
  have mem₁ : token ∈ lines tokens₁ := by
    rw [← same, own]
    exact List.mem_append_right _ mem
  obtain ⟨-, past₁⟩ := run_past cfg.initial_pos.le cfg.initial_le cfg.max_lt run
  obtain ⟨w₁, behind₁⟩ := past₁ ⟨token, (List.mem_filter.1 mem₁).1, .inl done⟩
  exact ⟨w₁, lines tokens₁, [], behind₁.accepted, Past.shapes behind₁, by rw [same, List.append_nil]⟩

theorem Opening.goes (h : Opening c) (live : d.live = c.live) (serial : d.serial = c.serial)
    (tokens : ∃ more, d.request.tokens = c.request.tokens ++ more)
    (first : c.request.state = .read → c.request.buffer.buf ≠ 0 → d.serial = 1 →
      d.request.state = .read ∧ d.request.buffer.buf ≠ 0 ∨ Begun d.request.tokens) : Opening d := by
  cases h with
  | dead dead => exact .dead (live.trans dead)
  | none zero => exact .none (serial.trans zero)
  | reading one state block =>
    rcases first state block (serial.trans one) with ⟨state', block'⟩ | begun
    · exact .reading (serial.trans one) state' block'
    · exact .begun begun
  | begun begun =>
    obtain ⟨more, eq⟩ := tokens
    exact .begun (eq ▸ begun.append more)

theorem Opening.enter (h : Opening c) (env : ReadEnv) : Opening (entered cfg env (popped stack c)) := by
  by_cases block : c.request.buffer.buf = 0
  · unfold entered initBuffer
    rw [if_pos (show (popped stack c).request.buffer.buf = 0 from block)]
    cases h with
    | dead dead => exact .dead dead
    | none zero => exact .reading (congrArg (· + 1) zero) rfl env.bufBlk.2.1.ne'
    | reading _ _ some_block => exact absurd block some_block
    | begun begun => exact .begun begun
  · rw [entered_of_buf cfg env (c := popped stack c) block]
    exact h.goes rfl rfl ⟨[], (List.append_nil _).symm⟩ fun _ _ _ => .inl ⟨rfl, block⟩

theorem Opening.step (session : Session GoesOn cfg c) (session' : Session GoesOn cfg c') (giving' : Giving GoesOn cfg c')
    (h : Opening c) (asked : Asked c l) (move : Move cfg c l c') : Opening c' := by
  have same : ∀ {request : HttpRequestS}, request.tokens = c.request.tokens →
      ∃ more, request.tokens = c.request.tokens ++ more := fun eq => ⟨[], eq.trans (List.append_nil _).symm⟩
  have parses : ∀ {blk : Block} {stack token parser buffer}, c.stack = .parseBuffer :: stack →
      hshParserExec cfg.httpMaxRequestBufSize blk.1 c.request.parser c.request.buffer = some (token, parser, buffer) →
      c.live = true ∧ (c.request.buffer.buf ≠ 0 → buffer.buf ≠ 0) :=
    fun {blk} _ _ _ _ hstack hr => ⟨(session.steady.library hstack rfl).live, hshParserExec_buf blk.2 hr⟩
  have writes : ∀ {stack}, c.stack = .writeSocket :: stack → c.request.state ≠ .read := by
    intro stack hstack
    rw [(session.steady.writing hstack).1]
    decide
  have users : ∀ {call}, l = .call call → c.request.state ≠ .read := by
    intro call hl
    rw [session.held.1 (asked call hl)]
    decide
  cases move with
  | wakeRead | wakeWrite | swallow | tick => exact h.goes rfl rfl (same rfl) fun state block _ => .inl ⟨state, block⟩
  | expire | readEof | writeErr | writeClose => exact .dead rfl
  | readSkip => exact (h.enter _).goes rfl rfl ⟨[], (List.append_nil _).symm⟩ fun state block _ => .inl ⟨state, block⟩
  | @readMore env stack r hstack requires hr =>
    have blocks := readCalls_blockOk env
    exact (h.enter env).goes rfl rfl ⟨[], (List.append_nil _).symm⟩ fun state block _ =>
      .inl ⟨state, (hsReadIntoBuffer_block blocks block hr).1⟩
  | execNone hstack hr =>
    exact h.goes rfl rfl (same rfl) fun state block _ => .inl ⟨state, (parses hstack hr).2 block⟩
  | execErr hstack hr type =>
    obtain ⟨-, rfl | left, -⟩ := session.kept.exec session.steady session.buffered hstack hr
    · cases type
    · exact absurd type left.2.1
  | execLine hstack hr =>
    exact h.goes rfl rfl ⟨_, rfl⟩ fun state block _ => .inl ⟨state, (parses hstack hr).2 block⟩
  | execHead hstack hr | execSmall hstack hr | execFinal hstack hr | execPiece hstack hr =>
    exact h.goes rfl rfl ⟨_, rfl⟩ fun _ block serial =>
      .inr (first_begun session' giving' (parses hstack hr).1 serial rfl ((parses hstack hr).2 block))
  | writeMore hstack => exact h.goes rfl rfl (same rfl) fun state => absurd state (writes hstack)
  | writeNext hstack => exact h.goes rfl rfl (same rfl) fun state => absurd state (writes hstack)
  | writeChunk hstack => exact h.goes rfl rfl (same rfl) fun state => absurd state (writes hstack)
  | respond _ _ hcall hf =>
    exact h.goes rfl rfl (same (responds_responded hcall hf).tokens_eq) fun state => absurd state (users rfl)
  | readChunk => exact h.goes rfl rfl (same rfl) fun state => absurd state (users rfl)
  | freeBuffer => exact h.goes rfl rfl (same rfl) fun state => absurd state (users rfl)
  | @connection directive =>
    obtain ⟨flags, eq⟩ := @setKeepAlive_flags c.request directive
    refine h.goes rfl rfl (same ?_) fun state => absurd state (users rfl)
    rw [eq]
  | callbackReturn => exact h.goes rfl rfl (same rfl) fun state block _ => .inl ⟨state, block⟩
  | finalChunk _ live =>
    exact h.goes rfl rfl ⟨_, rfl⟩ fun _ block serial => .inr (first_begun session' giving' live serial rfl block)

theorem opening_accepted (h : Accepted c) : Opening c := by
  obtain ⟨memused, rfl | ⟨respond, request, memused', hresp, rfl⟩⟩ := accepted_cases h <;> exact .none rfl

theorem begun_reached (run : Runs.Reached (Connection.step cfg) Accepted (Keeping GoesOn) c) (live : c.live = true)
    (held : outstanding c.events = true) (block : c.request.buffer.buf ≠ 0) : Begun c.request.tokens := by
  obtain ⟨⟨session, giving⟩, opening⟩ := run.invariant
    (I := fun c => (Session GoesOn cfg c ∧ Giving GoesOn cfg c) ∧ Opening c)
    (fun c h => ⟨⟨session_accepted h, giving_accepted h⟩, opening_accepted h⟩)
    fun c l c' ⟨⟨session, giving⟩, opening⟩ ⟨protocol, keeps, calls⟩ hs => by
      have move := step_move hs
      have session' := session.step protocol calls move
      have giving' := giving.step session.steady session.held session.buffered session.kept protocol.1 keeps calls move
      exact ⟨⟨session', giving'⟩, opening.step session session' giving' protocol.1 move⟩
  have state := session.held.1 held
  cases opening with
  | dead dead => exact absurd (dead.symm.trans live) (by decide)
  | none zero =>
    have serial := (session.served.parsed live (by rw [state]; decide) block).1
    omega
  | reading _ read => exact absurd (state.symm.trans read) (by decide)
  | begun begun => exact begun

end First

section Runs

variable {cfg : Config} {c : Conn}

/-- A request that user code holds is behind its head, and the last tokens are its own. -/
theorem held_behind (run : Runs.Reached (Connection.step cfg) Accepted (Keeping GoesOn) c) (live : c.live = true)
    (held : outstanding c.events = true) (block : c.request.buffer.buf ≠ 0) : ∃ w tokens old,
      Past cfg.httpMaxRequestBufSize (arriving c.events) tokens c.request.parser c.request.buffer w ∧
      lines c.request.tokens = old ++ lines tokens := by
  obtain ⟨session, giving⟩ := giving_reached run
  have state := session.held.1 held
  obtain ⟨tokens, pieces, standing, -⟩ := giving.stands live (by rw [state]; decide) block
  obtain ⟨-, past⟩ := run_past cfg.initial_pos.le cfg.initial_le cfg.max_lt standing.fed.run
  obtain ⟨w, behind⟩ := past (standing.begun state)
  obtain ⟨old, own⟩ := standing.behind
  exact ⟨w, tokens, old, behind, own⟩

/-- In every run, a request that user code holds has its own head at the front of the buffer; the tokens behind those
    of earlier requests are the parts of this head. -/
theorem own_head (run : Runs.Reached (Connection.step cfg) Accepted (Keeping GoesOn) c) (live : c.live = true)
    (held : outstanding c.events = true) (block : c.request.buffer.buf ≠ 0) : ∃ w, AcceptedHead w ∧
      w <+: arriving c.events ∧ Front cfg.httpMaxRequestBufSize w c.request.buffer ∧
      ∃ old own, lines c.request.tokens = old ++ own ∧ own.map (shown c.request.buffer) = headTexts w := by
  obtain ⟨w, tokens, old, past, own⟩ := held_behind run live held block
  exact ⟨w, past.accepted, past.behind.prefix_eq, past.front, old, lines tokens, own, Past.texts past⟩

def twice : List Label :=
  reads (ascii "GET / HTTP/1.1\r\nA: b\r\n\r\n") :: execs 6 ++ [.call (.respond {} sessionEnv), .write ⟨98, false⟩,
    reads (ascii "POST /second HTTP/1.1\r\nC: d\r\n\r\n")] ++ execs 6

/-- The second request comes behind the six tokens of the first one. -/
theorem own_head_second : ∃ c, Runs.Reached (Connection.step {}) Accepted (Keeping GoesOn) c ∧
    ((lines c.request.tokens).drop 6).map (shown c.request.buffer) = [(.method, ascii "POST"), (.target, ascii "/second"),
      (.version, ascii "HTTP/1.1"), (.headerKey, ascii "C"), (.headerValue, ascii "d"), (.headersDone, [])] ∧
    ∃ w, AcceptedHead w ∧ w <+: arriving c.events ∧ Front ({} : Config).httpMaxRequestBufSize w c.request.buffer ∧
      ∃ old own, lines c.request.tokens = old ++ own ∧ own.map (shown c.request.buffer) = headTexts w := by
  have run : ((Runs.exec (Runs.guarded (Connection.step {}) (Keeping GoesOn)) twice accepted).any fun c =>
      decide (((lines c.request.tokens).drop 6).map (shown c.request.buffer) = [(.method, ascii "POST"),
        (.target, ascii "/second"), (.version, ascii "HTTP/1.1"), (.headerKey, ascii "C"), (.headerValue, ascii "d"),
        (.headersDone, [])] ∧ c.live = true ∧ outstanding c.events = true ∧ c.request.buffer.buf ≠ 0)) = true := by
    decide +kernel
  obtain ⟨c, hc, hs⟩ := (Option.any_eq_true _ _).1 run
  obtain ⟨own, live, held, block⟩ := of_decide_eq_true hs
  have reached : Runs.Reached (Connection.step {}) Accepted (Keeping GoesOn) c := .guarded (.init accepted_accepted) hc
  exact ⟨c, reached, own, own_head reached live held block⟩

end Runs

end HttpServer.OwnHeads
