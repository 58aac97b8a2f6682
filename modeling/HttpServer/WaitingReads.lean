import HttpServer.AnsweredRequests
import HttpServer.ParseErrors

set_option autoImplicit false

/-!
# Waiting for input

The socket is read when the cursor has come to the end of the received bytes, and the parser runs when
the buffer has been read into since it last found no token. A connection that waits needs both to
agree.
-/
namespace HttpServer.WaitingReads
open MachineInt Scanner ParserTables ParserGrammar HttpServer.Parser ReadBuffer ParserInvariant HeadMachine BodyPhases
  ParserCalls Respond Connection ConnectionSteps ConnectionInvariant HeldRequests AnsweredRequests ParseErrors

section Calls

variable {max : ℤ} {blk : NewBlock} {s t : Exec} {parser parser' : HshParserS} {buffer buffer' : HshBufferS}
  {token : HshTokenS}

/-- The error action runs on the way to the error state only. -/
theorem phaseStep_error {ph : Phase} {c : ℕ} (h : .error ∈ (phaseStep ph c).2) :
    (phaseStep ph c).1 = .error := by
  cases ph <;> simp only [phaseStep, keyStep, phaseError] at h ⊢ <;> (repeat' split at h) <;> simp_all

theorem bodyDataActions_noError : ∀ as ∈ bodyDataActions, .error ∉ as := by decide

theorem error_target (lt : s.cs < 98) (alive : s.cs ≠ hshHttpError) {c : UInt8}
    (h : .error ∈ transActions s.cs c.toNat) : transTarg s.cs c.toNat = hshHttpError := by
  have hc : c.toNat < 256 := c.toNat_lt
  by_cases data : phase s.cs = .bodyData
  · exact absurd h (bodyDataActions_noError _ (bodyData_agree lt hc data).2)
  · obtain ⟨htarg, pre, hpre, hacts⟩ := tables_agree lt hc alive data
    refine (phase_error (transTarg_lt _ _)).1 ?_
    rw [htarg]
    refine phaseStep_error ?_
    rw [hacts] at h
    refine (List.mem_append.1 h).resolve_left ?_
    rcases hpre with rfl | ⟨-, rfl | rfl⟩ <;> decide

/-- Whenever a byte is about to be examined, and between its actions. -/
structure Scanning (s : Exec) : Prop where
  state_lt : s.cs < 98
  alive : s.cs ≠ hshHttpError
  tokenReady : httpFlagCheck s.parser.flags flagTokenReady = false
  behind : s.parser.sequenceId ≠ s.buffer.sequenceId
  pe_eq : s.pe = s.buffer.buf + s.buffer.length
  typed : s.parser.token.type ≠ .none

/-- When the loop is left: there is a token and the parser is still behind, or all was consumed. -/
structure Scanned (s : Exec) : Prop where
  alive : s.cs ≠ hshHttpError
  left : httpFlagCheck s.parser.flags flagTokenReady = true ∧ s.parser.sequenceId ≠ s.buffer.sequenceId ∨
    s.p = s.buffer.buf + s.buffer.length
  typed : s.parser.token.type ≠ .none

/-- The condition on an action: it does not break out of the loop without a token. -/
def Keeps (max : ℤ) (a : Action) (s : Exec) : Prop := WithinLimit a s ∧ (a = .chunkRead → ¬ Compacts max s)

instance (a : Action) (s : Exec) : Decidable (Keeps max a s) := inferInstanceAs (Decidable (_ ∧ (_ → _)))

theorem runAction_scanning {a : Action} {c : UInt8} (h : Scanning s) (other : a ≠ .error) (keeps : Keeps max a s) :
    (runAction max blk c a s).Sat True Scanning Scanned := by
  obtain ⟨lt, alive, quiet, behind, pe, typed⟩ := h
  cases a with
  | error => exact absurd rfl other
  | method => exact ⟨lt, alive, quiet, behind, pe, (by decide : HshTokenE.method ≠ .none)⟩
  | target => exact ⟨lt, alive, quiet, behind, pe, (by decide : HshTokenE.target ≠ .none)⟩
  | version => exact ⟨lt, alive, quiet, behind, pe, (by decide : HshTokenE.version ≠ .none)⟩
  | headerKey => exact ⟨lt, alive, quiet, behind, pe, (by decide : HshTokenE.headerKey ≠ .none)⟩
  | headerValue => exact ⟨lt, alive, quiet, behind, pe, (by decide : HshTokenE.headerValue ≠ .none)⟩
  | body => exact ⟨lt, alive, quiet, behind, pe, (by decide : HshTokenE.body ≠ .none)⟩
  | emitToken => exact ⟨alive, .inl ⟨tokenReady_set _, behind⟩, typed⟩
  | chunkSize =>
    obtain ⟨n, hn⟩ := chunkSize_cases c s
    change (Flow.fall (chunkSize c s)).Sat _ _ _
    rw [hn]
    exact ⟨lt, alive, quiet, behind, pe, typed⟩
  | transferEncoding => exact ⟨lt, alive, (tokenReady_set_chunked _).trans quiet, behind, pe, typed⟩
  | incCount =>
    have within := keeps.1 rfl
    change (incCount s).Sat _ _ _
    unfold incCount
    dsimp only
    rw [if_neg (not_lt.2 within)]
    exact ⟨lt, alive, quiet, behind, pe, typed⟩
  | doneHeaders =>
    have typed : HshTokenE.headersDone ≠ .none := by decide
    change (doneHeaders max blk s).Sat _ _ _
    unfold doneHeaders
    dsimp only
    split
    · exact ⟨(by decide : hshHttpEnChunkedBody ≠ hshHttpError), .inl ⟨tokenReady_set _, behind⟩, typed⟩
    split
    · exact ⟨alive, .inl ⟨tokenReady_set _, behind⟩, typed⟩
    split
    · exact ⟨(by decide : hshHttpEnLargeBody ≠ hshHttpError), .inl ⟨tokenReady_set _, behind⟩, typed⟩
    refine ⟨(by decide : hshHttpEnSmallBody ≠ hshHttpError), .inl ⟨tokenReady_set _, ?_⟩, typed⟩
    split <;> exact behind
  | chunkRead =>
    have whole := keeps.2 rfl
    change (chunkRead max s).Sat _ _ _
    unfold chunkRead
    dsimp only
    split
    · exact ⟨(by decide : hshHttpEnChunkEnd ≠ hshHttpError), .inl ⟨tokenReady_set _, behind⟩, typed⟩
    rename_i part
    split
    · rename_i full
      exact absurd ⟨not_le.1 part, full⟩ whole
    · exact ⟨lt, alive, quiet, behind, pe, typed⟩
  | endStream =>
    exact ⟨alive, .inl ⟨(tokenReady_set_done _).trans (tokenReady_set _), behind⟩,
      (by decide : HshTokenE.body ≠ .none)⟩
  | smallBodyRead =>
    have here : s.pe - 1 + 1 = s.buffer.buf + s.buffer.length := by omega
    change (smallBodyRead s).Sat _ _ _
    unfold smallBodyRead
    dsimp only
    split <;> exact ⟨alive, .inr here, typed⟩
  | largeBodyRead =>
    change (largeBodyRead s).Sat _ _ _
    unfold largeBodyRead
    dsimp only
    split
    · exact ⟨alive, .inl ⟨(tokenReady_set_done _).trans (tokenReady_set _), behind⟩, typed⟩
    · refine ⟨alive, .inr ?_, typed⟩
      change s.buffer.buf + s.buffer.afterHeadersIndex - 1 + 1 = s.buffer.buf + s.buffer.afterHeadersIndex
      ring
  | _ => exact ⟨lt, alive, quiet, behind, pe, typed⟩

theorem step_scanning {c : UInt8} (h : Scanning s) (good : GoodByte c s)
    (acts : (machine max blk).ActsOk (fun a _ s => Keeps max a s) c ((machine max blk).trans c s).2
      ((machine max blk).trans c s).1) : ((machine max blk).step c s).Sat True Scanning Scanned := by
  have start : Scanning { s with cs := transTarg s.cs c.toNat } :=
    ⟨transTarg_lt _ _, good, h.tokenReady, h.behind, h.pe_eq, h.typed⟩
  refine Machine.step_sat (P := Scanning) _ ?_ fun t ht => ?_
  · refine Machine.runActs_sat _ (fun a ha t ht keeps => ?_) start acts
    refine runAction_scanning ht ?_ keeps
    rintro rfl
    exact good (error_target h.state_lt h.alive ha)
  · change (if t.cs = hshHttpError then Flow.out t else .fall { t with p := t.p + 1 }).Sat _ _ _
    rw [if_neg ht.alive]
    exact ⟨ht.state_lt, ht.alive, ht.tokenReady, ht.behind, ht.pe_eq, ht.typed⟩

/-- The condition on a call: it accepts every byte, and no chunk is moved in the buffer. -/
def Flows (max : ℤ) (blk : NewBlock) (parser : HshParserS) (buffer : HshBufferS) : Prop :=
  ExecOk GoodByte (fun a _ s => Keeps max a s) max blk parser buffer

instance : Decidable (Flows max blk parser buffer) :=
  inferInstanceAs (Decidable (ExecOk GoodByte (fun a _ s => Keeps max a s) max blk parser buffer))

/-- A parser outside its error state, which has found no token in the buffer as it is only if it has
    come to its end. -/
structure InStep (parser : HshParserS) (buffer : HshBufferS) : Prop where
  alive : parser.state ≠ hshHttpError
  typed : parser.token.type ≠ .none
  idle : parser.sequenceId = buffer.sequenceId →
    httpFlagCheck parser.flags flagDone = true ∨ buffer.length ≤ buffer.index

/-- A call that finds no token consumes all of the buffer. -/
theorem hshParserExec_inStep (rest : CallRest parser buffer) (hblk : BlockOk blk) (inStep : InStep parser buffer)
    (ok : Flows max blk parser buffer)
    (hr : hshParserExec max blk parser buffer = some (token, parser', buffer')) :
    InStep parser' buffer' ∧
      (token.type = .none → httpFlagCheck parser'.flags flagDone = true ∨ buffer'.length ≤ buffer'.index) := by
  by_cases idle : httpFlagCheck parser.flags flagDone = true ∨ parser.sequenceId = buffer.sequenceId
  · unfold hshParserExec at hr
    rw [if_pos idle] at hr
    cases hr
    exact ⟨inStep, fun _ => idle.elim .inl inStep.idle⟩
  have rest' := (hshParserExec_call rest hblk hr).1
  have start : Scanning (enter parser buffer) :=
    ⟨rest.exit.state_lt, inStep.alive, rest.tokenReady, fun heq => idle (.inr heq), rfl, inStep.typed⟩
  have stop : ∀ s, Scanning s → s.p = s.pe ∨ s.cs = hshHttpError → Scanned s := by
    intro s hs ended
    exact ⟨hs.alive, .inr ((ended.resolve_right hs.alive).trans hs.pe_eq), hs.typed⟩
  rcases hshParserExec_rule start stop (fun c s hs _ _ good acts => step_scanning hs good acts) ok hr with
    ⟨idle', -⟩ | ⟨t, scanned, heq⟩
  · exact absurd idle' idle
  -- the cursor is at the end of the received bytes, as an index of the buffer
  have consumed : ∀ length, t.p = t.buffer.buf + length → length = buffer'.length →
      length ≤ wrap32 (t.p - t.buffer.buf) := by
    intro length hp hlen
    have ge := rest'.exit.length_ge
    have lt := rest'.exit.length_lt
    rw [hp, add_sub_cancel_left, wrap32_eq (hlen ▸ ge) (hlen ▸ lt)]
  rcases leave_cases t with ⟨ready, hl⟩ | ⟨quiet, hl⟩
  · rw [hl] at heq
    cases heq
    refine ⟨⟨scanned.alive, scanned.typed, fun same => ?_⟩, fun none => absurd none scanned.typed⟩
    rcases scanned.left with ⟨-, behind⟩ | hp
    · exact absurd same behind
    · exact .inr (consumed _ hp rfl)
  · rw [hl] at heq
    cases heq
    have hp := scanned.left.resolve_left fun h => absurd (quiet.symm.trans h.1) (by decide)
    exact ⟨⟨scanned.alive, scanned.typed, fun _ => .inr (consumed _ hp rfl)⟩, fun _ => .inr (consumed _ hp rfl)⟩

end Calls

section Runs

variable {cfg : Config} {c c' : Conn} {l : Label} {stack : List Frame}

/-- The calls of the parser flow, and a read does not bring the eight bits of the sequence number
    round to the number at which the parser last found no token. -/
def InFlow (cfg : Config) (c : Conn) : Label → Prop
  | .exec blk _ => Flows cfg.httpMaxRequestBufSize blk.1 c.request.parser c.request.buffer
  | .read env =>
    hsBufferRequiresRead (entered cfg env c).request.buffer = true →
      wrap8 ((entered cfg env c).request.buffer.sequenceId + 1) ≠ (entered cfg env c).request.parser.sequenceId
  | _ => True

instance (cfg : Config) (c : Conn) (l : Label) : Decidable (InFlow cfg c l) :=
  match l with
  | .exec blk _ => inferInstanceAs (Decidable (Flows _ blk.1 _ _))
  | .read _ => inferInstanceAs (Decidable (_ → _ ≠ _))
  | .socketEvent | .timerEvent | .call _ | .write _ | .callbackReturn | .finalChunk => isTrue trivial

structure Flowing (c : Conn) : Prop where
  inStep : c.live = true → c.request.state ≠ .write → c.request.buffer.buf ≠ 0 →
    InStep c.request.parser c.request.buffer
  waiting : c.live = true → c.request.state = .read → .readRequest ∉ c.stack → .parseBuffer ∉ c.stack →
    httpFlagCheck c.request.parser.flags flagDone = true ∨ c.request.buffer.length ≤ c.request.buffer.index

theorem Flowing.of_dead (dead : c.live = false) : Flowing c :=
  ⟨fun live => absurd (dead.symm.trans live) (by decide), fun live => absurd (dead.symm.trans live) (by decide)⟩

theorem Flowing.of_write (state : c.request.state = .write) : Flowing c :=
  ⟨fun _ other => absurd state other, fun _ read => absurd (state.symm.trans read) (by decide)⟩

theorem Flowing.of_library (inStep : c.request.buffer.buf ≠ 0 → InStep c.request.parser c.request.buffer)
    (library : .readRequest ∈ c.stack ∨ .parseBuffer ∈ c.stack) : Flowing c :=
  ⟨fun _ _ => inStep, fun _ _ read parse => absurd library (by simp [read, parse])⟩

theorem Flowing.of_nop (inStep : c.request.buffer.buf ≠ 0 → InStep c.request.parser c.request.buffer)
    (state : c.request.state = .nop) : Flowing c :=
  ⟨fun _ _ => inStep, fun _ read => absurd (state.symm.trans read) (by decide)⟩

theorem entered_popped (env : ReadEnv) (stack : List Frame) (c : Conn) :
    (entered cfg env (popped stack c)).request = (entered cfg env c).request := by
  unfold entered initBuffer
  change (if c.request.buffer.buf = 0 then _ else _ : Conn).request =
    (if c.request.buffer.buf = 0 then _ else _ : Conn).request
  split <;> rfl

theorem entered_inStep (env : ReadEnv) (h : Flowing c) (live : c.live = true) (state : c.request.state = .read) :
    InStep (entered cfg env c).request.parser (entered cfg env c).request.buffer := by
  by_cases none : c.request.buffer.buf = 0
  · unfold entered initBuffer
    rw [if_pos none]
    exact ⟨(by decide : hshHttpStart ≠ hshHttpError), (by decide : HshTokenE.method ≠ .none),
      fun _ => .inr (le_refl 0)⟩
  · rw [entered_of_buf cfg env none]
    exact h.inStep live (by rw [state]; decide) none

theorem Flowing.exec (steady : Steady c) (buffered : Buffered c) (kept : Kept c) (h : Flowing c) {blk : Block}
    {respond : RespondEnv} {token : HshTokenS} {parser : HshParserS} {buffer : HshBufferS}
    (hstack : c.stack = .parseBuffer :: stack)
    (hr : hshParserExec cfg.httpMaxRequestBufSize blk.1 c.request.parser c.request.buffer =
      some (token, parser, buffer)) (flow : InFlow cfg c (.exec blk respond)) :
    InStep parser buffer ∧
      (token.type = .none → httpFlagCheck parser.flags flagDone = true ∨ buffer.length ≤ buffer.index) := by
  have live := (steady.library hstack rfl).live
  have state := (steady.reading hstack (.inr rfl)).1
  have block : c.request.buffer.buf ≠ 0 := by
    refine (buffered.reading live state).resolve_left ?_
    rw [hstack]
    simpa using (not_library (steady.below_popped hstack)).1
  have other : c.request.state ≠ .write := by rw [state]; decide
  exact hshParserExec_inStep (kept.parsed live other block) blk.2 (h.inStep live other block) flow hr

theorem Flowing.step (steady : Steady c) (held : Holding c) (buffered : Buffered c) (kept : Kept c) (h : Flowing c)
    (asked : Asked c l) (flow : InFlow cfg c l) (move : Move cfg c l c') : Flowing c' := by
  have enter : ∀ {stack} env, c.stack = .readRequest :: stack →
      InStep (entered cfg env c).request.parser (entered cfg env c).request.buffer :=
    fun env hstack => entered_inStep env h (steady.library hstack rfl).live (steady.reading hstack (.inl rfl)).1
  cases move with
  | wakeRead live stack state => exact .of_library (fun block => h.inStep live (by rw [state]; decide) block) (by simp)
  | wakeWrite live stack state => exact .of_write state
  | swallow => exact h
  | tick => exact ⟨h.inStep, h.waiting⟩
  | expire => exact .of_dead rfl
  | readSkip hstack =>
    refine .of_library (fun _ => ?_) (by simp)
    rw [push_request, entered_popped]
    exact enter _ hstack
  | readEof => exact .of_dead rfl
  | @readMore env stack r hstack requires hr =>
    refine .of_library (fun _ => ?_) (by simp)
    obtain ⟨alive, typed, -⟩ := enter env hstack
    have next := hsReadIntoBuffer_sequenceId hr
    rw [entered_popped] at requires next
    change InStep (entered cfg env (popped stack c)).request.parser r.buffer
    rw [entered_popped]
    exact ⟨alive, typed, fun same => absurd (next.symm.trans same.symm) (flow requires)⟩
  | execNone hstack hr type =>
    obtain ⟨inStep, consumed⟩ := h.exec steady buffered kept hstack hr flow
    exact ⟨fun _ _ _ => inStep, fun _ _ _ _ => consumed type⟩
  | execErr => exact .of_write rfl
  | execLine hstack hr => exact .of_library (fun _ => (h.exec steady buffered kept hstack hr flow).1) (by simp)
  | execHead hstack hr => exact .of_nop (fun _ => (h.exec steady buffered kept hstack hr flow).1) rfl
  | execSmall hstack hr => exact .of_nop (fun _ => (h.exec steady buffered kept hstack hr flow).1) rfl
  | execFinal hstack hr => exact .of_nop (fun _ => (h.exec steady buffered kept hstack hr flow).1) rfl
  | execPiece hstack hr => exact .of_nop (fun _ => (h.exec steady buffered kept hstack hr flow).1) rfl
  | writeMore hstack => exact .of_write (steady.writing hstack).1
  | writeErr => exact .of_dead rfl
  | writeClose => exact .of_dead rfl
  | writeNext =>
    exact .of_library (fun block => absurd (finished_buf httpKeepAliveTimeout _) block) (by simp [hsRequestBeginRead])
  | writeChunk => exact .of_nop (fun block => absurd (finished_buf httpRequestTimeout _) block) rfl
  | respond => exact .of_write rfl
  | readChunk user live =>
    have state := held.1 (asked _ rfl)
    exact .of_library (fun block => h.inStep live (by rw [state]; decide) block) (by simp [hsRequestBeginRead])
  | freeBuffer =>
    exact .of_nop (fun block => absurd (finished_buf c.request.timeout _) block) (held.1 (asked _ rfl))
  | connection => exact ⟨by simpa using h.inStep, by simpa using h.waiting⟩
  | @callbackReturn cb stack hstack =>
    refine ⟨h.inStep, fun live state read parse => h.waiting live state ?_ ?_⟩
    · rw [hstack]
      simpa [popped] using read
    · rw [hstack]
      simpa [popped] using parse
  | finalChunk hstack live =>
    obtain ⟨-, -, state, -, -, -⟩ := kept.final _ (by rw [hstack]; exact List.mem_cons_self)
    exact .of_nop (fun block => h.inStep live state block) rfl

theorem flowing_accepted (h : Accepted c) : Flowing c := by
  obtain ⟨memused, rfl | ⟨respond, request, memused', -, rfl⟩⟩ := accepted_cases h
  · exact .of_library (fun block => absurd rfl block) (by simp [hsRequestBeginRead])
  · exact .of_write rfl

/-- What the runs of the protocol keep whose calls of the parser flow. -/
structure Consuming (c : Conn) : Prop extends Orderly c where
  flowing : Flowing c

theorem consuming_accepted (h : Accepted c) : Consuming c := ⟨orderly_accepted h, flowing_accepted h⟩

theorem Consuming.step (h : Consuming c) (asked : Asked c l) (finishing : Finishing c l) (flow : InFlow cfg c l)
    (move : Move cfg c l c') : Consuming c' :=
  ⟨h.toOrderly.step asked finishing move, h.flowing.step h.steady h.held h.buffered h.kept asked flow move⟩

/-- In every run of the protocol whose calls of the parser flow: a connection that waits for input
    has consumed what it received, unless its message is complete. -/
theorem waiting_consumed (run : Runs.Reached (Connection.step cfg) Accepted
      (fun c l => Asked c l ∧ Finishing c l ∧ InFlow cfg c l) c) (live : c.live = true)
    (state : c.request.state = .read) (returned : .readRequest ∉ c.stack ∧ .parseBuffer ∉ c.stack)
    (incomplete : httpFlagCheck c.request.parser.flags flagDone = false) :
    c.request.buffer.index ≥ c.request.buffer.length ∧ hsBufferRequiresRead c.request.buffer = true := by
  have consuming : Consuming c := run.invariant (fun _ => consuming_accepted)
    fun _ _ _ h ok hs => h.step ok.1 ok.2.1 ok.2.2 (step_move hs)
  have consumed := (consuming.flowing.waiting live state returned.1 returned.2).resolve_left (by rw [incomplete]; decide)
  exact ⟨consumed, decide_eq_true consumed⟩

theorem waiting_consumed_head : ∃ c, Runs.Reached (Connection.step {}) Accepted
    (fun c l => Asked c l ∧ Finishing c l ∧ InFlow {} c l) c ∧ c.stack = [] ∧ c.request.buffer.length = 8 ∧
      c.request.buffer.index ≥ c.request.buffer.length := by
  have run : ((Runs.exec (Runs.guarded (Connection.step {}) fun c l => Asked c l ∧ Finishing c l ∧ InFlow {} c l)
      (reads (ascii "GET / HT") :: execs 3) accepted).any fun c =>
        decide (c.live = true ∧ c.request.state = .read ∧ c.stack = [] ∧
          httpFlagCheck c.request.parser.flags flagDone = false ∧ c.request.buffer.length = 8)) = true := by
    decide +kernel
  obtain ⟨c, hc, hs⟩ := (Option.any_eq_true _ _).1 run
  rw [decide_eq_true_eq] at hs
  obtain ⟨live, state, stack, incomplete, length⟩ := hs
  have reached : Runs.Reached (Connection.step {}) Accepted
      (fun c l => Asked c l ∧ Finishing c l ∧ InFlow {} c l) c := .guarded (.init accepted_accepted) hc
  exact ⟨c, reached, stack, length,
    (waiting_consumed reached live state (by simp [stack]) incomplete).1⟩

/-- The second chunk, of ten bytes, does not fit behind the first: `chunk_read` moves its beginning,
    and the bytes that were moved are never parsed. -/
theorem chunk_moved_and_stuck : ∃ c,
    Runs.Reached (Connection.step streamConfig) Accepted (fun c l => Asked c l ∧ Finishing c l) c ∧
      c.live = true ∧ c.request.state = .read ∧ (.readRequest ∉ c.stack ∧ .parseBuffer ∉ c.stack) ∧
      httpFlagCheck c.request.parser.flags flagDone = false ∧
      c.request.buffer.index = 47 ∧ c.request.buffer.length = 51 ∧
      c.request.parser.sequenceId = c.request.buffer.sequenceId := by
  have run : ((Runs.exec (Runs.guarded (Connection.step streamConfig) fun c l => Asked c l ∧ Finishing c l)
      (readsOnce (.bytes (ascii ("POST / HTTP/1.1\r\nTransfer-Encoding: chunked\r\n\r\n" ++
        "5\r\nhello\r\nA\r\n0123"))) :: execs 6 ++
        [.call .readChunk, readsOnce .fail] ++ execs 1 ++ [.call .readChunk, readsOnce .fail] ++ execs 1)
      accepted).any fun c =>
        decide (c.live = true ∧ c.request.state = .read ∧ (.readRequest ∉ c.stack ∧ .parseBuffer ∉ c.stack) ∧
          httpFlagCheck c.request.parser.flags flagDone = false ∧ c.request.buffer.index = 47 ∧
          c.request.buffer.length = 51 ∧ c.request.parser.sequenceId = c.request.buffer.sequenceId)) = true := by
    decide +kernel
  obtain ⟨c, hc, hs⟩ := (Option.any_eq_true _ _).1 run
  rw [decide_eq_true_eq] at hs
  exact ⟨c, .guarded (.init accepted_accepted) hc, hs⟩

end Runs

end HttpServer.WaitingReads
