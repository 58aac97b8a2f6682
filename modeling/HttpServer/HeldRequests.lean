import HttpServer.ConnectionInvariant

set_option autoImplicit false

/-!
# Requests that user code holds

A callback owes the library one call: a response, or the read of the next piece. While it is
outstanding the session is in `HTTP_SESSION_NOP`, events of the socket are swallowed, and only the
timer can end the request.
-/
namespace HttpServer.HeldRequests
open HttpServer.Parser ReadBuffer ParserCalls RequestUtil Respond Connection ConnectionSteps ConnectionInvariant

/-- A callback was called, and neither a response nor a read has begun since. -/
def outstanding (events : List Event) : Bool :=
  events.foldl (fun held event =>
    match event with
    | .invoke _ _ _ => true
    | .watch _ => false
    | _ => held) false

section Outstanding

variable {cfg : Config} {c c' : Conn} {l : Label} {stack : List Frame} (events : List Event)

@[simp] theorem outstanding_invoke (serial : ℕ) (cb : Callback) (request : HttpRequestS) :
    outstanding (events ++ [.invoke serial cb request]) = true := by
  simp [outstanding]

@[simp] theorem outstanding_watch (interest : Interest) :
    outstanding (events ++ [.watch interest]) = false := by
  simp [outstanding]

@[simp] theorem outstanding_read (results : List ReadResult) :
    outstanding (events ++ [.read results]) = outstanding events := by
  simp [outstanding]

@[simp] theorem outstanding_push (serial : ℕ) (token : HshTokenS) :
    outstanding (events ++ [.push serial token]) = outstanding events := by
  simp [outstanding]

@[simp] theorem outstanding_write (bytes : ℤ) :
    outstanding (events ++ [.write bytes]) = outstanding events := by
  simp [outstanding]

@[simp] theorem outstanding_responded (serial : ℕ) :
    outstanding (events ++ [.responded serial]) = outstanding events := by
  simp [outstanding]

@[simp] theorem outstanding_terminate : outstanding (events ++ [.terminate]) = outstanding events := by
  simp [outstanding]

/-- The state of the session says whether the call is outstanding. -/
def Holding (c : Conn) : Prop := outstanding c.events = true ↔ c.request.state = .nop

theorem Holding.free (h : Holding c) (state : c.request.state ≠ .nop) : outstanding c.events = false :=
  eq_false_of_ne_true fun held => state (h.1 held)

theorem holding_invoked (serial : ℕ) (cb : Callback) (c : Conn) : Holding (invoked serial cb c) := by
  simp [Holding, invoked]

theorem holding_beginRead (c : Conn) : Holding (hsRequestBeginRead c) := by
  simp [Holding, hsRequestBeginRead]

theorem holding_beginWrite (c : Conn) : Holding (hsRequestBeginWrite c) := by
  simp [Holding, hsRequestBeginWrite]

theorem Holding.step (steady : Steady c) (h : Holding c) (move : Move cfg c l c') : Holding c' := by
  have reading : ∀ {frame stack}, c.stack = frame :: stack → frame = .readRequest ∨ frame = .parseBuffer →
      outstanding c.events = false := by
    intro frame stack hstack reads
    exact h.free (by rw [(steady.reading hstack reads).1]; decide)
  cases move with
  | wakeRead => exact h
  | wakeWrite => exact h
  | swallow => exact h
  | tick => exact h
  | expire => simpa [Holding, hsRequestTerminateConnection, setTimeout] using h
  | readSkip hstack => simpa [Holding, popped] using reading hstack (.inl rfl)
  | readEof hstack =>
    simpa [Holding, hsRequestTerminateConnection, filled, popped, -List.append_assoc] using reading hstack (.inl rfl)
  | readMore hstack => simpa [Holding, filled, popped] using reading hstack (.inl rfl)
  | execNone => exact h
  | execErr => exact holding_beginWrite _
  | execLine => simpa [Holding, hsTokenArrayPush, parsed, popped] using h
  | execHead => exact holding_invoked _ _ _
  | execSmall => exact holding_invoked _ _ _
  | execFinal => exact holding_invoked _ _ _
  | execPiece => exact holding_invoked _ _ _
  | writeMore hstack => simpa [Holding, written, setTimeout, popped] using h
  | writeErr hstack =>
    simpa [Holding, hsRequestTerminateConnection, finished, written, popped, -List.append_assoc] using h
  | writeClose hstack =>
    simpa [Holding, hsRequestTerminateConnection, finished, written, popped, -List.append_assoc] using h
  | writeNext => exact holding_beginRead _
  | writeChunk => exact holding_invoked _ _ _
  | respond => exact holding_beginWrite _
  | readChunk => exact holding_beginRead _
  | freeBuffer => exact h
  | connection => simpa [Holding] using h
  | callbackReturn => exact h
  | finalChunk => exact holding_invoked _ _ _

theorem holding_accepted (h : Accepted c) : Holding c := by
  obtain ⟨memused, rfl | ⟨respond, request, memused', -, rfl⟩⟩ := accepted_cases h
  · exact holding_beginRead _
  · exact holding_beginWrite _

end Outstanding

section Session

/-! A connection with the sizes of the server, up to a fixed list of steps. -/

def sessionBlock : Block := ⟨⟨4096, fun _ => 0⟩, by norm_num [BlockOk]⟩

def sessionEnv : RespondEnv where
  date := cstring "Thu, 1 Jan 1970 00:00:00 GMT"
  blocks _ := sessionBlock

def reads (bs : List UInt8) : Label :=
  .read ⟨sessionBlock, [⟨⟨.bytes bs, sessionBlock.1⟩, sessionBlock.2⟩, ⟨⟨.fail, sessionBlock.1⟩, sessionBlock.2⟩]⟩

/-- One `read`, after which the buffer is full, or which would block. -/
def readsOnce (result : ReadResult) : Label :=
  .read ⟨sessionBlock, [⟨⟨result, sessionBlock.1⟩, sessionBlock.2⟩]⟩

def execs (n : ℕ) : List Label := List.replicate n (.exec sessionBlock sessionEnv)

def accepted : Conn := hsRequestBeginRead (hsRequestInit 0)

theorem accepted_accepted : Accepted accepted := ⟨sessionEnv, 0, rfl⟩

/-- A head without a body, and `request_handler` returns without a call. -/
def handled : List Label := reads (ascii "GET / HTTP/1.1\r\nA: b\r\n\r\n") :: execs 6 ++ [.callbackReturn]

theorem session_reached {cfg : Config} {ls : List Label} {c : Conn}
    (h : Runs.exec (Connection.step cfg) ls accepted = some c) :
    Runs.Reached (Connection.step cfg) Accepted (fun _ _ => True) c :=
  .exec (.init accepted_accepted) h

end Session

section Timer

variable {cfg : Config} {c c' : Conn} {l : Label}

/-- The timer does not expire while user code owes a call. -/
def Patient (c : Conn) (l : Label) : Prop :=
  l = .timerEvent → outstanding c.events = true → c.request.timeout ≠ 1

instance (c : Conn) (l : Label) : Decidable (Patient c l) :=
  match l with
  | .timerEvent =>
    decidable_of_iff (outstanding c.events = true → c.request.timeout ≠ 1) ⟨fun h _ => h, fun h => h rfl⟩
  | .socketEvent | .read _ | .exec _ _ | .write _ | .call _ | .callbackReturn | .finalChunk => isTrue nofun

/-- Only the timer ends a request that user code holds. -/
theorem live_step (steady : Steady c) (held : Holding c) (h : c.request.state = .nop → c.live = true)
    (patient : Patient c l) (move : Move cfg c l c') (state : c'.request.state = .nop) : c'.live = true := by
  have alive : ∀ {frame stack}, c.stack = frame :: stack → waits frame = false → c.live = true := by
    intro frame stack hstack runs
    exact (steady.library hstack runs).live
  cases move with
  | wakeRead live => exact live
  | wakeWrite live => exact live
  | swallow live => exact live
  | tick live => exact live
  | expire live stack left => exact absurd (by omega) (patient rfl (held.2 state))
  | readSkip hstack => simpa [popped] using alive hstack rfl
  | readEof =>
    exact absurd ((entered_state _ _).symm.trans state) (by decide)
  | readMore hstack => simpa [filled, popped] using alive hstack rfl
  | execNone hstack => exact alive hstack rfl
  | execErr hstack => exact alive hstack rfl
  | execLine hstack => exact alive hstack rfl
  | execHead hstack => exact alive hstack rfl
  | execSmall hstack => exact alive hstack rfl
  | execFinal hstack => exact alive hstack rfl
  | execPiece hstack => exact alive hstack rfl
  | writeMore hstack => exact alive hstack rfl
  | writeErr hstack => exact absurd ((steady.writing hstack).1.symm.trans state) (by decide)
  | writeClose hstack => exact absurd ((steady.writing hstack).1.symm.trans state) (by decide)
  | writeNext hstack => exact alive hstack rfl
  | writeChunk hstack => exact alive hstack rfl
  | respond user live => exact live
  | readChunk user live => exact live
  | freeBuffer user live => exact live
  | connection user live => exact live
  | callbackReturn hstack => exact h state
  | finalChunk hstack live => exact live

/-- What every run keeps. -/
structure Regular (c : Conn) : Prop where
  steady : Steady c
  held : Holding c

theorem regular_accepted (h : Accepted c) : Regular c := ⟨steady_accepted h, holding_accepted h⟩

theorem Regular.step (h : Regular c) (move : Move cfg c l c') : Regular c' :=
  ⟨h.steady.step move, h.held.step h.steady move⟩

/-- What a run with a patient timer keeps. -/
structure HeldLive (c : Conn) : Prop extends Regular c where
  live : c.request.state = .nop → c.live = true

theorem heldLive_accepted (h : Accepted c) : HeldLive c := ⟨regular_accepted h, fun _ => accepted_live h⟩

theorem HeldLive.step (h : HeldLive c) (patient : Patient c l) (move : Move cfg c l c') : HeldLive c' :=
  ⟨h.toRegular.step move, live_step h.steady h.held h.live patient move⟩

/-- In every run in which the timer does not expire meanwhile, a request that user code holds is
    live, whatever user code calls. -/
theorem held_live (run : Runs.Reached (Connection.step cfg) Accepted Patient c) :
    (outstanding c.events = true ↔ c.request.state = .nop) ∧ (c.request.state = .nop → c.live = true) := by
  have kept : HeldLive c := run.invariant (fun _ => heldLive_accepted)
    fun _ _ _ h patient hs => h.step patient (step_move hs)
  exact ⟨kept.held, kept.live⟩

theorem held_live_get : ∃ c, Runs.Reached (Connection.step {}) Accepted Patient c ∧
    c.request.state = .nop ∧ c.request.timeout = 1 ∧ c.live = true := by
  have run : ((Runs.exec (Runs.guarded (Connection.step {}) Patient)
      (handled ++ List.replicate 19 .timerEvent) accepted).any fun c =>
        decide (c.request.state = .nop ∧ c.request.timeout = 1)) = true := by
    decide +kernel
  obtain ⟨c, hc, hs⟩ := (Option.any_eq_true _ _).1 run
  rw [decide_eq_true_eq] at hs
  have reached : Runs.Reached (Connection.step {}) Accepted Patient c :=
    .guarded (.init accepted_accepted) hc
  exact ⟨c, reached, hs.1, hs.2, (held_live reached).2 hs.1⟩

/-- Twenty ticks free a request that user code holds. -/
theorem held_request_freed : ∃ c, Runs.Reached (Connection.step {}) Accepted (fun _ _ => True) c ∧
    outstanding c.events = true ∧ c.request.state = .nop ∧ c.live = false := by
  have run : ((Runs.exec (Connection.step {}) (handled ++ List.replicate 20 .timerEvent) accepted).any
      fun c => decide (outstanding c.events = true ∧ c.request.state = .nop ∧ c.live = false)) = true := by
    decide +kernel
  obtain ⟨c, hc, hs⟩ := (Option.any_eq_true _ _).1 run
  rw [decide_eq_true_eq] at hs
  exact ⟨c, session_reached hc, hs⟩

end Timer

section States

variable {cfg : Config} {c c' : Conn} {l : Label}

/-- User code calls the library only while a call is outstanding. -/
def Asked (c : Conn) (l : Label) : Prop := ∀ call, l = .call call → outstanding c.events = true

instance (c : Conn) (l : Label) : Decidable (Asked c l) :=
  match l with
  | .call call =>
    decidable_of_iff (outstanding c.events = true) ⟨fun h _ _ => h, fun h => h call rfl⟩
  | .socketEvent | .timerEvent | .read _ | .exec _ _ | .write _ | .callbackReturn | .finalChunk => isTrue nofun

/-- What the event loop may find of a live connection. -/
def AtLoop (c : Conn) : Prop :=
  (c.request.state = .read ∧ c.interest = .epollin ∧ c.request.buffer.buf ≠ 0) ∨
  (c.request.state = .write ∧ c.interest = .epollout ∧ c.request.buffer.buf ≠ 0 ∧
    0 ≤ c.request.bytesWritten ∧ c.request.bytesWritten < c.request.buffer.length) ∨
  (c.request.state = .nop ∧ outstanding c.events = true)

/-- The buffer that each state needs, unless the library is about to set it up. -/
structure Buffered (c : Conn) : Prop where
  reading : c.live = true → c.request.state = .read →
    .readRequest ∈ c.stack ∨ c.request.buffer.buf ≠ 0
  writing : c.live = true → c.request.state = .write → c.request.buffer.buf ≠ 0 ∧
    0 ≤ c.request.bytesWritten ∧
    (.writeSocket ∈ c.stack ∨ c.request.bytesWritten < c.request.buffer.length)
  started : c.request.state ≠ .init

theorem Buffered.of_read (state : c.request.state = .read)
    (h : .readRequest ∈ c.stack ∨ c.request.buffer.buf ≠ 0) : Buffered c :=
  ⟨fun _ _ => h, fun _ hw => absurd (state.symm.trans hw) (by decide), by rw [state]; decide⟩

theorem Buffered.of_write (state : c.request.state = .write) (block : c.request.buffer.buf ≠ 0)
    (nonneg : 0 ≤ c.request.bytesWritten)
    (h : .writeSocket ∈ c.stack ∨ c.request.bytesWritten < c.request.buffer.length) : Buffered c :=
  ⟨fun _ hr => absurd (state.symm.trans hr) (by decide), fun _ _ => ⟨block, nonneg, h⟩, by rw [state]; decide⟩

theorem Buffered.of_nop (state : c.request.state = .nop) : Buffered c :=
  ⟨fun _ hr => absurd (state.symm.trans hr) (by decide), fun _ hw => absurd (state.symm.trans hw) (by decide),
    by rw [state]; decide⟩

theorem Buffered.of_dead (dead : c.live = false) (started : c.request.state ≠ .init) : Buffered c :=
  ⟨fun live => absurd (dead.symm.trans live) (by decide), fun live => absurd (dead.symm.trans live) (by decide),
    started⟩

theorem buffered_beginWrite {blks : ℕ → NewBlock} {request request' : HttpRequestS} {memused memused' : ℤ}
    (hblk : ∀ n, BlockOk (blks n)) (h : Responded blks request memused request' memused') (c : Conn) :
    Buffered (hsRequestBeginWrite (answered request' memused' c)) := by
  refine .of_write rfl ?_ ?_ (.inl (by simp [hsRequestBeginWrite]))
  · obtain ⟨n, hn⟩ := h.buf_mem
    exact hn.trans_ne (hblk n).1.ne'
  · exact h.written_eq.ge

theorem entered_buf (env : ReadEnv) (c : Conn) : (entered cfg env c).request.buffer.buf ≠ 0 := by
  unfold entered initBuffer
  split
  · exact env.bufBlk.2.1.ne'
  · assumption

theorem Buffered.step (steady : Steady c) (held : Holding c) (h : Buffered c) (asked : Asked c l)
    (move : Move cfg c l c') : Buffered c' := by
  have parsing : ∀ {stack}, c.stack = .parseBuffer :: stack →
      c.request.state = .read ∧ c.request.buffer.buf ≠ 0 := by
    intro stack hstack
    have state := (steady.reading hstack (.inr rfl)).1
    have live := (steady.library hstack rfl).live
    refine ⟨state, (h.reading live state).resolve_left ?_⟩
    rw [hstack]
    simpa using (not_library (steady.below_popped hstack)).1
  have writing : ∀ {stack}, c.stack = .writeSocket :: stack → c.request.state = .write ∧
      c.request.buffer.buf ≠ 0 ∧ 0 ≤ c.request.bytesWritten := by
    intro stack hstack
    have state := (steady.writing hstack).1
    have live := (steady.library hstack rfl).live
    exact ⟨state, (h.writing live state).1, (h.writing live state).2.1⟩
  cases move with
  | wakeRead _ _ state => exact .of_read state (.inl (by simp))
  | wakeWrite live _ state =>
    exact .of_write state (h.writing live state).1 (h.writing live state).2.1 (.inl (by simp))
  | swallow => exact h
  | tick => exact ⟨h.reading, h.writing, h.started⟩
  | expire => exact .of_dead rfl h.started
  | readSkip => exact .of_read (entered_state _ _) (.inr (entered_buf _ _))
  | readEof =>
    refine .of_dead rfl ?_
    exact (entered_state _ _).trans_ne (by decide)
  | @readMore env _ r _ _ hr =>
    have block := hsReadIntoBuffer_block (fun call hcall => ?_) (entered_buf _ _) hr
    · exact .of_read (entered_state _ _) (.inr block.1)
    · obtain ⟨call, -, rfl⟩ := List.mem_map.1 hcall
      exact call.2
  | @execNone blk _ _ _ _ _ hstack hr =>
    obtain ⟨state, block⟩ := parsing hstack
    exact .of_read state (.inr (hshParserExec_buf blk.2 hr block))
  | @execErr _ respond _ _ _ _ _ _ hstack hr type hresp =>
    exact buffered_beginWrite (fun n => (respond.blocks n).2) (hsRequestRespond_responded hresp) _
  | @execLine blk _ _ _ _ _ hstack hr =>
    obtain ⟨state, block⟩ := parsing hstack
    exact .of_read state (.inr (hshParserExec_buf blk.2 hr block))
  | execHead => exact .of_nop rfl
  | execSmall => exact .of_nop rfl
  | execFinal => exact .of_nop rfl
  | execPiece => exact .of_nop rfl
  | @writeMore call _ hstack fits _ left =>
    obtain ⟨state, block, nonneg⟩ := writing hstack
    have bounds : 0 ≤ (written call c).request.bytesWritten ∧
        (written call c).request.bytesWritten ≤ c.request.buffer.length := by
      simp only [written, log_request]
      split <;> omega
    exact .of_write state block bounds.1 (.inr (lt_of_le_of_ne bounds.2 left))
  | writeErr hstack => exact .of_dead rfl h.started
  | writeClose hstack => exact .of_dead rfl h.started
  | writeNext => exact .of_read rfl (.inl (by simp [hsRequestBeginRead]))
  | writeChunk => exact .of_nop rfl
  | @respond _ _ env _ _ _ _ hcall hf =>
    exact buffered_beginWrite (fun n => (env.blocks n).2) (responds_responded hcall hf) _
  | readChunk => exact .of_read rfl (.inl (by simp [hsRequestBeginRead]))
  | freeBuffer => exact .of_nop (held.1 (asked _ rfl))
  | connection => exact .of_nop ((setKeepAlive_state _ _).trans (held.1 (asked _ rfl)))
  | callbackReturn hstack =>
    refine ⟨fun live state => ?_, fun live state => ?_, h.started⟩
    · have := h.reading live state
      rw [hstack] at this
      simpa [popped] using this
    · have := h.writing live state
      rw [hstack] at this
      simpa [popped] using this
  | finalChunk => exact .of_nop rfl

theorem buffered_accepted (h : Accepted c) : Buffered c := by
  obtain ⟨memused, rfl | ⟨respond, request, memused', hresp, rfl⟩⟩ := accepted_cases h
  · exact .of_read rfl (.inl (by simp [hsRequestBeginRead]))
  · exact buffered_beginWrite (fun n => (respond.blocks n).2) (hsRequestRespond_responded hresp) _

/-- What a run with a patient timer keeps when user code makes its calls while they are outstanding. -/
structure LoopRun (c : Conn) : Prop extends HeldLive c where
  buffered : Buffered c

theorem loopRun_accepted (h : Accepted c) : LoopRun c := ⟨heldLive_accepted h, buffered_accepted h⟩

theorem LoopRun.step (h : LoopRun c) (asked : Asked c l) (patient : Patient c l) (move : Move cfg c l c') : LoopRun c' :=
  ⟨h.toHeldLive.step patient move, h.buffered.step h.steady h.held asked move⟩

/-- In every run in which user code makes its calls while they are outstanding and the timer does
    not expire meanwhile: what the event loop finds, that a connection ends once, and that every
    call finds a live request. -/
theorem connection_states
    (run : Runs.Reached (Connection.step cfg) Accepted (fun c l => Asked c l ∧ Patient c l) c) :
    (c.stack = [] → c.live = true → AtLoop c) ∧ terminations c.events ≤ 1 ∧
      (outstanding c.events = true → c.live = true) := by
  have found : LoopRun c := run.invariant (fun _ => loopRun_accepted)
    fun _ _ _ h ok hs => h.step ok.1 ok.2 (step_move hs)
  obtain ⟨⟨⟨steady, held⟩, live⟩, buffered⟩ := found
  refine ⟨fun stack hlive => ?_, ?_, fun h => live (held.1 h)⟩
  · have reading := buffered.reading hlive
    have writing := buffered.writing hlive
    rw [stack] at reading writing
    cases state : c.request.state with
    | init => exact absurd state buffered.started
    | read => exact .inl ⟨state, steady.readInterest state, (reading state).resolve_left (by simp)⟩
    | write =>
      obtain ⟨block, nonneg, lt⟩ := writing state
      exact .inr (.inl ⟨state, steady.writeInterest state, block, nonneg, lt.resolve_left (by simp)⟩)
    | nop => exact .inr (.inr ⟨state, held.2 state⟩)
  · rw [steady.once]
    split <;> omega

theorem connection_states_partial_write : ∃ c,
    Runs.Reached (Connection.step {}) Accepted (fun c l => Asked c l ∧ Patient c l) c ∧
      c.request.state = .write ∧ c.request.bytesWritten = 5 ∧ AtLoop c := by
  have run : ((Runs.exec (Runs.guarded (Connection.step {}) fun c l => Asked c l ∧ Patient c l)
      (handled ++ [.call (.respond {} sessionEnv), .write ⟨5, false⟩]) accepted).any fun c =>
        decide (c.stack = [] ∧ c.live = true ∧ c.request.state = .write ∧ c.request.bytesWritten = 5)) =
        true := by
    decide +kernel
  obtain ⟨c, hc, hs⟩ := (Option.any_eq_true _ _).1 run
  rw [decide_eq_true_eq] at hs
  obtain ⟨stack, live, state, bytes⟩ := hs
  have reached : Runs.Reached (Connection.step {}) Accepted (fun c l => Asked c l ∧ Patient c l) c :=
    .guarded (.init accepted_accepted) hc
  exact ⟨c, reached, state, bytes, (connection_states reached).1 stack live⟩

/-- A chunk of a response is written, the timer expires while `http_respond_chunk_end` is
    outstanding, and the call, on the freed request as it was left, frees it again. -/
theorem late_call_terminates_again : ∃ c c₁ c₂,
    Runs.Reached (Connection.step {}) Accepted Asked c ∧ outstanding c.events = true ∧ c.live = false ∧
      apiCall c (.respondChunkEnd {} sessionEnv) = some c₁ ∧
      hsWriteSocketAndHandleReturnCode ⟨-1, true⟩ (popped [] c₁) = some c₂ ∧
      terminations c₂.events = 2 := by
  let chunk : HttpResponseS := { body := some (ascii "x"), contentLength := 1 }
  have run : ((Runs.exec (Runs.guarded (Connection.step {}) Asked)
      (handled ++ [.call (.respondChunk chunk sessionEnv), .write ⟨113, false⟩, .callbackReturn] ++
        List.replicate 20 .timerEvent) accepted).any fun c =>
          decide (outstanding c.events = true ∧ c.live = false) &&
            (apiCall c (.respondChunkEnd {} sessionEnv)).any fun c₁ =>
              (hsWriteSocketAndHandleReturnCode ⟨-1, true⟩ (popped [] c₁)).any fun c₂ =>
                decide (terminations c₂.events = 2)) = true := by
    decide +kernel
  obtain ⟨c, hc, hs⟩ := (Option.any_eq_true _ _).1 run
  rw [Bool.and_eq_true, decide_eq_true_eq] at hs
  obtain ⟨c₁, h₁, hs₁⟩ := (Option.any_eq_true _ _).1 hs.2
  obtain ⟨c₂, h₂, hs₂⟩ := (Option.any_eq_true _ _).1 hs₁
  rw [decide_eq_true_eq] at hs₂
  exact ⟨c, c₁, c₂, .guarded (.init accepted_accepted) hc, hs.1.1, hs.1.2, h₁, h₂, hs₂⟩

end States

end HttpServer.HeldRequests
