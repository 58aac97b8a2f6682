import HttpServer.ConnectionSteps
import HttpServer.ParserCalls

set_option autoImplicit false

/-!
# What holds of a connection in every run

The library runs at the innermost place of the stack only, the state of the session says which code
runs there and what epoll watches for, and a request is freed once.
-/
namespace HttpServer.ConnectionInvariant
open HttpServer.Parser ReadBuffer RequestUtil Respond Connection ConnectionSteps

/-- The places where the library waits for user code. -/
def waits : Frame → Bool
  | .callback _ | .finalChunk _ => true
  | _ => false

/-- How often `hs_request_terminate_connection` was executed. -/
def terminations : List Event → ℕ
  | [] => 0
  | .terminate :: events => terminations events + 1
  | _ :: events => terminations events

theorem terminations_append (xs ys : List Event) :
    terminations (xs ++ ys) = terminations xs + terminations ys := by
  induction xs with
  | nil => simp [terminations]
  | cons x xs ih => cases x <;> simp [terminations, ih]; omega

/-- The part of a connection that decides which code runs. -/
structure StackOk (stack : List Frame) (live : Bool) (state : HttpSession) (interest : Interest)
    (terminated : ℕ) : Prop where
  below : ∀ f ∈ stack.tail, waits f = true
  dead : live = false → ∀ f ∈ stack, waits f = true
  reading : .readRequest ∈ stack ∨ .parseBuffer ∈ stack → state = .read
  writing : .writeSocket ∈ stack → state = .write
  readInterest : state = .read → interest = .epollin
  writeInterest : state = .write → interest = .epollout
  once : terminated = if live then 0 else 1

def Steady (c : Conn) : Prop :=
  StackOk c.stack c.live c.request.state c.interest (terminations c.events)

section Stack

variable {cfg : Config} {c c' : Conn} {l : Label} {stack : List Frame} {live : Bool} {state : HttpSession}
  {interest : Interest} {n : ℕ}

theorem StackOk.pop {frame : Frame} (h : StackOk (frame :: stack) live state interest n) :
    ∀ f ∈ stack, waits f = true := h.below

theorem StackOk.alive {frame : Frame} (h : StackOk (frame :: stack) live state interest n)
    (library : waits frame = false) : live = true := by
  by_contra dead
  have := h.dead (eq_false_of_ne_true dead) frame (by simp)
  rw [library] at this
  cases this

/-- User code runs over waiting frames only. -/
theorem StackOk.user (h : StackOk stack live state interest n) (user : userRuns stack = true) :
    ∀ f ∈ stack, waits f = true := by
  cases stack with
  | nil => simp
  | cons frame stack =>
    intro f hf
    rcases List.mem_cons.1 hf with rfl | hf
    · cases f <;> first | rfl | cases user
    · exact h.below f hf

theorem not_library {stack : List Frame} (h : ∀ f ∈ stack, waits f = true) :
    .readRequest ∉ stack ∧ .parseBuffer ∉ stack ∧ .writeSocket ∉ stack :=
  ⟨fun hf => absurd (h _ hf) (by decide), fun hf => absurd (h _ hf) (by decide),
    fun hf => absurd (h _ hf) (by decide)⟩

theorem stackOk_read (h : ∀ f ∈ stack, waits f = true) {frame : Frame}
    (library : frame = .readRequest ∨ frame = .parseBuffer) :
    StackOk (frame :: stack) true .read .epollin 0 := by
  obtain ⟨-, -, notWrite⟩ := not_library h
  refine ⟨h, nofun, fun _ => rfl, fun hf => ?_, fun _ => rfl, nofun, rfl⟩
  rcases List.mem_cons.1 hf with rfl | hf
  · rcases library with h | h <;> cases h
  · exact absurd hf notWrite

theorem stackOk_write (h : ∀ f ∈ stack, waits f = true) :
    StackOk (.writeSocket :: stack) true .write .epollout 0 := by
  obtain ⟨notRead, notParse, -⟩ := not_library h
  refine ⟨h, nofun, fun hf => ?_, fun _ => rfl, nofun, fun _ => rfl, rfl⟩
  rcases hf with hf | hf
  · exact absurd ((List.mem_cons.1 hf).resolve_left (by decide)) notRead
  · exact absurd ((List.mem_cons.1 hf).resolve_left (by decide)) notParse

theorem stackOk_wait (h : ∀ f ∈ stack, waits f = true) (readInterest : state = .read → interest = .epollin)
    (writeInterest : state = .write → interest = .epollout) (once : n = if live then 0 else 1) :
    StackOk stack live state interest n := by
  obtain ⟨notRead, notParse, notWrite⟩ := not_library h
  exact ⟨fun f hf => h f (List.mem_of_mem_tail hf), fun _ => h, fun hf => hf.elim (absurd · notRead) (absurd · notParse),
    fun hf => absurd hf notWrite, readInterest, writeInterest, once⟩

section Entered

variable (env : ReadEnv) (c : Conn)

@[simp] theorem entered_stack : (entered cfg env c).stack = c.stack := by
  unfold entered initBuffer
  split <;> rfl

@[simp] theorem entered_live : (entered cfg env c).live = c.live := by
  unfold entered initBuffer
  split <;> rfl

@[simp] theorem entered_interest : (entered cfg env c).interest = c.interest := by
  unfold entered initBuffer
  split <;> rfl

@[simp] theorem entered_state : (entered cfg env c).request.state = .read := by
  unfold entered initBuffer
  split <;> rfl

@[simp] theorem entered_events : (entered cfg env c).events = c.events := by
  unfold entered initBuffer
  split <;> rfl

end Entered

theorem responds_responded {call : UserCall} {f : HttpRequestS → ℤ → Option (HttpRequestS × ℤ)}
    {env : RespondEnv} {request request' : HttpRequestS} {memused memused' : ℤ}
    (hcall : responds call = some (f, env)) (hf : f request memused = some (request', memused')) :
    Responded env.blks request memused request' memused' := by
  cases call with
  | respond response env' =>
    cases hcall
    exact hsRequestRespond_responded hf
  | respondChunk response env' =>
    cases hcall
    exact hsRequestRespondChunk_responded hf
  | respondChunkEnd response env' =>
    cases hcall
    exact hsRequestRespondChunkEnd_responded hf
  | _ => cases hcall

/-- A live connection over waiting frames, between two places of the library. -/
structure Waiting (c : Conn) : Prop where
  stack : ∀ f ∈ c.stack, waits f = true
  live : c.live = true
  once : terminations c.events = 0

theorem Waiting.same {d : Conn} (h : Waiting c) (stack : d.stack = c.stack) (live : d.live = c.live)
    (once : terminations d.events = terminations c.events) : Waiting d :=
  ⟨stack ▸ h.stack, live.trans h.live, once.trans h.once⟩

theorem Waiting.log (h : Waiting c) {event : Event} (quiet : terminations [event] = 0) :
    Waiting (c.log event) :=
  ⟨h.stack, h.live, by simp [terminations_append, h.once, quiet]⟩

theorem Waiting.push (h : Waiting c) {frame : Frame} (waiting : waits frame = true) :
    Waiting (c.push frame) := by
  refine ⟨fun f hf => ?_, h.live, h.once⟩
  rcases List.mem_cons.1 hf with rfl | hf
  · exact waiting
  · exact h.stack f hf

theorem Waiting.parse (h : Waiting c) (state : c.request.state = .read) (interest : c.interest = .epollin) :
    Steady (c.push .parseBuffer) := by
  unfold Steady
  simp only [push_stack, push_live, push_request, push_interest, push_events, h.live, state, interest, h.once]
  exact stackOk_read h.stack (.inr rfl)

theorem Waiting.steady (h : Waiting c) (readInterest : c.request.state = .read → c.interest = .epollin)
    (writeInterest : c.request.state = .write → c.interest = .epollout) : Steady c :=
  stackOk_wait h.stack readInterest writeInterest (by rw [h.live, h.once]; rfl)

theorem Waiting.invoke (h : Waiting c) (serial : ℕ) (cb : Callback) : Steady (invoked serial cb c) := by
  have pushed : Waiting (ConnectionSteps.invoked serial cb c) :=
    Waiting.push (Waiting.log (c := { c with request := { c.request with state := .nop } })
      ⟨h.stack, h.live, h.once⟩ rfl) rfl
  exact pushed.steady nofun nofun

theorem Waiting.beginRead (h : Waiting c) : Steady (hsRequestBeginRead c) := by
  unfold Steady hsRequestBeginRead
  simp only [push_stack, push_live, push_request, push_interest, push_events, log_stack, log_live, log_request,
    log_interest, log_events, terminations_append, h.once, h.live]
  exact stackOk_read h.stack (.inl rfl)

theorem Waiting.beginWrite (h : Waiting c) : Steady (hsRequestBeginWrite c) := by
  unfold Steady hsRequestBeginWrite
  simp only [push_stack, push_live, push_request, push_interest, push_events, log_stack, log_live, log_request,
    log_interest, log_events, terminations_append, h.once, h.live]
  exact stackOk_write h.stack

theorem Waiting.terminate (h : Waiting c) (readInterest : c.request.state = .read → c.interest = .epollin)
    (writeInterest : c.request.state = .write → c.interest = .epollout) :
    Steady (hsRequestTerminateConnection c) := by
  refine stackOk_wait h.stack readInterest writeInterest ?_
  change terminations (c.events ++ [.terminate]) = _
  rw [terminations_append, h.once]
  rfl

theorem Steady.library {frame : Frame} (h : Steady c) (hstack : c.stack = frame :: stack)
    (runs : waits frame = false) : Waiting (popped stack c) := by
  unfold Steady at h
  rw [hstack] at h
  have live := h.alive runs
  exact ⟨h.pop, live, by rw [live] at h; exact h.once⟩

theorem Steady.reading {frame : Frame} (h : Steady c) (hstack : c.stack = frame :: stack)
    (reads : frame = .readRequest ∨ frame = .parseBuffer) : c.request.state = .read ∧ c.interest = .epollin := by
  unfold Steady at h
  rw [hstack] at h
  have state := h.reading (by rcases reads with rfl | rfl <;> simp)
  exact ⟨state, h.readInterest state⟩

theorem Steady.writing (h : Steady c) (hstack : c.stack = .writeSocket :: stack) :
    c.request.state = .write ∧ c.interest = .epollout := by
  unfold Steady at h
  rw [hstack] at h
  have state := h.writing (by simp)
  exact ⟨state, h.writeInterest state⟩

theorem Steady.below_popped {frame : Frame} (h : Steady c) (hstack : c.stack = frame :: stack) :
    ∀ f ∈ stack, waits f = true := by
  unfold Steady at h
  rw [hstack] at h
  exact h.pop

theorem Steady.user (h : Steady c) (user : userRuns c.stack = true) (live : c.live = true) : Waiting c :=
  ⟨StackOk.user h user, live, by have := StackOk.once h; rw [live] at this; exact this⟩

section KeepAlive

variable (request : HttpRequestS) (directive : ℤ)

theorem setKeepAlive_flags : ∃ flags, hsRequestSetKeepAliveFlag request directive = { request with flags := flags } := by
  unfold hsRequestSetKeepAliveFlag
  split
  · exact ⟨_, rfl⟩
  split <;> exact ⟨_, rfl⟩

@[simp] theorem setKeepAlive_state : (hsRequestSetKeepAliveFlag request directive).state = request.state := by
  obtain ⟨flags, h⟩ := setKeepAlive_flags request directive
  rw [h]

@[simp] theorem setKeepAlive_keepsParser : (hsRequestSetKeepAliveFlag request directive).parser = request.parser := by
  obtain ⟨flags, h⟩ := setKeepAlive_flags request directive
  rw [h]

@[simp] theorem setKeepAlive_buffer : (hsRequestSetKeepAliveFlag request directive).buffer = request.buffer := by
  obtain ⟨flags, h⟩ := setKeepAlive_flags request directive
  rw [h]

end KeepAlive

/-- Every step keeps the stack in order, whatever user code calls. -/
theorem Steady.step (h : Steady c) (move : Move cfg c l c') : Steady c' := by
  -- a log entry other than the termination
  have quiet : ∀ (d : Conn) {event : Event}, terminations [event] = 0 →
      terminations (d.log event).events = terminations d.events := by
    intro d event hq
    simp [terminations_append, hq]
  have parse : ∀ {stack} parser buffer, c.stack = .parseBuffer :: stack →
      Waiting (parsed parser buffer (popped stack c)) :=
    fun _ _ hstack => (h.library hstack rfl).same rfl rfl rfl
  have push : ∀ {stack} parser buffer token, c.stack = .parseBuffer :: stack →
      Waiting (hsTokenArrayPush c.serial token (parsed parser buffer (popped stack c))) :=
    fun parser buffer token hstack => (parse parser buffer hstack).same rfl rfl (quiet _ rfl)
  have enter : ∀ {stack} env, c.stack = .readRequest :: stack → Waiting (entered cfg env (popped stack c)) :=
    fun env hstack => (h.library hstack rfl).same (by simp) (by simp) (by simp)
  have fill : ∀ {stack} env r, c.stack = .readRequest :: stack →
      Waiting (filled env r (entered cfg env (popped stack c))) :=
    fun env r hstack => (enter env hstack).same rfl rfl (quiet _ rfl)
  have write : ∀ {stack} call, c.stack = .writeSocket :: stack → Waiting (written call (popped stack c)) :=
    fun call hstack => (h.library hstack rfl).same rfl rfl (quiet _ rfl)
  have interest : ∀ {stack} env, c.stack = .readRequest :: stack →
      (entered cfg env (popped stack c)).interest = .epollin :=
    fun env hstack => (entered_interest _ _).trans (h.reading hstack (.inl rfl)).2
  cases move with
  | wakeRead live stack state =>
    have w := h.user (by rw [stack]; rfl) live
    unfold Steady
    simp only [push_stack, push_live, push_request, push_interest, push_events, live, state,
      h.readInterest state, w.once]
    exact stackOk_read w.stack (.inl rfl)
  | wakeWrite live stack state =>
    have w := h.user (by rw [stack]; rfl) live
    unfold Steady
    simp only [push_stack, push_live, push_request, push_interest, push_events, live, state,
      h.writeInterest state, w.once]
    exact stackOk_write w.stack
  | swallow => exact h
  | tick => exact h
  | expire live stack left =>
    have w := h.user (by rw [stack]; rfl) live
    exact Waiting.terminate (w.same rfl rfl rfl) h.readInterest h.writeInterest
  | readSkip hstack => exact (enter _ hstack).parse (entered_state _ _) (interest _ hstack)
  | readEof hstack =>
    refine (fill _ _ hstack).terminate (fun _ => interest _ hstack) fun hw => ?_
    exact absurd ((entered_state _ _).symm.trans hw) (by decide)
  | readMore hstack => exact (fill _ _ hstack).parse (entered_state _ _) (interest _ hstack)
  | execNone hstack =>
    obtain ⟨state, interest⟩ := h.reading hstack (.inr rfl)
    refine (parse _ _ hstack).steady (fun _ => interest) fun hw => ?_
    exact absurd (state.symm.trans hw) (by decide)
  | @execErr _ _ _ _ parser buffer _ _ hstack =>
    have w := (parse parser buffer hstack).log (rfl : terminations [.parseErr] = 0)
    exact Waiting.beginWrite (w.same rfl rfl (quiet _ rfl))
  | execLine hstack =>
    obtain ⟨state, interest⟩ := h.reading hstack (.inr rfl)
    exact (push _ _ _ hstack).parse state interest
  | @execHead _ _ _ token parser buffer hstack =>
    have w : Waiting (streamed (hsTokenArrayPush c.serial token (parsed parser buffer (popped _ c)))) :=
      (push parser buffer token hstack).same rfl rfl rfl
    exact w.invoke _ _
  | execSmall hstack => exact (push _ _ _ hstack).invoke _ _
  | execFinal hstack => exact ((push _ _ _ hstack).push rfl).invoke _ _
  | execPiece hstack => exact (push _ _ _ hstack).invoke _ _
  | writeMore hstack =>
    obtain ⟨state, interest⟩ := h.writing hstack
    refine Waiting.steady ((write _ hstack).same rfl rfl rfl) (fun hr => ?_) fun _ => interest
    exact absurd (state.symm.trans hr) (by decide)
  | writeErr hstack =>
    obtain ⟨state, interest⟩ := h.writing hstack
    refine Waiting.terminate ((write _ hstack).same rfl rfl rfl) (fun hr => ?_) fun _ => interest
    exact absurd (state.symm.trans hr) (by decide)
  | writeClose hstack =>
    obtain ⟨state, interest⟩ := h.writing hstack
    refine Waiting.terminate ((write _ hstack).same rfl rfl (quiet _ rfl)) (fun hr => ?_) fun _ => interest
    exact absurd (state.symm.trans hr) (by decide)
  | writeNext hstack => exact Waiting.beginRead ((write _ hstack).same rfl rfl (quiet _ rfl))
  | @writeChunk call _ hstack =>
    have w : Waiting (finished httpRequestTimeout (written call (popped _ c))) :=
      (write call hstack).same rfl rfl rfl
    exact w.invoke _ _
  | respond user live => exact Waiting.beginWrite ((h.user user live).same rfl rfl (quiet _ rfl))
  | readChunk user live => exact Waiting.beginRead ((h.user user live).same rfl rfl rfl)
  | freeBuffer => exact h
  | connection =>
    refine ⟨h.below, h.dead, ?_, ?_, ?_, ?_, h.once⟩
    all_goals simp only [setKeepAlive_state]
    · exact StackOk.reading h
    · exact StackOk.writing h
    · exact h.readInterest
    · exact h.writeInterest
  | @callbackReturn _ stack hstack => exact stackOk_wait (h.below_popped hstack) h.readInterest h.writeInterest h.once
  | @finalChunk serial stack hstack live =>
    have w : Waiting (popped stack c) :=
      ⟨h.below_popped hstack, live, by have := h.once; rw [live] at this; exact this⟩
    have pushed : Waiting (hsTokenArrayPush serial { type := .body } (popped stack c)) :=
      w.same rfl rfl (quiet _ rfl)
    exact pushed.invoke _ _

theorem steady_accepted (h : Accepted c) : Steady c := by
  obtain ⟨memused, rfl | ⟨respond, request, memused', -, rfl⟩⟩ := accepted_cases h
  all_goals have init : Waiting (hsRequestInit memused) := ⟨by simp [hsRequestInit], rfl, rfl⟩
  · exact init.beginRead
  · exact Waiting.beginWrite (init.same rfl rfl rfl)

theorem accepted_live (h : Accepted c) : c.live = true := by
  obtain ⟨memused, rfl | ⟨respond, request, memused', -, rfl⟩⟩ := accepted_cases h <;> rfl

/-- In every run of any connection, with any user code. -/
theorem steady_reached {ok : Conn → Label → Prop} (run : Runs.Reached (Connection.step cfg) Accepted ok c) :
    Steady c :=
  run.invariant (fun _ => steady_accepted) fun _ _ _ h _ hs => h.step (step_move hs)

end Stack

end HttpServer.ConnectionInvariant
