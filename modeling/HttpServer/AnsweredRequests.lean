import HttpServer.HeldRequests

set_option autoImplicit false

/-!
# Requests that were answered

A final piece of a streamed body has its callback called twice, the second time from the code below
the first call. Once a request is answered nothing more is done for it if the first of the two calls
only asks for more.
-/
namespace HttpServer.AnsweredRequests
open HttpServer.Parser ReadBuffer ParserCalls RequestUtil Respond Connection ConnectionSteps ConnectionInvariant
  HeldRequests

/-- The callback of a final piece is below on the stack. -/
def inFinal (stack : List Frame) : Bool :=
  stack.any fun frame => match frame with
    | .finalChunk _ => true
    | _ => false

/-- The calls that leave the request and its buffer alone. -/
def asksOnly : UserCall → Bool
  | .readChunk | .connection _ => true
  | _ => false

/-- In the callback of a final piece user code only asks for more. -/
def Finishing (c : Conn) (l : Label) : Prop :=
  ∀ call, l = .call call → inFinal c.stack = true → asksOnly call = true

instance (c : Conn) (l : Label) : Decidable (Finishing c l) :=
  match l with
  | .call call =>
    decidable_of_iff (inFinal c.stack = true → asksOnly call = true)
      ⟨fun h _ hl => by cases hl; exact h, fun h => h call rfl⟩
  | .socketEvent | .timerEvent | .read _ | .exec _ _ | .write _ | .callbackReturn | .finalChunk => isTrue nofun

/-- What `hsh_parser_exec` and user code leave while the callback of a final piece runs. -/
structure FinalPiece (live : Bool) (serial : ℕ) (state : HttpSession) (parser : HshParserS)
    (buffer : HshBufferS) (g : ℕ) : Prop where
  live_eq : live = true
  serial_eq : g = serial
  state_ne : state ≠ .write
  block : buffer.buf ≠ 0
  done : httpFlagCheck parser.flags flagDone = true
  more : buffer.index < buffer.length

/-- The parser and the buffer of a connection between two steps. -/
structure Kept (c : Conn) : Prop where
  parsed : c.live = true → c.request.state ≠ .write → c.request.buffer.buf ≠ 0 →
    CallRest c.request.parser c.request.buffer
  final : ∀ g, .finalChunk g ∈ c.stack →
    FinalPiece c.live c.serial c.request.state c.request.parser c.request.buffer g

section Kept

variable {cfg : Config} {c c' : Conn} {l : Label} {stack : List Frame}

theorem inFinal_of_mem {g : ℕ} (h : .finalChunk g ∈ stack) : inFinal stack = true :=
  List.any_eq_true.2 ⟨_, h, rfl⟩

/-- A call after the end of the body. -/
theorem hshParserExec_done {max : ℤ} {blk : NewBlock} {parser : HshParserS} {buffer : HshBufferS}
    (h : httpFlagCheck parser.flags flagDone = true) :
    hshParserExec max blk parser buffer = some (noneToken, parser, buffer) := by
  unfold hshParserExec
  rw [if_pos (.inl h)]

theorem finished_buf (timeout : ℤ) (c : Conn) : (finished timeout c).request.buffer.buf = 0 := by
  unfold finished hsBufferFree
  dsimp only
  split
  · rfl
  · rename_i h
    exact not_not.1 h

theorem entered_of_buf (cfg : Config) (env : ReadEnv) (block : c.request.buffer.buf ≠ 0) : entered cfg env c =
    { c with request := { c.request with state := .read, timeout := httpRequestTimeout } } := by
  unfold entered initBuffer
  exact if_neg block

theorem entered_rest (cfg : Config) (env : ReadEnv) (h : Kept c) (live : c.live = true) (state : c.request.state = .read) :
    CallRest (entered cfg env c).request.parser (entered cfg env c).request.buffer := by
  by_cases block : c.request.buffer.buf = 0
  · unfold entered initBuffer
    rw [if_pos block]
    exact @callRest_init env.bufBlk.1 env.bufBlk.2 cfg.httpRequestBufSize c.memused
      (cfg.initial_le.trans_lt cfg.max_lt)
  · rw [entered_of_buf cfg env block]
    exact h.parsed live (by rw [state]; decide) block

theorem Kept.exec (steady : Steady c) (buffered : Buffered c) (h : Kept c) {blk : Block} {token : HshTokenS}
    {parser : HshParserS} {buffer : HshBufferS} (hstack : c.stack = .parseBuffer :: stack)
    (hr : hshParserExec cfg.httpMaxRequestBufSize blk.1 c.request.parser c.request.buffer =
      some (token, parser, buffer)) :
    CallRest parser buffer ∧ (token = noneToken ∨ TokenLeft token (httpFlagCheck parser.flags flagDone)
      (0 ≤ buffer.index ∧ buffer.index < buffer.length)) ∧
      ∀ g, .finalChunk g ∈ stack → token = noneToken ∧ parser = c.request.parser ∧ buffer = c.request.buffer := by
  have live := (steady.library hstack rfl).live
  have state := (steady.reading hstack (.inr rfl)).1
  have block : c.request.buffer.buf ≠ 0 := by
    refine (buffered.reading live state).resolve_left ?_
    rw [hstack]
    simpa using (not_library (steady.below_popped hstack)).1
  obtain ⟨rest, left⟩ := hshParserExec_call (h.parsed live (by rw [state]; decide) block) blk.2 hr
  refine ⟨rest, left.imp_right fun h => h.2, fun g hg => ?_⟩
  have final := h.final g (by rw [hstack]; exact List.mem_cons_of_mem _ hg)
  rw [hshParserExec_done final.done] at hr
  cases hr
  exact ⟨rfl, rfl, rfl⟩

theorem final_of_cons {frame : Frame} {g : ℕ} (hg : .finalChunk g ∈ frame :: stack)
    (other : frame ≠ .finalChunk g) : .finalChunk g ∈ stack :=
  (List.mem_cons.1 hg).resolve_left fun heq => other heq.symm

theorem Kept.below (h : Kept c) {frame : Frame} {g : ℕ} (hstack : c.stack = frame :: stack)
    (hg : .finalChunk g ∈ stack) :
    FinalPiece c.live c.serial c.request.state c.request.parser c.request.buffer g :=
  h.final g (by rw [hstack]; exact List.mem_cons_of_mem _ hg)

theorem Kept.invoke (steady : Steady c) (buffered : Buffered c) (h : Kept c) {blk : Block} {token : HshTokenS}
    {parser : HshParserS} {buffer : HshBufferS} (hstack : c.stack = .parseBuffer :: stack)
    (hr : hshParserExec cfg.httpMaxRequestBufSize blk.1 c.request.parser c.request.buffer =
      some (token, parser, buffer)) (typed : token.type ≠ .none) (serial : ℕ) (cb : Callback) {d : Conn}
    (hparser : d.request.parser = parser) (hbuffer : d.request.buffer = buffer) (hd : d.stack = stack) :
    Kept (invoked serial cb d) := by
  obtain ⟨rest, -, same⟩ := h.exec steady buffered hstack hr
  refine ⟨fun _ _ _ => ?_, fun g hg => ?_⟩
  · change CallRest d.request.parser d.request.buffer
    rw [hparser, hbuffer]
    exact rest
  · have hg : .finalChunk g ∈ stack := hd ▸ final_of_cons hg nofun
    rw [(same g hg).1] at typed
    exact absurd rfl typed

/-- Asking for more in the callback of a final piece reads nothing. -/
theorem Kept.skips (h : Kept c) {env : ReadEnv} {g : ℕ} (hstack : c.stack = .readRequest :: stack)
    (hg : .finalChunk g ∈ stack) : entered cfg env (popped stack c) = { popped stack c with
        request := { c.request with state := .read, timeout := httpRequestTimeout } } ∧
      hsBufferRequiresRead (entered cfg env (popped stack c)).request.buffer = false := by
  have final := h.below hstack hg
  have same := entered_of_buf cfg env (c := popped stack c) final.block
  refine ⟨same, ?_⟩
  rw [same]
  exact decide_eq_false (not_le.2 final.more)

theorem Kept.of_none {d : Conn} (parsed : d.live = true → d.request.state ≠ .write → d.request.buffer.buf ≠ 0 →
    CallRest d.request.parser d.request.buffer) (none : ∀ g, .finalChunk g ∉ d.stack) : Kept d :=
  ⟨parsed, fun g hg => absurd hg (none g)⟩

theorem Kept.step (steady : Steady c) (held : Holding c) (buffered : Buffered c) (h : Kept c)
    (asked : Asked c l) (finishing : Finishing c l) (move : Move cfg c l c') : Kept c' := by
  have readFrame : ∀ {stack}, c.stack = .readRequest :: stack → c.live = true ∧ c.request.state = .read :=
    fun hstack => ⟨(steady.library hstack rfl).live, (steady.reading hstack (.inl rfl)).1⟩
  have noWrite : ∀ {stack}, c.stack = .writeSocket :: stack → ∀ g, .finalChunk g ∉ stack :=
    fun hstack g hg => (h.below hstack hg).state_ne (steady.writing hstack).1
  have quiet : ∀ {call}, l = .call call → asksOnly call = false → ∀ g, .finalChunk g ∉ c.stack := by
    intro call hl other g hg
    have := finishing call hl (inFinal_of_mem hg)
    rw [other] at this
    cases this
  cases move with
  | wakeRead live stack state =>
    refine .of_none h.parsed fun g hg => ?_
    rw [push_stack, stack] at hg
    simp at hg
  | wakeWrite live stack state =>
    refine .of_none h.parsed fun g hg => ?_
    rw [push_stack, stack] at hg
    simp at hg
  | swallow => exact h
  | tick => exact ⟨h.parsed, h.final⟩
  | expire live stack left =>
    refine .of_none (by rintro ⟨⟩) fun g hg => ?_
    change .finalChunk g ∈ c.stack at hg
    rw [stack] at hg
    cases hg
  | @readSkip env stack hstack requires =>
    obtain ⟨live, state⟩ := readFrame hstack
    refine ⟨fun _ _ _ => ?_, fun g hg => ?_⟩
    · exact entered_rest cfg env (c := popped stack c) ⟨h.parsed, fun g hg => h.below hstack hg⟩ live state
    · rw [push_stack, entered_stack] at hg
      have hg := final_of_cons hg (by rintro ⟨⟩)
      obtain ⟨live, serial, -, block, done, more⟩ := h.below hstack hg
      simp only [push_live, push_serial, push_request, (h.skips hstack hg).1]
      exact ⟨live, serial, by simp, block, done, more⟩
  | @readEof env stack _ hstack requires =>
    refine .of_none (by rintro ⟨⟩) fun g hg => ?_
    have hg : .finalChunk g ∈ stack := by simpa [hsRequestTerminateConnection, filled, popped] using hg
    rw [(h.skips hstack hg).2] at requires
    cases requires
  | @readMore env stack r hstack requires hr =>
    obtain ⟨live, state⟩ := readFrame hstack
    refine .of_none (fun _ _ _ => ?_) fun g hg => ?_
    · have rest := entered_rest cfg env (c := popped stack c)
        ⟨h.parsed, fun g hg => h.below hstack hg⟩ live state
      refine (rest.read (by have := cfg.initial_pos; have := cfg.initial_le; omega) cfg.max_lt ?_ hr).1
      intro call hcall
      obtain ⟨call, -, rfl⟩ := List.mem_map.1 hcall
      exact call.2
    · rw [push_stack] at hg
      have hg : .finalChunk g ∈ stack := by simpa [filled, popped] using final_of_cons hg (by rintro ⟨⟩)
      rw [(h.skips hstack hg).2] at requires
      cases requires
  | execNone hstack hr type =>
    obtain ⟨rest, -, same⟩ := h.exec steady buffered hstack hr
    refine ⟨fun _ _ _ => rest, fun g hg => ?_⟩
    obtain ⟨-, rfl, rfl⟩ := same g hg
    exact h.below hstack hg
  | execErr hstack hr type =>
    obtain ⟨-, rfl | left, -⟩ := h.exec steady buffered hstack hr
    · cases type
    · exact absurd type left.2.1
  | execLine hstack hr type =>
    obtain ⟨rest, -, same⟩ := h.exec steady buffered hstack hr
    refine .of_none (fun _ _ _ => rest) fun g hg => ?_
    have hg := final_of_cons hg (by rintro ⟨⟩)
    rw [(same g hg).1] at type
    exact type.1 rfl
  | execHead hstack hr type => exact h.invoke steady buffered hstack hr (by rw [type]; decide) _ _ rfl rfl rfl
  | execSmall hstack hr type => exact h.invoke steady buffered hstack hr (by rw [type]; decide) _ _ rfl rfl rfl
  | execFinal hstack hr type small final len =>
    obtain ⟨rest, left, same⟩ := h.exec steady buffered hstack hr
    have live := (steady.library hstack rfl).live
    refine ⟨fun _ _ _ => rest, fun g hg => ?_⟩
    rcases List.mem_cons.1 (final_of_cons hg (by rintro ⟨⟩)) with heq | hg
    · cases heq
      rcases left with rfl | left
      · cases type
      obtain ⟨done, more⟩ := left.2.2 type small final
      exact ⟨live, rfl, by simp [invoked], rest.exit.buf_pos.ne', done, (more len).2⟩
    · rw [(same g hg).1] at type
      cases type
  | execPiece hstack hr type => exact h.invoke steady buffered hstack hr (by rw [type]; decide) _ _ rfl rfl rfl
  | writeMore hstack =>
    refine .of_none (fun _ state => ?_) (noWrite hstack)
    exact absurd (steady.writing hstack).1 state
  | writeErr hstack => exact .of_none (by rintro ⟨⟩) (noWrite hstack)
  | writeClose hstack => exact .of_none (by rintro ⟨⟩) (noWrite hstack)
  | writeNext hstack =>
    refine .of_none (fun _ _ block => absurd (finished_buf httpKeepAliveTimeout _) block) fun g hg => ?_
    exact noWrite hstack g (final_of_cons hg (by rintro ⟨⟩))
  | writeChunk hstack =>
    refine .of_none (fun _ _ block => absurd (finished_buf httpRequestTimeout _) block) fun g hg => ?_
    exact noWrite hstack g (final_of_cons hg (by rintro ⟨⟩))
  | respond user live hcall =>
    refine .of_none (fun _ state => absurd rfl state) fun g hg => ?_
    refine quiet rfl ?_ g (final_of_cons hg (by rintro ⟨⟩))
    rename_i call _ _ _ _ _
    cases call <;> first | rfl | cases hcall
  | readChunk user live =>
    have state := held.1 (asked _ rfl)
    refine ⟨fun _ _ => h.parsed live (by rw [state]; decide), fun g hg => ?_⟩
    obtain ⟨live, serial, -, block, done, more⟩ := h.final g (final_of_cons hg (by rintro ⟨⟩))
    exact ⟨live, serial, by simp [hsRequestBeginRead], block, done, more⟩
  | freeBuffer =>
    exact .of_none (fun _ _ block => absurd (finished_buf c.request.timeout _) block) (quiet rfl rfl)
  | connection =>
    refine ⟨?_, ?_⟩
    · simpa using h.parsed
    · simpa using h.final
  | callbackReturn hstack => exact ⟨h.parsed, fun g hg => h.below hstack hg⟩
  | finalChunk hstack live =>
    obtain ⟨-, -, state, block, -, -⟩ := h.final _ (by rw [hstack]; exact List.mem_cons_self)
    refine ⟨fun _ _ _ => h.parsed live state block, fun g hg => ?_⟩
    obtain ⟨live, serial, -, block, done, more⟩ := h.below hstack (final_of_cons hg (by rintro ⟨⟩))
    exact ⟨live, serial, by simp [invoked], block, done, more⟩

theorem kept_accepted (h : Accepted c) : Kept c := by
  obtain ⟨memused, rfl | ⟨respond, request, memused', -, rfl⟩⟩ := accepted_cases h
  · refine .of_none (fun _ _ block => absurd rfl block) fun g hg => ?_
    simp [hsRequestBeginRead, hsRequestInit] at hg
  · refine .of_none (fun _ state => absurd rfl state) fun g hg => ?_
    simp [hsRequestBeginWrite, answered, hsRequestInit] at hg

end Kept

section Settled

/-- What may come after an event: nothing after the end of the connection, and no token and no
    callback for a request whose response was written. -/
def mayFollow : Event → Event → Bool
  | .terminate, _ => false
  | .responded g, .push serial _ => serial ≠ g
  | .responded g, .invoke serial _ _ => serial ≠ g
  | _, _ => true

def Settled (events : List Event) : Prop := events.Pairwise fun e x => mayFollow e x = true

instance (events : List Event) : Decidable (Settled events) :=
  inferInstanceAs (Decidable (events.Pairwise _))

def about : Event → Option ℕ
  | .push serial _ | .invoke serial _ _ => some serial
  | _ => none

variable {cfg : Config} {c c' d : Conn} {l : Label} {stack : List Frame} {events : List Event} {event : Event}

theorem not_terminated (h : terminations events = 0) : .terminate ∉ events := by
  intro hmem
  obtain ⟨before, after, rfl⟩ := List.append_of_mem hmem
  simp [terminations_append, terminations] at h

theorem Settled.append (h : Settled events) (once : terminations events = 0)
    (other : ∀ g, .responded g ∈ events → about event ≠ some g) : Settled (events ++ [event]) := by
  refine List.pairwise_append.2 ⟨h, List.pairwise_singleton _ _, fun e he x hx => ?_⟩
  rw [List.mem_singleton.1 hx]
  cases e with
  | terminate => exact absurd he (not_terminated once)
  | responded g =>
    have := other g he
    cases event <;> first | rfl | simpa [mayFollow, about] using this
  | _ => rfl

/-- A live connection whose current request was not answered. -/
structure Unanswered (c : Conn) : Prop where
  settled : Settled c.events
  once : terminations c.events = 0
  older : ∀ g, .responded g ∈ c.events → g < c.serial

/-- The requests that were answered come before the current one, unless its buffer is gone. -/
structure Answered (c : Conn) : Prop where
  settled : Settled c.events
  older : ∀ g, .responded g ∈ c.events → g < c.serial ∨
    g = c.serial ∧ (c.live = false ∨ .readRequest ∈ c.stack ∧ c.request.buffer.buf = 0)

theorem Unanswered.answered (h : Unanswered c) : Answered c := ⟨h.settled, fun g hg => .inl (h.older g hg)⟩

theorem Unanswered.same (h : Unanswered c) (events : d.events = c.events) (serial : d.serial = c.serial) :
    Unanswered d := by
  refine ⟨events ▸ h.settled, events ▸ h.once, fun g hg => ?_⟩
  rw [serial]
  exact h.older g (events ▸ hg)

theorem Unanswered.log (h : Unanswered c) (once : terminations [event] = 0) (quiet : ∀ g, event ≠ .responded g)
    (current : ∀ g, about event = some g → g = c.serial) : Unanswered (c.log event) := by
  refine ⟨h.settled.append h.once fun g hg habout => ?_, ?_, fun g hg => ?_⟩
  · exact absurd (current g habout) (h.older g hg).ne
  · rw [log_events, terminations_append, h.once, once]
  · refine h.older g ((List.mem_append.1 hg).resolve_right fun hg => ?_)
    exact quiet g (List.mem_singleton.1 hg).symm

theorem Unanswered.invoke (h : Unanswered c) (cb : Callback) : Unanswered (invoked c.serial cb c) := by
  refine Unanswered.log (c := { c with request := { c.request with state := .nop }, stack := .callback cb :: c.stack })
    (h.same rfl rfl) rfl nofun ?_
  intro g hg
  cases hg
  rfl

theorem Unanswered.push (h : Unanswered c) (token : HshTokenS) : Unanswered (hsTokenArrayPush c.serial token c) := by
  refine Unanswered.log (c := { c with request := { c.request with tokens := c.request.tokens ++ [token] } })
    (h.same rfl rfl) rfl nofun ?_
  intro g hg
  cases hg
  rfl

theorem Unanswered.beginRead (h : Unanswered c) : Unanswered (hsRequestBeginRead c) :=
  (h.log (rfl : terminations [.watch .epollin] = 0) nofun nofun).same rfl rfl

theorem Unanswered.beginWrite (h : Unanswered c) : Unanswered (hsRequestBeginWrite c) :=
  (h.log (rfl : terminations [.watch .epollout] = 0) nofun nofun).same rfl rfl

theorem answered_terminate (settled : Settled c.events) (once : terminations c.events = 0)
    (older : ∀ g, .responded g ∈ c.events → g ≤ c.serial) : Answered (hsRequestTerminateConnection c) := by
  refine ⟨settled.append once nofun, fun g hg => ?_⟩
  have hg := older g ((List.mem_append.1 hg).resolve_right (by simp))
  exact hg.lt_or_eq.imp_right fun heq => ⟨heq, .inl rfl⟩

/-- At any other place of the code than a read, the current request was not answered. -/
theorem Answered.unanswered (steady : Steady c) (h : Answered c) (live : c.live = true)
    (place : .readRequest ∉ c.stack) : Unanswered c := by
  refine ⟨h.settled, ?_, fun g hg => ?_⟩
  · have := steady.once
    rw [live] at this
    exact this
  · refine (h.older g hg).resolve_right ?_
    rintro ⟨-, dead | ⟨reads, -⟩⟩
    · exact absurd (live.symm.trans dead) (by decide)
    · exact place reads

theorem entered_unanswered (cfg : Config) (env : ReadEnv) (steady : Steady c) (h : Answered c)
    (hstack : c.stack = .readRequest :: stack) : Unanswered (entered cfg env (popped stack c)) := by
  have live := (steady.library hstack rfl).live
  have once := (steady.library hstack rfl).once
  refine ⟨by simpa [popped] using h.settled, by simpa using once, fun g hg => ?_⟩
  have hg := h.older g (by simpa [popped] using hg)
  unfold entered initBuffer
  split
  · rcases hg with hg | ⟨rfl, -⟩
    · exact hg.trans (Nat.lt_succ_self _)
    · exact Nat.lt_succ_self _
  · rename_i block
    refine hg.resolve_right ?_
    rintro ⟨-, dead | ⟨-, none⟩⟩
    · exact absurd (live.symm.trans dead) (by decide)
    · exact block none

theorem Answered.step (steady : Steady c) (h : Answered c) (kept : Kept c) (move : Move cfg c l c') :
    Answered c' := by
  -- the innermost place is one of the library, and no read
  have alive : ∀ {frame stack}, c.stack = frame :: stack → waits frame = false → frame ≠ .readRequest →
      Unanswered c := by
    intro frame stack hstack library other
    refine h.unanswered steady (steady.library hstack library).live ?_
    rw [hstack]
    simpa [other.symm] using (not_library (steady.below_popped hstack)).1
  have userRun : userRuns c.stack = true → c.live = true → Unanswered c :=
    fun user live => h.unanswered steady live (not_library (steady.user user live).stack).1
  have parse : ∀ {stack} parser buffer, c.stack = .parseBuffer :: stack →
      Unanswered (parsed parser buffer (popped stack c)) :=
    fun parser buffer hstack => (alive hstack rfl nofun).same rfl rfl
  have write : ∀ {stack} call, c.stack = .writeSocket :: stack → Unanswered (written call (popped stack c)) := by
    intro stack call hstack
    have w : Unanswered (c.log (.write call.bytes)) := (alive hstack rfl nofun).log rfl nofun nofun
    exact w.same rfl rfl
  have fill : ∀ {stack} env r, c.stack = .readRequest :: stack →
      Unanswered (filled env r (entered cfg env (popped stack c))) := by
    intro stack env r hstack
    have w := (entered_unanswered cfg env steady h hstack).log
      (rfl : terminations [.read (env.readCalls.map ReadCall.result)] = 0) nofun nofun
    exact w.same rfl rfl
  -- the response was written completely
  have respond : ∀ {stack} call, c.stack = .writeSocket :: stack →
      let events := (written call (popped stack c)).events ++ [.responded c.serial]
      Settled events ∧ terminations events = 0 ∧ ∀ g, .responded g ∈ events → g ≤ c.serial := by
    intro stack call hstack
    have w : Unanswered (written call (popped stack c)) := write call hstack
    refine ⟨w.settled.append w.once nofun, by rw [terminations_append, w.once]; rfl, fun g hg => ?_⟩
    rcases List.mem_append.1 hg with hg | hg
    · exact (w.older g hg).le
    · cases List.mem_singleton.1 hg
      exact le_refl _
  cases move with
  | wakeRead live stack => exact Unanswered.answered ((userRun (by rw [stack]; rfl) live).same rfl rfl)
  | wakeWrite live stack => exact Unanswered.answered ((userRun (by rw [stack]; rfl) live).same rfl rfl)
  | swallow => exact h
  | tick => exact ⟨h.settled, h.older⟩
  | expire live stack =>
    have w := userRun (by rw [stack]; rfl) live
    exact answered_terminate w.settled w.once fun g hg => (w.older g hg).le
  | readSkip hstack => exact Unanswered.answered ((entered_unanswered cfg _ steady h hstack).same rfl rfl)
  | @readEof env _ r hstack =>
    have w := fill env r hstack
    exact answered_terminate w.settled w.once fun g hg => (w.older g hg).le
  | readMore hstack => exact Unanswered.answered ((fill _ _ hstack).same rfl rfl)
  | execNone hstack => exact Unanswered.answered (parse _ _ hstack)
  | @execErr _ _ _ _ parser buffer request memused hstack =>
    have w := (parse parser buffer hstack).log (rfl : terminations [.parseErr] = 0) nofun nofun
    have w := w.log (rfl : terminations [.response request] = 0) nofun nofun
    exact Unanswered.answered (Unanswered.beginWrite (w.same rfl rfl))
  | execLine hstack => exact Unanswered.answered (((parse _ _ hstack).push _).same rfl rfl)
  | @execHead _ _ stack token parser buffer hstack =>
    have w : Unanswered (streamed (hsTokenArrayPush c.serial token (parsed parser buffer (popped stack c)))) :=
      ((parse parser buffer hstack).push token).same rfl rfl
    exact (w.invoke _).answered
  | execSmall hstack => exact (((parse _ _ hstack).push _).invoke _).answered
  | @execFinal _ _ stack token parser buffer hstack =>
    have w : Unanswered ((hsTokenArrayPush c.serial token (parsed parser buffer (popped stack c))).push
        (.finalChunk c.serial)) := ((parse parser buffer hstack).push token).same rfl rfl
    exact (w.invoke _).answered
  | execPiece hstack => exact (((parse _ _ hstack).push _).invoke _).answered
  | writeMore hstack => exact Unanswered.answered ((write _ hstack).same rfl rfl)
  | @writeErr call _ hstack =>
    have w := write call hstack
    exact answered_terminate w.settled w.once fun g hg => (w.older g hg).le
  | @writeClose call _ hstack =>
    obtain ⟨settled, once, older⟩ := respond call hstack
    exact answered_terminate settled once older
  | @writeNext call _ hstack =>
    obtain ⟨settled, once, older⟩ := respond call hstack
    refine ⟨settled.append once nofun, fun g hg => ?_⟩
    have hg := older g ((List.mem_append.1 hg).resolve_right (by simp))
    refine hg.lt_or_eq.imp_right fun heq => ⟨heq, .inr ⟨?_, finished_buf httpKeepAliveTimeout _⟩⟩
    simp [hsRequestBeginRead]
  | @writeChunk call stack hstack =>
    have w : Unanswered (finished httpRequestTimeout (written call (popped stack c))) :=
      (write call hstack).same rfl rfl
    exact (w.invoke _).answered
  | @respond _ _ _ request memused user live =>
    have w := (userRun user live).log (rfl : terminations [.response request] = 0) nofun nofun
    exact Unanswered.answered (Unanswered.beginWrite (w.same rfl rfl))
  | readChunk user live => exact Unanswered.answered (Unanswered.beginRead ((userRun user live).same rfl rfl))
  | freeBuffer user live => exact Unanswered.answered ((userRun user live).same rfl rfl)
  | connection user live => exact Unanswered.answered ((userRun user live).same rfl rfl)
  | callbackReturn hstack =>
    refine ⟨h.settled, fun g hg => ?_⟩
    have older := h.older g hg
    rw [hstack] at older
    simpa [popped] using older
  | @finalChunk serial stack hstack live =>
    obtain ⟨-, rfl, -, -, -, -⟩ := kept.final serial (by rw [hstack]; exact List.mem_cons_self)
    have place : .readRequest ∉ c.stack := by
      rw [hstack]
      simpa using (not_library (steady.below_popped hstack)).1
    have w : Unanswered (popped stack c) := (h.unanswered steady live place).same rfl rfl
    exact ((w.push { type := .body }).invoke _).answered

theorem answered_accepted (h : Accepted c) : Answered c := by
  obtain ⟨memused, rfl | ⟨respond, request, memused', -, rfl⟩⟩ := accepted_cases h
  all_goals have init : Unanswered (hsRequestInit memused) := ⟨List.pairwise_singleton _ _, rfl, by simp [hsRequestInit]⟩
  · exact init.beginRead.answered
  · have w := init.log (rfl : terminations [.response request] = 0) (by rintro _ ⟨⟩) (by rintro _ ⟨⟩)
    exact Unanswered.answered (Unanswered.beginWrite (w.same rfl rfl))

end Settled

section Upload

variable {cfg : Config} {c c' : Conn} {l : Label}

/-- What a run keeps in which user code makes its calls while they are outstanding, and only asks for more
    in the callback of a final piece. -/
structure Orderly (c : Conn) : Prop extends Regular c where
  buffered : Buffered c
  kept : Kept c

theorem orderly_accepted (h : Accepted c) : Orderly c := ⟨regular_accepted h, buffered_accepted h, kept_accepted h⟩

theorem Orderly.step (h : Orderly c) (asked : Asked c l) (finishing : Finishing c l) (move : Move cfg c l c') :
    Orderly c' :=
  ⟨h.toRegular.step move, h.buffered.step h.steady h.held asked move,
    h.kept.step h.steady h.held h.buffered asked finishing move⟩

/-- Together with what has happened to the requests that were answered. -/
structure AnsweredOnce (c : Conn) : Prop extends Orderly c where
  answered : Answered c

theorem answeredOnce_accepted (h : Accepted c) : AnsweredOnce c := ⟨orderly_accepted h, answered_accepted h⟩

theorem AnsweredOnce.step (h : AnsweredOnce c) (asked : Asked c l) (finishing : Finishing c l)
    (move : Move cfg c l c') : AnsweredOnce c' :=
  ⟨h.toOrderly.step asked finishing move, h.answered.step h.steady h.kept move⟩

/-- In every run in which user code makes its calls while they are outstanding, and only asks for
    more in the callback of a final piece: nothing is done for an answered request, and after the
    end of the connection only callbacks are left to return. -/
theorem nothing_after_answer
    (run : Runs.Reached (Connection.step cfg) Accepted (fun c l => Asked c l ∧ Finishing c l) c) :
    Settled c.events ∧ (c.live = false → ∀ f ∈ c.stack, ∃ cb, f = .callback cb) := by
  have once : AnsweredOnce c := run.invariant (fun _ => answeredOnce_accepted)
    fun _ _ _ h ok hs => h.step ok.1 ok.2 (step_move hs)
  obtain ⟨⟨⟨steady, -⟩, -, kept⟩, answered⟩ := once
  refine ⟨answered.settled, fun dead f hf => ?_⟩
  have waiting := steady.dead dead f hf
  cases f with
  | callback cb => exact ⟨cb, rfl⟩
  | finalChunk g => exact absurd (dead.symm.trans (kept.final g hf).live_eq) (by decide)
  | _ => cases waiting

/-- A server whose buffer does not grow. -/
def streamConfig : Config := { httpRequestBufSize := 64, httpMaxRequestBufSize := 64 }

/-- A body of 40 bytes comes in two pieces, and the callback of the second runs. -/
def upload : List Label :=
  readsOnce (.bytes (ascii "POST / HTTP/1.1\r\nContent-Length: 40\r\n\r\n" ++ List.replicate 25 97)) :: execs 6 ++
    [.call .readChunk, readsOnce .fail] ++ execs 1 ++
    [.call .readChunk, readsOnce (.bytes (List.replicate 15 97))] ++ execs 1

def answer : List Label := [.call (.respond {} sessionEnv), .write ⟨98, false⟩, readsOnce .fail] ++ execs 1

theorem nothing_after_answer_upload : ∃ c,
    Runs.Reached (Connection.step streamConfig) Accepted (fun c l => Asked c l ∧ Finishing c l) c ∧
      c.serial = 2 ∧ Settled c.events := by
  have run : ((Runs.exec (Runs.guarded (Connection.step streamConfig) fun c l => Asked c l ∧ Finishing c l)
      (upload ++ [.call .readChunk, readsOnce .fail] ++ execs 1 ++ [.callbackReturn, .finalChunk] ++ answer)
      accepted).any fun c => decide (c.serial = 2)) = true := by
    decide +kernel
  obtain ⟨c, hc, hs⟩ := (Option.any_eq_true _ _).1 run
  rw [decide_eq_true_eq] at hs
  have reached : Runs.Reached (Connection.step streamConfig) Accepted
      (fun c l => Asked c l ∧ Finishing c l) c := .guarded (.init accepted_accepted) hc
  exact ⟨c, reached, hs, (nothing_after_answer reached).1⟩

/-- The callback of the final piece responds, and is called again after the response. -/
theorem callback_after_answer : ∃ c,
    Runs.Reached (Connection.step streamConfig) Accepted Asked c ∧ ¬ Settled c.events := by
  have run : ((Runs.exec (Runs.guarded (Connection.step streamConfig) Asked)
      (upload ++ answer ++ [.callbackReturn, .finalChunk]) accepted).any
        fun c => decide (¬ Settled c.events)) = true := by
    decide +kernel
  obtain ⟨c, hc, hs⟩ := (Option.any_eq_true _ _).1 run
  rw [decide_eq_true_eq] at hs
  exact ⟨c, .guarded (.init accepted_accepted) hc, hs⟩

end Upload

end HttpServer.AnsweredRequests
