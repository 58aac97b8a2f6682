import HttpServer.FirstRequests

set_option autoImplicit false

/-!
# The pieces of bodies that user code is given

A run of the parser hands over the texts of its body tokens, as the buffer has them when the token is
returned. The callbacks of every request of a connection are given these texts, and an empty one behind the
last piece of a large body.
-/
namespace HttpServer.GivenPieces
open HttpServer.Parser ReadBuffer ParserInvariant ParserRuns HeadMachine HeadRuns RequestRuns ParserCalls RequestUtil
  Respond Connection ConnectionSteps ConnectionInvariant HeldRequests AnsweredRequests ServedRequests FirstRequests

section Pieces

variable {token : HshTokenS} {buffer : HshBufferS}

def tokenText (buffer : HshBufferS) (token : HshTokenS) : List UInt8 := slice buffer.data token.index token.len.toNat

/-- The pieces that a call hands over. -/
def handed (buffer : HshBufferS) (token : HshTokenS) : List (List UInt8) :=
  if token.type = .body then [tokenText buffer token] else []

theorem handed_other (other : token.type ≠ .body) : handed buffer token = [] := if_neg other

theorem handed_piece (typed : token.type = .body) : handed buffer token = [tokenText buffer token] := if_pos typed

/-- A run of the parser over one request, which has handed over `pieces`. -/
inductive Fed (ok : HshParserS → HshBufferS → NewBlock → Prop) (initial max : ℤ) :
    List UInt8 → List HshTokenS → List (List UInt8) → HshParserS → HshBufferS → Prop
  | init {blk : NewBlock} (memused : ℤ) (hblk : BlockOk blk) :
      Fed ok initial max [] [] [] hshParserInit (hsBufferInit blk initial memused).1
  | read {input : List UInt8} {tokens : List HshTokenS} {pieces : List (List UInt8)} {parser : HshParserS}
      {buffer : HshBufferS} {calls : List ReadCall} {memused : ℤ} {r : ReadReturn}
      (run : Fed ok initial max input tokens pieces parser buffer) (hblk : ∀ call ∈ calls, BlockOk call.blk)
      (hr : hsReadIntoBuffer max calls buffer memused = some r) :
      Fed ok initial max (input ++ received calls) tokens pieces parser r.buffer
  | exec {input : List UInt8} {tokens : List HshTokenS} {pieces : List (List UInt8)} {parser parser' : HshParserS}
      {buffer buffer' : HshBufferS} {blk : NewBlock} {token : HshTokenS}
      (run : Fed ok initial max input tokens pieces parser buffer) (hblk : BlockOk blk) (hok : ok parser buffer blk)
      (hr : hshParserExec max blk parser buffer = some (token, parser', buffer')) :
      Fed ok initial max input (tokens ++ emitted token) (pieces ++ handed buffer' token) parser' buffer'

theorem Fed.run {ok : HshParserS → HshBufferS → NewBlock → Prop} {initial max : ℤ} {input : List UInt8}
    {tokens : List HshTokenS} {pieces : List (List UInt8)} {parser : HshParserS}
    (fed : Fed ok initial max input tokens pieces parser buffer) : ParserRun ok initial max input tokens parser buffer := by
  induction fed with
  | init memused hblk => exact .init memused hblk
  | read _ hblk hr ih => exact ih.read hblk hr
  | exec _ hblk hok hr ih => exact ih.exec hblk hok hr

theorem Fed.body {ok : HshParserS → HshBufferS → NewBlock → Prop} {initial max : ℤ} {input : List UInt8}
    {tokens : List HshTokenS} {pieces : List (List UInt8)} {parser : HshParserS}
    (fed : Fed ok initial max input tokens pieces parser buffer) (some_piece : pieces ≠ []) :
    ∃ token ∈ tokens, token.type = .body := by
  induction fed with
  | init => exact absurd rfl some_piece
  | read _ _ _ ih => exact ih some_piece
  | @exec _ _ pieces _ _ _ _ _ token _ _ _ _ ih =>
    by_cases typed : token.type = .body
    · refine ⟨token, ?_, typed⟩
      rw [emitted_of_type (by rw [typed]; decide)]
      exact List.mem_append_right _ List.mem_cons_self
    · rw [handed_other typed, List.append_nil] at some_piece
      obtain ⟨old, mem, body⟩ := ih some_piece
      exact ⟨old, List.mem_append_left _ mem, body⟩

end Pieces

section Events

variable {events : List Event} {event : Event} {request : HttpRequestS} {tokens : List HshTokenS} {token : HshTokenS}
  {bytes : List UInt8} {pieces : List (List UInt8)}

def arrivingStep (bytes : List UInt8) : Event → List UInt8
  | .read results => bytes ++ results.flatMap ReadResult.received
  | .response _ => []
  | _ => bytes

/-- The bytes that the reads returned since the last response was started. -/
def arriving (events : List Event) : List UInt8 := events.foldl arrivingStep []

/-- The bytes that `hs_request_chunk` denotes, if the last token is of a body. -/
def lastPiece (request : HttpRequestS) : List (List UInt8) :=
  if request.tokens.getLast?.any fun token => token.type = .body then
    ((hsRequestChunk request).map fun str =>
      slice request.buffer.data (str.buf - request.buffer.buf) str.len.toNat).toList
  else []

def givenStep (pieces : List (List UInt8)) : Event → List (List UInt8)
  | .invoke _ _ request => pieces ++ lastPiece request
  | .response _ => []
  | _ => pieces

/-- The pieces of a body that the callbacks were given since then. -/
def given (events : List Event) : List (List UInt8) := events.foldl givenStep []

theorem arriving_snoc (events : List Event) (event : Event) :
    arriving (events ++ [event]) = arrivingStep (arriving events) event := List.foldl_concat _ _ _ _

theorem given_snoc (events : List Event) (event : Event) :
    given (events ++ [event]) = givenStep (given events) event := List.foldl_concat _ _ _ _

/-- An event that is neither a read nor a callback nor a response. -/
def plain : Event → Bool
  | .read _ | .invoke _ _ _ | .response _ => false
  | _ => true

theorem plain_same (h : plain event = true) :
    arriving (events ++ [event]) = arriving events ∧ given (events ++ [event]) = given events := by
  rw [arriving_snoc, given_snoc]
  cases event <;> first | exact ⟨rfl, rfl⟩ | cases h

theorem plain_twice {e f : Event} (he : plain e = true) (hf : plain f = true) :
    arriving (events ++ [e] ++ [f]) = arriving events ∧ given (events ++ [e] ++ [f]) = given events := by
  obtain ⟨bytes, shown⟩ := @plain_same events e he
  obtain ⟨bytes', shown'⟩ := @plain_same (events ++ [e]) f hf
  exact ⟨bytes'.trans bytes, shown'.trans shown⟩

theorem plain_thrice {e f g : Event} (he : plain e = true) (hf : plain f = true) (hg : plain g = true) :
    arriving (events ++ [e] ++ [f] ++ [g]) = arriving events ∧ given (events ++ [e] ++ [f] ++ [g]) = given events := by
  obtain ⟨bytes, shown⟩ := @plain_same (events ++ [e] ++ [f]) g hg
  obtain ⟨bytes', shown'⟩ := @plain_twice events e f he hf
  exact ⟨bytes.trans bytes', shown.trans shown'⟩

theorem lastPiece_eq (last : request.tokens = tokens ++ [token]) : lastPiece request = handed request.buffer token := by
  have getLast : request.tokens.getLast? = some token := by
    rw [last, List.getLast?_concat]
  unfold lastPiece hsRequestChunk handed
  rw [getLast]
  by_cases typed : token.type = .body
  · rw [if_pos typed, if_pos (by simpa using typed)]
    change [slice request.buffer.data (request.buffer.buf + token.index - request.buffer.buf) token.len.toNat] = _
    rw [add_sub_cancel_left]
    rfl
  · rw [if_neg typed, if_neg (by simpa using typed)]

end Events

section Frames

variable {frame : Frame} {stack : List Frame} {g : ℕ}

def isFinal : Frame → Bool
  | .finalChunk _ => true
  | _ => false

/-- The final pieces whose empty piece is still to come. -/
def finals (stack : List Frame) : ℕ := stack.countP isFinal

theorem finals_cons (h : isFinal frame = false) : finals (frame :: stack) = finals stack := by
  unfold finals
  rw [List.countP_cons_of_neg (by rw [h]; decide)]

theorem finals_final : finals (.finalChunk g :: stack) = finals stack + 1 := List.countP_cons_of_pos rfl

theorem final_of_pos (h : finals stack ≠ 0) : ∃ g, .finalChunk g ∈ stack := by
  obtain ⟨frame, mem, final⟩ := List.countP_pos_iff.1 (Nat.pos_of_ne_zero h)
  cases frame with
  | finalChunk g => exact ⟨g, mem⟩
  | _ => cases final

theorem finals_le {frames : List Frame} (h : stack = frame :: frames) : finals frames ≤ finals stack := by
  rw [h]
  cases final : isFinal frame with
  | true =>
    unfold finals
    rw [List.countP_cons_of_pos final]
    exact Nat.le_succ _
  | false => exact (finals_cons final).ge

end Frames

section Steps

variable {ok : HshParserS → HshBufferS → NewBlock → Prop} {cfg : Config} {c c' d : Conn} {l : Label} {stack : List Frame} {tokens : List HshTokenS}
  {pieces : List (List UInt8)}

/-- The last piece has bytes. -/
def Lasts (pieces : List (List UInt8)) : Prop := ∃ front piece, pieces = front ++ [piece] ∧ piece ≠ []

/-- What the callbacks were given: the pieces that the parser returned, and the empty one after the last. -/
def Told (pieces : List (List UInt8)) (parser : HshParserS) (shown : List (List UInt8)) : Prop :=
  shown = pieces ∨ shown = pieces ++ [[]] ∧ Lasts pieces ∧ httpFlagCheck parser.flags flagDone = true

/-- The same, while the callback that the empty piece is for may still be to come. -/
def Shown (pieces : List (List UInt8)) (parser : HshParserS) (stack : List Frame) (shown : List (List UInt8)) : Prop :=
  shown = pieces ∧ (finals stack ≠ 0 → Lasts pieces) ∨
    shown = pieces ++ [[]] ∧ Lasts pieces ∧ finals stack = 0 ∧ httpFlagCheck parser.flags flagDone = true

/-- A request whose parser and buffer are those of a run. Its tokens follow those of earlier requests, and one that was
    handed over has come to its body at least. -/
structure Standing (ok : HshParserS → HshBufferS → NewBlock → Prop) (cfg : Config) (bytes : List UInt8)
    (request : HttpRequestS) (tokens : List HshTokenS) (pieces : List (List UInt8)) : Prop where
  fed : Fed ok cfg.httpRequestBufSize cfg.httpMaxRequestBufSize bytes tokens pieces request.parser request.buffer
  behind : ∃ old, lines request.tokens = old ++ lines tokens
  begun : request.state = .nop → ∃ token ∈ tokens, token.type = .headersDone ∨ token.type = .body

/-- The request that is read, with what was given of it. -/
def Stands (ok : HshParserS → HshBufferS → NewBlock → Prop) (cfg : Config) (c : Conn) : Prop :=
  ∃ tokens pieces, Standing ok cfg (arriving c.events) c.request tokens pieces ∧
    Shown pieces c.request.parser c.stack (given c.events)

/-- What has happened of a request comes from a run of the parser. -/
def Traced (ok : HshParserS → HshBufferS → NewBlock → Prop) (cfg : Config) (bytes : List UInt8)
    (shown : List (List UInt8)) : Prop :=
  bytes = [] ∨ ∃ tokens pieces parser buffer,
    Fed ok cfg.httpRequestBufSize cfg.httpMaxRequestBufSize bytes tokens pieces parser buffer ∧ Told pieces parser shown

structure Giving (ok : HshParserS → HshBufferS → NewBlock → Prop) (cfg : Config) (c : Conn) : Prop where
  traced : Traced ok cfg (arriving c.events) (given c.events)
  fresh : c.live = true → c.request.state = .write ∨ c.request.state = .read ∧ c.request.buffer.buf = 0 →
    arriving c.events = [] ∧ given c.events = []
  stands : c.live = true → c.request.state ≠ .write → c.request.buffer.buf ≠ 0 → Stands ok cfg c
  once : finals c.stack ≤ 1

theorem Shown.told {parser : HshParserS} {shown : List (List UInt8)} (h : Shown pieces parser stack shown) :
    Told pieces parser shown := by
  rcases h with ⟨same, -⟩ | ⟨ended, lasts, -, done⟩
  · exact .inl same
  · exact .inr ⟨ended, lasts, done⟩

theorem Stands.traced (h : Stands ok cfg c) : Traced ok cfg (arriving c.events) (given c.events) := by
  obtain ⟨tokens, pieces, standing, shown⟩ := h
  exact .inr ⟨tokens, pieces, _, _, standing.fed, shown.told⟩

theorem Standing.same {bytes : List UInt8} {request request' : HttpRequestS}
    (h : Standing ok cfg bytes request tokens pieces)
    (same : request'.parser = request.parser ∧ request'.buffer = request.buffer)
    (shown : lines request'.tokens = lines request.tokens) (state : request'.state = .nop → request.state = .nop) :
    Standing ok cfg bytes request' tokens pieces := by
  obtain ⟨parser, buffer⟩ := same
  refine ⟨?_, ?_, fun nop => h.begun (state nop)⟩
  · rw [parser, buffer]
    exact h.fed
  · rw [shown]
    exact h.behind

theorem Standing.read {bytes : List UInt8} {request request' : HttpRequestS} {calls : List ReadCall} {memused : ℤ}
    {r : ReadReturn} (h : Standing ok cfg bytes request tokens pieces) (hblk : ∀ call ∈ calls, BlockOk call.blk)
    (hr : hsReadIntoBuffer cfg.httpMaxRequestBufSize calls request.buffer memused = some r)
    (same : request' = { request with buffer := r.buffer }) :
    Standing ok cfg (bytes ++ received calls) request' tokens pieces := by
  subst same
  exact ⟨h.fed.read hblk hr, h.behind, h.begun⟩

theorem Giving.of_stands (stands : Stands ok cfg d) (state : d.request.state ≠ .write) (block : d.request.buffer.buf ≠ 0)
    (once : finals d.stack ≤ 1) : Giving ok cfg d := by
  refine ⟨stands.traced, fun _ fresh => ?_, fun _ _ _ => stands, once⟩
  rcases fresh with write | ⟨-, none⟩
  · exact absurd write state
  · exact absurd none block

theorem Giving.reading (h : Giving ok cfg c) (live : c.live = true) (state : c.request.state = .read)
    (some_byte : arriving c.events ≠ []) : c.request.buffer.buf ≠ 0 ∧ Stands ok cfg c := by
  have block : c.request.buffer.buf ≠ 0 := fun none => some_byte (h.fresh live (.inr ⟨state, none⟩)).1
  exact ⟨block, h.stands live (by rw [state]; decide) block⟩

theorem Giving.same (h : Giving ok cfg c) (live : d.live = true → c.live = true) (state : d.request.state = c.request.state)
    (request : (d.request.parser = c.request.parser ∧ d.request.buffer = c.request.buffer) ∧
      d.request.tokens = c.request.tokens)
    (events : arriving d.events = arriving c.events ∧ given d.events = given c.events)
    (frames : finals d.stack = finals c.stack) : Giving ok cfg d := by
  obtain ⟨⟨parser, buffer⟩, shared⟩ := request
  obtain ⟨bytes, shown⟩ := events
  refine ⟨?_, fun alive => ?_, fun alive notWrite block => ?_, ?_⟩
  · rw [bytes, shown]
    exact h.traced
  · rw [bytes, shown, state, buffer]
    exact h.fresh (live alive)
  · obtain ⟨tokens, pieces, standing, given⟩ := h.stands (live alive) (state ▸ notWrite) (buffer ▸ block)
    refine ⟨tokens, pieces, ?_, ?_⟩
    · rw [bytes]
      exact standing.same ⟨parser, buffer⟩ (congrArg lines shared) state.symm.trans
    · unfold Shown
      rw [shown, parser, frames]
      exact given
  · rw [frames]
    exact h.once

theorem Giving.idle (traced : Traced ok cfg (arriving d.events) (given d.events))
    (quiet : d.live = false ∨ d.request.state = .write ∧ arriving d.events = [] ∧ given d.events = [] ∨
      d.request.buffer.buf = 0 ∧ (d.request.state = .nop ∨
        d.request.state = .read ∧ arriving d.events = [] ∧ given d.events = []))
    (once : finals d.stack ≤ 1) : Giving ok cfg d := by
  refine ⟨traced, fun live fresh => ?_, fun live notWrite block => ?_, once⟩
  · rcases quiet with dead | ⟨-, none⟩ | ⟨-, nop | ⟨-, none⟩⟩
    · exact absurd (dead.symm.trans live) (by decide)
    · exact none
    · rcases fresh with write | ⟨read, -⟩
      · exact absurd (nop.symm.trans write) (by decide)
      · exact absurd (nop.symm.trans read) (by decide)
    · exact none
  · rcases quiet with dead | ⟨write, -⟩ | ⟨none, -⟩
    · exact absurd (dead.symm.trans live) (by decide)
    · exact absurd write notWrite
    · exact absurd none block

theorem Giving.enter (h : Giving ok cfg c) (env : ReadEnv) (live : c.live = true) (state : c.request.state = .read)
    (frames : c.request.buffer.buf = 0 → finals c.stack = 0) : ∃ tokens pieces,
    Standing ok cfg (arriving c.events) (entered cfg env c).request tokens pieces ∧
    Shown pieces (entered cfg env c).request.parser c.stack (given c.events) := by
  by_cases block : c.request.buffer.buf = 0
  · obtain ⟨bytes, none⟩ := h.fresh live (.inr ⟨state, block⟩)
    unfold entered initBuffer
    rw [if_pos block, bytes, none]
    refine ⟨[], [], ⟨.init c.memused env.bufBlk.2, ⟨_, (List.append_nil _).symm⟩, fun nop => ?_⟩,
      .inl ⟨rfl, fun some_frame => absurd (frames block) some_frame⟩⟩
    exact absurd (show HttpSession.read = .nop from nop) (by decide)
  · rw [entered_of_buf cfg env block]
    obtain ⟨tokens, pieces, standing, shown⟩ := h.stands live (by rw [state]; decide) block
    refine ⟨tokens, pieces, standing.same ⟨rfl, rfl⟩ rfl fun nop => ?_, shown⟩
    exact absurd (show HttpSession.read = .nop from nop) (by decide)

theorem Giving.exec (h : Giving ok cfg c) (steady : Steady c) (buffered : Buffered c) (kept : Kept c) {blk : Block}
    {token : HshTokenS} {parser : HshParserS} {buffer : HshBufferS} (hstack : c.stack = .parseBuffer :: stack)
    (hok : ok c.request.parser c.request.buffer blk.1)
    (hr : hshParserExec cfg.httpMaxRequestBufSize blk.1 c.request.parser c.request.buffer =
      some (token, parser, buffer)) :
    buffer.buf ≠ 0 ∧ ∃ tokens pieces,
      Fed ok cfg.httpRequestBufSize cfg.httpMaxRequestBufSize (arriving c.events) (tokens ++ emitted token)
        (pieces ++ handed buffer token) parser buffer ∧
      (∃ old, lines c.request.tokens = old ++ lines tokens) ∧
      (token.type = .none ∧ Shown pieces parser stack (given c.events) ∨
        given c.events = pieces ∧ finals stack = 0) := by
  have live := (steady.library hstack rfl).live
  have state := (steady.reading hstack (.inr rfl)).1
  have block : c.request.buffer.buf ≠ 0 := by
    refine (buffered.reading live state).resolve_left ?_
    rw [hstack]
    simpa using (not_library (steady.below_popped hstack)).1
  have frames : finals c.stack = finals stack := by rw [hstack, finals_cons rfl]
  obtain ⟨tokens, pieces, standing, shown⟩ := h.stands live (by rw [state]; decide) block
  refine ⟨hshParserExec_buf blk.2 hr block, tokens, pieces, standing.fed.exec blk.2 hok hr, standing.behind, ?_⟩
  have idle : httpFlagCheck c.request.parser.flags flagDone = true → token.type = .none ∧ parser = c.request.parser := by
    intro done
    unfold hshParserExec at hr
    rw [if_pos (.inl done)] at hr
    cases hr
    exact ⟨rfl, rfl⟩
  by_cases none : finals stack = 0
  · rcases shown with ⟨same, -⟩ | ⟨ended, lasts, -, done⟩
    · exact .inr ⟨same, none⟩
    · obtain ⟨typed, rfl⟩ := idle done
      exact .inl ⟨typed, .inr ⟨ended, lasts, none, done⟩⟩
  · obtain ⟨g, mem⟩ := final_of_pos (frames.trans_ne none)
    obtain ⟨typed, rfl⟩ := idle (kept.final g mem).done
    refine .inl ⟨typed, ?_⟩
    unfold Shown at shown ⊢
    rw [frames] at shown
    exact shown

theorem Giving.invoke (h : Giving ok cfg c) (steady : Steady c) (buffered : Buffered c) (kept : Kept c) {blk : Block}
    {token : HshTokenS} {parser : HshParserS} {buffer : HshBufferS} (hstack : c.stack = .parseBuffer :: stack)
    (hok : ok c.request.parser c.request.buffer blk.1)
    (hr : hshParserExec cfg.httpMaxRequestBufSize blk.1 c.request.parser c.request.buffer =
      some (token, parser, buffer)) (typed : token.type = .headersDone ∨ token.type = .body) {cb : Callback}
    {request : HttpRequestS}
    (last : request.tokens = c.request.tokens ++ [token])
    (hrequest : request.parser = parser ∧ request.buffer = buffer) (state : d.request.state = .nop)
    (hd : (d.request.parser = parser ∧ d.request.buffer = buffer) ∧ d.request.tokens = c.request.tokens ++ [token])
    (events : d.events = c.events ++ [.push c.serial token] ++ [.invoke c.serial cb request])
    (frames : finals d.stack = finals stack ∨ finals d.stack = finals stack + 1 ∧ token.type = .body ∧ token.len > 0) :
    Giving ok cfg d := by
  have some_token : token.type ≠ .none := by
    rcases typed with typed | typed <;> rw [typed] <;> decide
  obtain ⟨block, tokens, pieces, fed, ⟨old, behind⟩, ⟨none, -⟩ | ⟨same, none⟩⟩ :=
    h.exec steady buffered kept hstack hok hr
  · exact absurd none some_token
  obtain ⟨⟨parser_eq, buffer_eq⟩, shared⟩ := hd
  obtain ⟨bytes, shown⟩ := @plain_same c.events (.push c.serial token) rfl
  have bytes' : arriving d.events = arriving c.events := by
    rw [events, arriving_snoc, bytes]
    rfl
  have shown' : given d.events = pieces ++ handed buffer token := by
    rw [events, given_snoc, shown, same]
    change pieces ++ lastPiece request = _
    rw [lastPiece_eq last, hrequest.2]
  have stands : Stands ok cfg d := by
    refine ⟨tokens ++ emitted token, pieces ++ handed buffer token, ⟨?_, ⟨old, ?_⟩, fun _ => ⟨token, ?_, typed⟩⟩, .inl ⟨shown', fun some_frame => ?_⟩⟩
    · rw [bytes', parser_eq, buffer_eq]
      exact fed
    · rw [shared, emitted_of_type some_token, lines_append, lines_append, behind, List.append_assoc]
    · rw [emitted_of_type some_token]
      exact List.mem_append_right _ List.mem_cons_self
    · obtain ⟨-, body, len⟩ := frames.resolve_left fun same => some_frame (same.trans none)
      refine ⟨pieces, tokenText buffer token, congrArg (pieces ++ ·) (handed_piece body), fun empty => ?_⟩
      have length := slice_length buffer.data token.index token.len.toNat
      change (tokenText buffer token).length = _ at length
      rw [empty, List.length_nil] at length
      omega
  refine .of_stands stands (by rw [state]; decide) (by rw [buffer_eq]; exact block) ?_
  rcases frames with same | ⟨more, -⟩
  · omega
  · omega

/-- User code asks for more only while the request has its buffer. -/
def KeepsBuffer (c : Conn) : Label → Prop
  | .call .readChunk => c.request.buffer.buf ≠ 0
  | _ => True

instance (c : Conn) (l : Label) : Decidable (KeepsBuffer c l) :=
  match l with
  | .call .readChunk => inferInstanceAs (Decidable (_ ≠ _))
  | .call (.respond _ _) | .call (.respondChunk _ _) | .call (.respondChunkEnd _ _) | .call .freeBuffer
  | .call (.connection _) | .exec _ _ | .socketEvent | .timerEvent | .read _ | .write _ | .callbackReturn
  | .finalChunk => isTrue trivial

theorem Giving.closes (h : Giving ok cfg c) (dead : d.live = false)
    (events : arriving d.events = arriving c.events ∧ given d.events = given c.events)
    (frames : finals d.stack ≤ finals c.stack) : Giving ok cfg d := by
  refine .idle ?_ (.inl dead) (frames.trans h.once)
  rw [events.1, events.2]
  exact h.traced

theorem Giving.enters (h : Giving ok cfg c) (env : ReadEnv) (steady : Steady c) (kept : Kept c)
    (hstack : c.stack = .readRequest :: stack) : ∃ tokens pieces,
      Standing ok cfg (arriving c.events) (entered cfg env (popped stack c)).request tokens pieces ∧
      Shown pieces (entered cfg env (popped stack c)).request.parser stack (given c.events) ∧ finals stack ≤ 1 := by
  have live : c.live = true := (steady.library hstack rfl).live
  have state := (steady.reading hstack (.inl rfl)).1
  have frames : finals stack = finals c.stack := by rw [hstack, finals_cons rfl]
  have popped_h : Giving ok cfg (popped stack c) := h.same id rfl ⟨⟨rfl, rfl⟩, rfl⟩ ⟨rfl, rfl⟩ frames
  obtain ⟨tokens, pieces, standing, shown⟩ := popped_h.enter env live state fun block => by
    by_contra some_frame
    obtain ⟨g, mem⟩ := final_of_pos some_frame
    exact (kept.final g (by rw [hstack]; exact List.mem_cons_of_mem _ mem)).block block
  exact ⟨tokens, pieces, standing, shown, frames.trans_le h.once⟩

theorem arriving_filled {env : ReadEnv} {r : ReadReturn} :
    arriving (filled env r (entered cfg env (popped stack c))).events = arriving c.events ++ received env.readCalls ∧
      given (filled env r (entered cfg env (popped stack c))).events = given c.events := by
  unfold filled
  rw [log_events, arriving_snoc, given_snoc]
  change arriving (entered cfg env (popped stack c)).events ++ _ = _ ∧ given (entered cfg env (popped stack c)).events = _
  rw [entered_events]
  refine ⟨congrArg (arriving c.events ++ ·) ?_, rfl⟩
  simp [received, List.flatMap_map]

theorem Giving.writing (h : Giving ok cfg c) (steady : Steady c) (hstack : c.stack = .writeSocket :: stack) :
    arriving c.events = [] ∧ given c.events = [] ∧ finals stack ≤ 1 := by
  obtain ⟨bytes, shown⟩ := h.fresh (steady.library hstack rfl).live (.inl (steady.writing hstack).1)
  exact ⟨bytes, shown, (finals_le hstack).trans h.once⟩

theorem Giving.step_socket (h : Giving ok cfg c) (move : Move cfg c .socketEvent c') : Giving ok cfg c' := by
  cases move with
  | wakeRead => exact h.same id rfl ⟨⟨rfl, rfl⟩, rfl⟩ ⟨rfl, rfl⟩ (finals_cons rfl)
  | wakeWrite => exact h.same id rfl ⟨⟨rfl, rfl⟩, rfl⟩ ⟨rfl, rfl⟩ (finals_cons rfl)
  | swallow => exact h

theorem Giving.step_timer (h : Giving ok cfg c) (move : Move cfg c .timerEvent c') : Giving ok cfg c' := by
  cases move with
  | tick => exact h.same id rfl ⟨⟨rfl, rfl⟩, rfl⟩ ⟨rfl, rfl⟩ rfl
  | expire => exact h.closes rfl (plain_same rfl) le_rfl

theorem Giving.step_read {env : ReadEnv} (h : Giving ok cfg c) (steady : Steady c) (kept : Kept c)
    (move : Move cfg c (.read env) c') : Giving ok cfg c' := by
  cases move with
  | @readSkip env stack hstack =>
    obtain ⟨tokens, pieces, standing, shown, frames⟩ := h.enters env steady kept hstack
    have state : (entered cfg env (popped stack c)).request.state = .read := entered_state env _
    have events : (entered cfg env (popped stack c)).events = c.events := entered_events env _
    refine .of_stands ⟨tokens, pieces, ?_, ?_⟩ ?_ (entered_buf env _) ?_
    · rw [push_events, events]
      exact standing
    · rw [push_events, events]
      unfold Shown
      rw [push_stack, finals_cons rfl, entered_stack]
      exact shown
    · rw [push_request, state]
      decide
    · rw [push_stack, finals_cons rfl, entered_stack]
      exact frames
  | @readEof env stack r hstack requires hr =>
    obtain ⟨tokens, pieces, standing, shown, frames⟩ := h.enters env steady kept hstack
    obtain ⟨bytes, same⟩ := @arriving_filled cfg c stack env r
    have stands : Stands ok cfg (popped stack (filled env r (entered cfg env (popped stack c)))) := by
      refine ⟨tokens, pieces, ?_, ?_⟩
      · change Standing ok cfg (arriving (filled env r (entered cfg env (popped stack c))).events) _ _ _
        rw [bytes]
        exact standing.read (readCalls_blockOk env) hr rfl
      · change Shown _ _ _ (given (filled env r (entered cfg env (popped stack c))).events)
        rw [same]
        exact shown
    obtain ⟨bytes', same'⟩ := @plain_same (filled env r (entered cfg env (popped stack c))).events .terminate rfl
    refine .idle ?_ (.inl rfl) ?_
    · change Traced ok cfg (arriving (_ ++ _)) (given (_ ++ _))
      rw [bytes', same']
      exact stands.traced
    · change finals (entered cfg env (popped stack c)).stack ≤ 1
      rw [entered_stack]
      exact frames
  | @readMore env stack r hstack requires hr =>
    obtain ⟨tokens, pieces, standing, shown, frames⟩ := h.enters env steady kept hstack
    obtain ⟨bytes, same⟩ := @arriving_filled cfg c stack env r
    have state : (entered cfg env (popped stack c)).request.state = .read := entered_state env _
    have frame : finals ((filled env r (entered cfg env (popped stack c))).push .parseBuffer).stack = finals stack := by
      rw [push_stack, finals_cons rfl]
      exact congrArg finals (entered_stack env _)
    refine .of_stands ⟨tokens, pieces, ?_, ?_⟩ ?_ (hsReadIntoBuffer_block (readCalls_blockOk env) (entered_buf env _) hr).1
      (frame.trans_le frames)
    · rw [push_events, bytes]
      exact standing.read (readCalls_blockOk env) hr rfl
    · rw [push_events, same]
      unfold Shown
      rw [frame]
      exact shown
    · change (entered cfg env (popped stack c)).request.state ≠ .write
      rw [state]
      decide

theorem Giving.step_exec {blk : Block} {env : RespondEnv} (h : Giving ok cfg c) (steady : Steady c)
    (buffered : Buffered c) (kept : Kept c) (hok : ok c.request.parser c.request.buffer blk.1)
    (move : Move cfg c (.exec blk env) c') : Giving ok cfg c' := by
  cases move with
  | @execNone blk _ stack token parser buffer hstack hr type =>
    obtain ⟨block, tokens, pieces, fed, behind, shown⟩ := h.exec steady buffered kept hstack hok hr
    have state := (steady.reading hstack (.inr rfl)).1
    rw [handed_other (by rw [type]; decide), List.append_nil, emitted, if_pos type, List.append_nil] at fed
    refine .of_stands ⟨tokens, pieces, ⟨fed, behind, fun nop => absurd (state.symm.trans nop) (by decide)⟩, ?_⟩ ?_ block
      ((finals_le hstack).trans h.once)
    · rcases shown with ⟨-, shown⟩ | ⟨same, none⟩
      · exact shown
      · exact .inl ⟨same, fun some_frame => absurd none some_frame⟩
    · exact fun write => absurd (state.symm.trans write) (by decide)
  | @execErr blk _ stack token parser buffer _ _ hstack hr type =>
    obtain ⟨-, rfl | left, -⟩ := kept.exec steady buffered hstack hr
    · cases type
    · exact absurd type left.2.1
  | @execLine blk _ stack token parser buffer hstack hr type =>
    obtain ⟨block, tokens, pieces, fed, ⟨old, behind⟩, ⟨none, -⟩ | ⟨same, none⟩⟩ :=
      h.exec steady buffered kept hstack hok hr
    · exact absurd none type.1
    have state := (steady.reading hstack (.inr rfl)).1
    obtain ⟨bytes, shown⟩ := @plain_same c.events (.push c.serial token) rfl
    rw [handed_other type.2.2.1, List.append_nil, ← bytes] at fed
    have own : lines (c.request.tokens ++ [token]) = old ++ lines (tokens ++ emitted token) := by
      rw [emitted_of_type type.1, lines_append, lines_append, behind, List.append_assoc]
    refine .of_stands ⟨tokens ++ emitted token, pieces, ⟨fed, ⟨old, own⟩, fun nop => absurd (state.symm.trans nop) (by decide)⟩,
      .inl ⟨shown.trans same, fun some_frame => ?_⟩⟩ ?_ block ?_
    · exact absurd ((finals_cons rfl).trans none) some_frame
    · exact fun write => absurd (state.symm.trans write) (by decide)
    · exact ((finals_cons rfl).trans none).trans_le (Nat.zero_le 1)
  | @execHead blk _ stack token parser buffer hstack hr type =>
    exact h.invoke steady buffered kept hstack hok hr (.inl type) rfl ⟨rfl, rfl⟩ rfl ⟨⟨rfl, rfl⟩, rfl⟩ rfl
      (.inl (finals_cons rfl))
  | @execSmall blk _ stack token parser buffer hstack hr type =>
    exact h.invoke steady buffered kept hstack hok hr (.inr type) rfl ⟨rfl, rfl⟩ rfl ⟨⟨rfl, rfl⟩, rfl⟩ rfl
      (.inl (finals_cons rfl))
  | @execFinal blk _ stack token parser buffer hstack hr type _ _ len =>
    exact h.invoke steady buffered kept hstack hok hr (.inr type) rfl ⟨rfl, rfl⟩ rfl ⟨⟨rfl, rfl⟩, rfl⟩ rfl
      (.inr ⟨(finals_cons rfl).trans finals_final, type, len⟩)
  | @execPiece blk _ stack token parser buffer hstack hr type =>
    exact h.invoke steady buffered kept hstack hok hr (.inr type) rfl ⟨rfl, rfl⟩ rfl ⟨⟨rfl, rfl⟩, rfl⟩ rfl
      (.inl (finals_cons rfl))

theorem Giving.step_write {call : WriteCall} (h : Giving ok cfg c) (steady : Steady c)
    (move : Move cfg c (.write call) c') : Giving ok cfg c' := by
  cases move with
  | writeMore hstack =>
    obtain ⟨bytes, shown⟩ := @plain_same c.events (.write _) rfl
    exact h.same id rfl ⟨⟨rfl, rfl⟩, rfl⟩ ⟨bytes, shown⟩ (by rw [hstack]; exact (finals_cons rfl).symm)
  | writeErr hstack => exact h.closes rfl (plain_twice rfl rfl) (finals_le hstack)
  | writeClose hstack => exact h.closes rfl (plain_thrice rfl rfl rfl) (finals_le hstack)
  | @writeNext call stack hstack =>
    obtain ⟨bytes, shown, frames⟩ := h.writing steady hstack
    obtain ⟨bytes', shown'⟩ := @plain_thrice c.events (.write call.bytes) (.responded c.serial) (.watch .epollin) rfl rfl rfl
    refine .idle ?_ (.inr (.inr ⟨finished_buf httpKeepAliveTimeout _, .inr ⟨rfl, bytes'.trans bytes, shown'.trans shown⟩⟩))
      ((finals_cons rfl).trans_le frames)
    exact (bytes'.trans bytes).symm ▸ (.inl rfl)
  | @writeChunk call stack hstack =>
    obtain ⟨bytes, shown, frames⟩ := h.writing steady hstack
    obtain ⟨bytes', -⟩ := @plain_same c.events (.write call.bytes) rfl
    refine .idle ?_ (.inr (.inr ⟨finished_buf httpRequestTimeout _, .inl rfl⟩)) ((finals_cons rfl).trans_le frames)
    have none : arriving (invoked c.serial .chunkCb (finished httpRequestTimeout (written call (popped stack c)))).events = [] := by
      refine Eq.trans (arriving_snoc _ _) ?_
      exact bytes'.trans bytes
    rw [none]
    exact (.inl rfl)

theorem Giving.step_call {call : UserCall} (h : Giving ok cfg c) (state : c.request.state = .nop)
    (keeps : KeepsBuffer c (.call call)) (move : Move cfg c (.call call) c') : Giving ok cfg c' := by
  cases move with
  | @respond call f env request memused user live hcall hf =>
    obtain ⟨bytes, shown⟩ := @plain_same (c.events ++ [.response request]) (.watch .epollout) rfl
    have none : arriving (c.events ++ [.response request] ++ [.watch .epollout]) = [] :=
      bytes.trans (arriving_snoc _ _)
    refine .idle ?_ (.inr (.inl ⟨rfl, none, shown.trans (given_snoc _ _)⟩)) ((finals_cons rfl).trans_le h.once)
    exact none.symm ▸ (.inl rfl)
  | readChunk user live =>
    obtain ⟨tokens, pieces, standing, shown⟩ := h.stands live (by rw [state]; decide) keeps
    obtain ⟨bytes, same⟩ := @plain_same c.events (.watch .epollin) rfl
    have asks : Standing ok cfg (arriving c.events) { c.request with state := .read, chunkCb := true } tokens pieces :=
      standing.same ⟨rfl, rfl⟩ rfl fun nop => absurd (show HttpSession.read = .nop from nop) (by decide)
    refine .of_stands ⟨tokens, pieces, bytes.symm ▸ asks, ?_⟩ (show HttpSession.read ≠ .write by decide) keeps
      ((finals_cons rfl).trans_le h.once)
    have frames : finals (hsRequestBeginRead
        { c with request := { c.request with state := .read, chunkCb := true } }).stack = finals c.stack := finals_cons rfl
    have same : given (hsRequestBeginRead
        { c with request := { c.request with state := .read, chunkCb := true } }).events = given c.events := same
    unfold Shown
    rw [frames, same]
    exact shown
  | freeBuffer =>
    exact .idle h.traced (.inr (.inr ⟨finished_buf c.request.timeout _, .inl state⟩)) h.once
  | @connection directive =>
    obtain ⟨flags, same⟩ := @setKeepAlive_flags c.request directive
    have tokens : (hsRequestSetKeepAliveFlag c.request directive).tokens = c.request.tokens := by rw [same]
    exact h.same id (by simp) ⟨⟨by simp, by simp⟩, tokens⟩ ⟨rfl, rfl⟩ rfl

theorem Giving.step_callbackReturn (h : Giving ok cfg c) (move : Move cfg c .callbackReturn c') : Giving ok cfg c' := by
  cases move with
  | callbackReturn hstack =>
    exact h.same id rfl ⟨⟨rfl, rfl⟩, rfl⟩ ⟨rfl, rfl⟩ (by rw [hstack]; exact (finals_cons rfl).symm)

theorem Giving.step_finalChunk (h : Giving ok cfg c) (kept : Kept c) (move : Move cfg c .finalChunk c') :
    Giving ok cfg c' := by
  cases move with
  | @finalChunk serial stack hstack =>
    obtain ⟨live, -, state, block, done, -⟩ := kept.final _ (by rw [hstack]; exact List.mem_cons_self)
    obtain ⟨tokens, pieces, standing, shown⟩ := h.stands live state block
    have more : finals c.stack = finals stack + 1 := by rw [hstack, finals_final]
    have none : finals stack = 0 := by
      have once := h.once
      omega
    obtain ⟨same, lasts⟩ := shown.resolve_right fun ended => by
      have zero := ended.2.2.1
      omega
    obtain ⟨bytes, kept_given⟩ := @plain_same c.events (.push serial { type := .body }) rfl
    have lasts := lasts (by omega)
    have ended : Standing ok cfg (arriving c.events)
        { c.request with tokens := c.request.tokens ++ [{ type := .body }], state := .nop } tokens pieces := by
      refine ⟨standing.fed, ?_, fun _ => ?_⟩
      · rw [lines_append]
        exact (List.append_nil _).symm ▸ standing.behind
      · obtain ⟨front, piece, rfl, -⟩ := lasts
        obtain ⟨token, mem, typed⟩ := standing.fed.body (List.append_ne_nil_of_right_ne_nil _ (List.cons_ne_nil _ _))
        exact ⟨token, mem, .inr typed⟩
    refine .of_stands ⟨tokens, pieces, ?_, .inr ⟨?_, lasts, (finals_cons rfl).trans none, done⟩⟩
      (show HttpSession.nop ≠ .write by decide) block (((finals_cons rfl).trans none).trans_le (Nat.zero_le 1))
    · have silent : arriving (c.events ++ [.push serial { type := .body }] ++ [.invoke serial .chunkCb
          { c.request with tokens := c.request.tokens ++ [{ type := .body }], state := .nop }]) = arriving c.events := by
        rw [arriving_snoc]
        exact bytes
      exact silent.symm ▸ ended
    · refine Eq.trans (given_snoc _ _) ?_
      have empty : lastPiece { c.request with tokens := c.request.tokens ++ [{ type := .body }], state := .nop } = [[]] :=
        (@lastPiece_eq { c.request with tokens := c.request.tokens ++ [{ type := .body }], state := .nop } _ _ rfl).trans
          (handed_piece rfl)
      change given (c.events ++ [.push serial { type := .body }]) ++ lastPiece _ = _
      rw [kept_given, same]
      exact congrArg (pieces ++ ·) empty

theorem Giving.step (steady : Steady c) (held : Holding c) (buffered : Buffered c) (kept : Kept c) (h : Giving ok cfg c)
    (asked : Asked c l) (keeps : KeepsBuffer c l) (calls : Calls ok c l) (move : Move cfg c l c') : Giving ok cfg c' := by
  cases l with
  | socketEvent => exact h.step_socket move
  | timerEvent => exact h.step_timer move
  | read env => exact h.step_read steady kept move
  | exec blk env => exact h.step_exec steady buffered kept calls move
  | write call => exact h.step_write steady move
  | call call => exact h.step_call (held.1 (asked call rfl)) keeps move
  | callbackReturn => exact h.step_callbackReturn move
  | finalChunk => exact h.step_finalChunk kept move

theorem giving_accepted (h : Accepted c) : Giving ok cfg c := by
  obtain ⟨memused, rfl | ⟨respond, request, memused', hresp, rfl⟩⟩ := accepted_cases h
  · exact .idle ((.inl rfl)) (.inr (.inr ⟨rfl, .inr ⟨rfl, rfl, rfl⟩⟩)) (Nat.zero_le 1)
  · exact .idle ((.inl rfl)) (.inr (.inl ⟨rfl, rfl, rfl⟩)) (Nat.zero_le 1)

def Keeping (ok : HshParserS → HshBufferS → NewBlock → Prop) (c : Conn) (l : Label) : Prop :=
  Protocol c l ∧ KeepsBuffer c l ∧ Calls ok c l

instance [∀ parser buffer blk, Decidable (ok parser buffer blk)] (c : Conn) (l : Label) : Decidable (Calls ok c l) :=
  match l with
  | .exec blk _ => inferInstanceAs (Decidable (ok _ _ blk.1))
  | .socketEvent | .timerEvent | .read _ | .write _ | .call _ | .callbackReturn | .finalChunk => isTrue trivial

instance [∀ parser buffer blk, Decidable (ok parser buffer blk)] (c : Conn) (l : Label) : Decidable (Keeping ok c l) :=
  inferInstanceAs (Decidable (_ ∧ _ ∧ _))

theorem Giving.run_step (session : Session (fun _ _ _ => True) cfg c) (h : Giving ok cfg c) (keeping : Keeping ok c l)
    (hs : Connection.step cfg c l = some c') : Session (fun _ _ _ => True) cfg c' ∧ Giving ok cfg c' := by
  obtain ⟨protocol, keeps, calls⟩ := keeping
  have move := step_move hs
  have any : Calls (fun _ _ _ => True) c l := by cases l <;> trivial
  exact ⟨session.step protocol any move, h.step session.steady session.held session.buffered session.kept protocol.1
    keeps calls move⟩

theorem giving_reached (run : Runs.Reached (Connection.step cfg) Accepted (Keeping ok) c) :
    Session (fun _ _ _ => True) cfg c ∧ Giving ok cfg c := by
  refine run.invariant (I := fun c => Session (fun _ _ _ => True) cfg c ∧ Giving ok cfg c)
    (fun c h => ⟨session_accepted h, giving_accepted h⟩) fun c l c' ⟨session, giving⟩ keeping hs => ?_
  exact giving.run_step session keeping hs

end Steps

end HttpServer.GivenPieces
