import HttpServer.FirstRequests

set_option autoImplicit false

/-!
# The calls of the request handler

The tokens of a connection are never reset, so every call of the handler but the first finds the end of
more than one head among them.
-/
namespace HttpServer.HandlerCalls
open Scanner ParserTables ParserGrammar HttpServer.Parser ReadBuffer ParserInvariant ParserRuns HeadMachine BodyPhases
  ParserCalls HeadRuns HeadFields HeadTexts RequestRuns KeptHeads RequestUtil Respond Connection ConnectionSteps
  ConnectionInvariant HeldRequests AnsweredRequests ServedRequests FirstRequests

section Modes

variable {max : ℤ} {blk : NewBlock} {parser parser' : HshParserS} {buffer buffer' : HshBufferS} {token : HshTokenS}
  {tokens : List HshTokenS} {s t : Exec} {c : UInt8}

/-- In a head, about to examine a byte. -/
structure HeadInv (s : Exec) : Prop where
  state_lt : s.cs < 98
  head : inHead (phase s.cs) = true
  token : HeadToken s
  tokenReady : httpFlagCheck s.parser.flags flagTokenReady = false
  done : httpFlagCheck s.parser.flags flagDone = false

/-- The phases that `done_headers` goes to when the head has a body. -/
def startsBody (ph : Phase) : Prop := ph = .bodySizeFirst ∨ ph = .large ∨ ph = .small

/-- The loop is left in a head or at its end. -/
structure HeadExit (s : Exec) : Prop where
  state_lt : s.cs < 98
  token : HeadToken s
  place : inHead (phase s.cs) = true ∨ phase s.cs = .error ∨ startsBody (phase s.cs) ∧
    httpFlagCheck s.parser.flags flagTokenReady = true ∧ s.parser.token.type = .headersDone

theorem HeadInv.exit (h : HeadInv s) : HeadExit s := ⟨h.state_lt, h.token, .inl h.head⟩

theorem doneHeaders_place (lt : t.cs < 98) (head : inHead (phase t.cs) = true) :
    (doneHeaders max blk t).Sat True (fun _ => False) HeadExit := by
  have token : HshTokenE.headersDone ≠ .body ∧ HshTokenE.headersDone ≠ .none ∧ HshTokenE.headersDone ≠ .err := by decide
  have ready := fun flags => tokenReady_set flags
  unfold doneHeaders
  dsimp only
  split
  · exact ⟨show hshHttpEnChunkedBody < 98 by decide, token, .inr (.inr ⟨.inl rfl, ready _, rfl⟩)⟩
  split
  · exact ⟨lt, token, .inl head⟩
  split
  · exact ⟨show hshHttpEnLargeBody < 98 by decide, token, .inr (.inr ⟨.inr (.inl rfl), ready _, rfl⟩)⟩
  · split <;>
      exact ⟨show hshHttpEnSmallBody < 98 by decide, token, .inr (.inr ⟨.inr (.inr rfl), ready _, rfl⟩)⟩

theorem head_place (h : HeadInv s) (alive : s.cs ≠ hshHttpError) :
    ((machine max blk).step c s).Sat True HeadInv HeadExit := by
  have hc : c.toNat < 256 := c.toNat_lt
  have data : phase s.cs ≠ .bodyData := by
    intro hd
    have head := h.head
    rw [hd] at head
    cases head
  obtain ⟨htarg, pre, hpre, hacts⟩ := tables_agree h.state_lt hc alive data
  have lt98 := transTarg_lt s.cs c.toNat
  have start : CallMid { s with cs := transTarg s.cs c.toNat } { s with cs := transTarg s.cs c.toNat } :=
    ⟨rfl, rfl, rfl, rfl, h.tokenReady, h.done⟩
  have sides : ∀ a ∈ pre, a ∈ headLine := by
    rcases hpre with rfl | ⟨-, rfl | rfl⟩ <;> decide
  have lines : ∀ as : List Action, (∀ a ∈ as, a ∈ headLine) → ∀ u,
      CallMid { s with cs := transTarg s.cs c.toNat } u ∧ HeadToken u →
      ((machine max blk).runActs c as u).Sat True
        (fun u => CallMid { s with cs := transTarg s.cs c.toNat } u ∧ HeadToken u)
        (fun u => u.cs = transTarg s.cs c.toNat ∧ HeadToken u) :=
    fun as has u hu => (Machine.runActs_sat _ (C := fun _ _ _ => True)
      (fun a ha t ht _ => headLine_sat (has a ha) ht.1 ht.2) hu (Machine.actsOk_true _ _ _ _)).mono (fun _ h => h)
        fun _ h => ⟨h.2.2.1, h.2.2.2⟩
  -- the actions of a byte that does not end the head
  have runs : ∀ as : List Action, (∀ a ∈ as, a ∈ headLine) →
      inHead (phase (transTarg s.cs c.toNat)) = true ∨ phase (transTarg s.cs c.toNat) = .error →
      ((machine max blk).runActs c as { s with cs := transTarg s.cs c.toNat }).Sat True
        (fun u => CallMid { s with cs := transTarg s.cs c.toNat } u ∧ HeadToken u) HeadExit := fun as has hph =>
    (lines as has _ ⟨start, h.token⟩).mono (fun _ h => h) fun u ⟨hcs, token⟩ =>
      ⟨hcs ▸ lt98, token, by rw [hcs]; exact hph.imp_right .inl⟩
  have again : ∀ u, inHead (phase (transTarg s.cs c.toNat)) = true ∨ phase (transTarg s.cs c.toNat) = .error →
      CallMid { s with cs := transTarg s.cs c.toNat } u ∧ HeadToken u →
      ((machine max blk).again u).Sat True HeadInv HeadExit := by
    rintro u hph ⟨⟨-, -, -, hcs, hr, hd⟩, token⟩
    have hcs : u.cs = transTarg s.cs c.toNat := hcs
    by_cases err : u.cs = hshHttpError
    · have out : (machine max blk).again u = .out u := if_pos err
      rw [out]
      exact ⟨hcs ▸ lt98, token, by rw [hcs]; exact hph.imp_right .inl⟩
    · have fall : (machine max blk).again u = .fall { u with p := u.p + 1 } := if_neg err
      rw [fall]
      have head : inHead (phase u.cs) = true := by
        rw [hcs]
        exact hph.resolve_right fun he => err (by rw [hcs]; exact (phase_error lt98).1 he)
      exact ⟨hcs ▸ lt98, head, token, hr, hd⟩
  have actions : ∀ {as : List Action}, (phaseStep (phase s.cs) c.toNat).2 = as → (∀ a ∈ as, a ∈ headLine) →
      inHead (phase (transTarg s.cs c.toNat)) = true ∨ phase (transTarg s.cs c.toNat) = .error →
      ((machine max blk).step c s).Sat True HeadInv HeadExit := by
    intro as list has hph
    refine Machine.step_sat _ ?_ (again · hph)
    change ((machine max blk).runActs c (transActions s.cs c.toNat) _).Sat _ _ _
    rw [hacts, list]
    exact runs _ (fun a ha => (List.mem_append.1 ha).elim (sides a) (has a)) hph
  rcases phaseStep_inHead h.head c.toNat with ⟨hph, list⟩ | ended | ⟨hph, list⟩
  · exact actions list (by decide) (.inr (htarg.trans hph))
  · rw [ended] at htarg hacts
    have head : inHead (phase (transTarg s.cs c.toNat)) = true := by rw [htarg]; rfl
    refine Machine.step_sat (P := fun _ => False) _ ?_ fun _ hf => hf.elim
    change ((machine max blk).runActs c (transActions s.cs c.toNat) _).Sat _ _ _
    rw [hacts, show pre ++ [Action.incCount, .doneHeaders] = (pre ++ [.incCount]) ++ [.doneHeaders] by simp]
    have counted : ∀ a ∈ pre ++ [Action.incCount], a ∈ headLine := by
      intro a ha
      rcases List.mem_append.1 ha with ha | ha
      · exact sides a ha
      · rw [List.mem_singleton.1 ha]
        decide
    refine Machine.runActs_append_sat (C := fun _ _ _ => True) _ (fun _ => runs _ counted (.inl head)) (fun u hu _ => ?_)
      (Machine.actsOk_true _ _ _ _)
    have hcs : u.cs = transTarg s.cs c.toNat := hu.1.cs_eq
    exact Machine.runActs_cons_sat (C := fun _ _ _ => True) (P := fun _ => False) _
      (fun _ => doneHeaders_place (hcs ▸ lt98) (hcs ▸ head)) (fun _ hf _ => hf.elim) (Machine.actsOk_true _ _ _ _)
  · exact actions rfl list (.inl (by rw [htarg]; exact hph))

/-- Between two calls in a head. -/
structure HeadCall (parser : HshParserS) : Prop where
  state_lt : parser.state < 98
  head : inHead (phase parser.state) = true
  token : parser.token.type ≠ .body ∧ parser.token.type ≠ .none ∧ parser.token.type ≠ .err
  tokenReady : httpFlagCheck parser.flags flagTokenReady = false

/-- Where the parser is between two calls. -/
inductive Mode (parser : HshParserS) : Prop
  | head (h : HeadCall parser)
  | stream (h : Streaming parser)
  | small (h : SmallBody parser)

theorem mode_init : Mode hshParserInit := .head ⟨by decide, by decide, by decide, by decide⟩

theorem not_small_of_head (h : HeadCall parser) : ¬ SmallBody parser := by
  intro small
  have head := h.head
  rcases (small {}).small with ph | ⟨ph, -⟩ <;>
    · change phase parser.state = _ at ph
      rw [ph] at head
      cases head

theorem not_small_of_stream (h : Streaming parser) : ¬ SmallBody parser := by
  intro small
  have stream : isStream (phase parser.state) = true := (h {}).stream
  rcases (small {}).small with ph | ⟨ph, -⟩ <;>
    · change phase parser.state = _ at ph
      rw [ph] at stream
      cases stream

/-- A call in a head: only `done_headers` leaves it, except into the error state. -/
theorem HeadCall.exec (h : HeadCall parser) (hr : hshParserExec max blk parser buffer = some (token, parser', buffer')) :
    Mode parser' ∧ (SmallBody parser' → token.type = .headersDone) ∧ token.type ≠ .body := by
  by_cases finished : httpFlagCheck parser.flags flagDone = true
  · unfold hshParserExec at hr
    rw [if_pos (.inl finished)] at hr
    cases hr
    exact ⟨.head h, fun small => absurd small (not_small_of_head h), by decide⟩
  have start : HeadInv (enter parser buffer) :=
    ⟨h.state_lt, h.head, h.token, h.tokenReady, eq_false_of_ne_true finished⟩
  have step : ∀ c s, HeadInv s → s.p ≠ s.pe → s.cs ≠ hshHttpError → True →
      ((machine max blk).step c s).Sat True HeadInv HeadExit := fun c s hs _ alive _ => head_place hs alive
  rcases hshParserExec_sat start (fun _ hs => hs.exit) step execOk_any hr with heq | ⟨t, exit, heq⟩
  · cases heq
    exact ⟨.head h, fun small => absurd small (not_small_of_head h), by decide⟩
  -- the place is that of the state, whatever the flags are
  have place : ∀ (flags : BitVec 8) (q : ℤ), httpFlagCheck flags flagTokenReady = false →
      (inHead (phase t.cs) = true ∨ phase t.cs = .error →
        Mode { t.parser with state := t.cs, flags := flags, sequenceId := q } ∧
          ¬ SmallBody { t.parser with state := t.cs, flags := flags, sequenceId := q }) ∧
      (startsBody (phase t.cs) → Mode { t.parser with state := t.cs, flags := flags, sequenceId := q }) := by
    intro flags q quiet
    refine ⟨fun hph => ?_, fun hph => ?_⟩
    · rcases hph with head | error
      · have call : HeadCall { t.parser with state := t.cs, flags := flags, sequenceId := q } :=
          ⟨exit.state_lt, head, exit.token, quiet⟩
        exact ⟨.head call, not_small_of_head call⟩
      · have stream : Streaming { t.parser with state := t.cs, flags := flags, sequenceId := q } := by
          refine fun _ => ⟨exit.state_lt, ?_, quiet, fun piece => ?_⟩
          · change isStream (phase t.cs) = true
            rw [error]
            rfl
          · change inPiece (phase t.cs) = true at piece
            rw [error] at piece
            cases piece
        exact ⟨.stream stream, not_small_of_stream stream⟩
    · by_cases small : phase t.cs = .small
      · exact .small fun _ => ⟨exit.state_lt, .inl small, quiet, rfl⟩
      · refine .stream fun _ => ⟨exit.state_lt, ?_, quiet, fun piece => ?_⟩
        · change isStream (phase t.cs) = true
          rcases hph with ph | ph | ph <;> rw [ph] <;> first | rfl | exact absurd ph small
        · change inPiece (phase t.cs) = true at piece
          rcases hph with ph | ph | ph <;> rw [ph] at piece <;> cases piece
  rcases leave_cases t with ⟨ready, hl⟩ | ⟨quiet, hl⟩ <;> rw [hl] at heq <;> cases heq
  · obtain ⟨stays, starts⟩ := place _ t.parser.sequenceId (tokenReady_clear t.parser.flags)
    refine ⟨?_, fun small => ?_, exit.token.1⟩
    · rcases exit.place with head | error | ⟨body, -⟩
      · exact (stays (.inl head)).1
      · exact (stays (.inr error)).1
      · exact starts body
    · rcases exit.place with head | error | ⟨-, -, typed⟩
      · exact absurd small (stays (.inl head)).2
      · exact absurd small (stays (.inr error)).2
      · exact typed
  · obtain ⟨stays, -⟩ := place _ t.buffer.sequenceId quiet
    have stays := stays (exit.place.elim .inl fun h => .inr (h.resolve_right fun ⟨_, ready, _⟩ =>
      absurd (quiet.symm.trans ready) (by decide)))
    exact ⟨stays.1, fun small => absurd small stays.2, by decide⟩

/-- How many heads ended. -/
def ends (tokens : List HshTokenS) : ℕ := tokens.countP fun token => token.type = .headersDone

@[simp] theorem ends_append (tokens tokens' : List HshTokenS) : ends (tokens ++ tokens') = ends tokens + ends tokens' :=
  List.countP_append

/-- A head has ended, and one more before a small body that is not complete. -/
structure Ended (tokens : List HshTokenS) (parser : HshParserS) : Prop where
  one : 1 ≤ ends tokens
  two : SmallBody parser → httpFlagCheck parser.flags flagDone = true ∨ 2 ≤ ends tokens

def IsWhole (token : HshTokenS) : Prop := token.type = .body ∧ httpFlagCheck token.flags hshTokFlagSmallBody = true

theorem Mode.exec (h : Mode parser) (hr : hshParserExec max blk parser buffer = some (token, parser', buffer')) :
    Mode parser' ∧ (IsWhole token → httpFlagCheck parser'.flags flagDone = true) ∧
      (Ended tokens parser → Ended (tokens ++ emitted token) parser' ∧ (IsWhole token → 2 ≤ ends tokens)) := by
  cases h with
  | head h =>
    obtain ⟨mode, small, notBody⟩ := h.exec hr
    refine ⟨mode, fun whole => absurd whole.1 notBody, fun ended => ⟨⟨by rw [ends_append]; have := ended.one; omega,
      fun body => .inr ?_⟩, fun whole => absurd whole.1 notBody⟩⟩
    have typed := small body
    have one := ended.one
    rw [ends_append, emitted_of_type (by rw [typed]; decide)]
    simp [ends, typed] at one ⊢
    omega
  | stream h =>
    obtain ⟨stream, piece⟩ := hshParserExec_stream h hr
    have piece : ¬ IsWhole token := by
      rintro ⟨typed, whole⟩
      rcases piece with rfl | piece
      · cases typed
      · exact absurd (piece.2.symm.trans whole) (by decide)
    exact ⟨.stream stream, fun whole => absurd whole piece, fun ended => ⟨⟨by rw [ends_append]; have := ended.one; omega,
      fun small => absurd small (not_small_of_stream stream)⟩, fun whole => absurd whole piece⟩⟩
  | small h =>
    obtain ⟨small, -, left⟩ := hshParserExec_small h hr
    refine ⟨.small small, fun whole => ?_, fun ended => ⟨⟨by rw [ends_append]; have := ended.one; omega, fun _ => ?_⟩,
      fun whole => ?_⟩⟩
    · rcases left with rfl | ⟨-, -, done⟩
      · cases whole.1
      · exact done
    · rcases left with rfl | ⟨-, -, done⟩
      · rw [show emitted noneToken = [] from rfl, List.append_nil]
        by_cases finished : httpFlagCheck parser.flags flagDone = true
        · unfold hshParserExec at hr
          rw [if_pos (.inl finished)] at hr
          cases hr
          exact .inl finished
        · exact .inr ((ended.two h).resolve_left finished)
      · exact .inl done
    · rcases left with rfl | ⟨-, running, -⟩
      · cases whole.1
      · exact (ended.two h).resolve_left fun done => absurd (running.symm.trans done) (by decide)

end Modes

def isHandler : Event → Bool
  | .invoke _ .requestHandler _ => true
  | _ => false

def handlerCalled (events : List Event) : Bool := events.any isHandler

@[simp] theorem handlerCalled_append (events more : List Event) :
    handlerCalled (events ++ more) = (handlerCalled events || handlerCalled more) := List.any_append

@[simp] theorem handlerCalled_cons (event : Event) (events : List Event) :
    handlerCalled (event :: events) = (isHandler event || handlerCalled events) := List.any_cons

@[simp] theorem handlerCalled_nil : handlerCalled [] = false := rfl

/-- Before the first call of the handler user code has nothing to answer, and the parser is not behind a head
    without a body. -/
structure Unhandled (cfg : Config) (c : Conn) : Prop where
  session : Session (fun _ _ _ => True) cfg c
  first : First cfg c
  goesOn : phase c.request.parser.state ≠ .headersDone
  noPieces : c.request.chunkCb = false
  idle : c.request.state ≠ .nop
  noBodies : lines c.request.tokens = c.request.tokens

/-- A connection before the first call of the handler, and behind it. -/
structure Course (cfg : Config) (c : Conn) : Prop where
  mode : Mode c.request.parser
  before : handlerCalled c.events = false → Unhandled cfg c
  behind : handlerCalled c.events = true → c.live = true → Ended c.request.tokens c.request.parser

/-- No step between the two called the handler. -/
def Quiet (c c' : Conn) : Prop := ∃ more, c'.events = c.events ++ more ∧ handlerCalled more = false

theorem quiet_refl {c c' : Conn} (events : c'.events = c.events) : Quiet c c' := ⟨[], by rw [events, List.append_nil], rfl⟩

theorem Quiet.called {c c' : Conn} (h : Quiet c c') : handlerCalled c'.events = handlerCalled c.events := by
  obtain ⟨more, events, silent⟩ := h
  rw [events, handlerCalled_append, silent, Bool.or_false]

/-- What a step does to the parser and the tokens. -/
inductive Effect (cfg : Config) (c c' : Conn) : Prop
  | same (parser : c'.request.parser = c.request.parser ∨ c'.request.parser = hshParserInit)
      (live : c'.live = true → c.live = true ∧ ends c'.request.tokens = ends c.request.tokens)
      (quiet : Quiet c c')
  | exec {blk : Block} {token : HshTokenS} {parser : HshParserS} {buffer : HshBufferS} {stack : List Frame}
      (hstack : c.stack = .parseBuffer :: stack)
      (hr : hshParserExec cfg.httpMaxRequestBufSize blk.1 c.request.parser c.request.buffer = some (token, parser, buffer))
      (parser_eq : c'.request.parser = parser) (live : c'.live = c.live)
      (tokens : ends c'.request.tokens = ends (c.request.tokens ++ emitted token))
      (waits : token.type = .headersDone → startsHandler token = false)
      (quiet : Quiet c c')
  | handler {blk : Block} {token : HshTokenS} {parser : HshParserS} {buffer : HshBufferS} {stack : List Frame}
      (hstack : c.stack = .parseBuffer :: stack)
      (hr : hshParserExec cfg.httpMaxRequestBufSize blk.1 c.request.parser c.request.buffer = some (token, parser, buffer))
      (parser_eq : c'.request.parser = parser) (live : c'.live = c.live)
      (tokens : c'.request.tokens = c.request.tokens ++ [token])
      (buffer_eq : c'.request.buffer = buffer)
      (starts : token.type = .headersDone ∧ startsHandler token = true ∨ IsWhole token)
      (events : c'.events = c.events ++ [.push c.serial token, .invoke c.serial .requestHandler c'.request])

section Steps

variable {cfg : Config} {c c' d : Conn} {l : Label} {stack : List Frame}

theorem move_effect (move : Move cfg c l c') : Effect cfg c c' := by
  have entered_machine : ∀ env d, (entered cfg env d).request.parser = d.request.parser ∨
      (entered cfg env d).request.parser = hshParserInit := by
    intro env d
    unfold entered initBuffer
    split
    · exact .inr rfl
    · exact .inl rfl
  have entered_tokens : ∀ env d, (entered cfg env d).request.tokens = d.request.tokens := by
    intro env d
    unfold entered initBuffer
    split <;> rfl
  cases move with
  | wakeRead => exact .same (.inl rfl) (fun live => ⟨live, rfl⟩) (quiet_refl rfl)
  | wakeWrite => exact .same (.inl rfl) (fun live => ⟨live, rfl⟩) (quiet_refl rfl)
  | swallow => exact .same (.inl rfl) (fun live => ⟨live, rfl⟩) (quiet_refl rfl)
  | tick => exact .same (.inl rfl) (fun live => ⟨live, rfl⟩) (quiet_refl rfl)
  | expire => exact .same (.inl rfl) (by rintro ⟨⟩) ⟨[.terminate], rfl, rfl⟩
  | @readSkip env stack =>
    refine .same (entered_machine env (popped stack c)) (fun live => ?_) (quiet_refl (by simp [popped]))
    exact ⟨by simpa [popped] using live, congrArg ends (entered_tokens env (popped stack c))⟩
  | @readEof env stack =>
    refine .same (entered_machine env (popped stack c)) (by rintro ⟨⟩)
      ⟨[.read (env.readCalls.map ReadCall.result), .terminate], ?_, rfl⟩
    simp [hsRequestTerminateConnection, filled, popped]
  | @readMore env stack =>
    refine .same (entered_machine env (popped stack c)) (fun live => ?_)
      ⟨[.read (env.readCalls.map ReadCall.result)], by simp [filled, popped], rfl⟩
    exact ⟨by simpa [filled, popped] using live, congrArg ends (entered_tokens env (popped stack c))⟩
  | execNone hstack hr type =>
    refine .exec hstack hr rfl rfl ?_ (fun ended => absurd (type.symm.trans ended) (by decide)) (quiet_refl rfl)
    rw [emitted, if_pos type, List.append_nil]
    rfl
  | @execErr blk respond _ token _ _ request memused hstack hr type hresp =>
    have same := hsRequestRespond_responded hresp
    refine .exec hstack hr same.parser_eq rfl ?_ (fun ended => absurd (type.symm.trans ended) (by decide))
      ⟨[.parseErr, .response request, .watch .epollout], by simp [hsRequestBeginWrite, answered, parsed, popped], rfl⟩
    have tokens : request.tokens = c.request.tokens := same.tokens_eq
    rw [ends_append, emitted_of_type (by rw [type]; decide)]
    change ends request.tokens = _
    simp [ends, type, tokens]
  | execLine hstack hr type =>
    refine .exec hstack hr rfl rfl ?_ type.2.2.2 ⟨[.push c.serial _], rfl, rfl⟩
    rw [emitted_of_type type.1]
    rfl
  | execHead hstack hr type starts =>
    exact .handler hstack hr rfl rfl rfl rfl (.inl ⟨type, starts⟩) (List.append_assoc c.events [_] [_])
  | execSmall hstack hr type small =>
    exact .handler hstack hr rfl rfl rfl rfl (.inr ⟨type, small⟩) (List.append_assoc c.events [_] [_])
  | execFinal hstack hr type =>
    refine .exec hstack hr rfl rfl ?_ (fun ended => absurd (type.symm.trans ended) (by decide))
      ⟨[.push c.serial _, .invoke c.serial .chunkCb _], List.append_assoc c.events [_] [_], rfl⟩
    rw [emitted_of_type (by rw [type]; decide)]
    rfl
  | execPiece hstack hr type =>
    refine .exec hstack hr rfl rfl ?_ (fun ended => absurd (type.symm.trans ended) (by decide))
      ⟨[.push c.serial _, .invoke c.serial .chunkCb _], List.append_assoc c.events [_] [_], rfl⟩
    rw [emitted_of_type (by rw [type]; decide)]
    rfl
  | writeMore => exact .same (.inl rfl) (fun live => ⟨live, rfl⟩) ⟨[.write _], rfl, rfl⟩
  | @writeErr call =>
    refine .same (.inl rfl) (by rintro ⟨⟩) ⟨[.write call.bytes, .terminate], ?_, rfl⟩
    simp [hsRequestTerminateConnection, finished, written, popped]
  | @writeClose call =>
    refine .same (.inl rfl) (by rintro ⟨⟩) ⟨[.write call.bytes, .responded c.serial, .terminate], ?_, rfl⟩
    simp [hsRequestTerminateConnection, finished, written, popped]
  | @writeNext call =>
    refine .same (.inl rfl) (fun live => ⟨live, rfl⟩) ⟨[.write call.bytes, .responded c.serial, .watch .epollin], ?_, rfl⟩
    simp [hsRequestBeginRead, finished, written, popped]
  | writeChunk =>
    exact .same (.inl rfl) (fun live => ⟨live, rfl⟩)
      ⟨[.write _, .invoke c.serial .chunkCb _], List.append_assoc c.events [_] [_], rfl⟩
  | respond _ _ hcall hf =>
    have same := responds_responded hcall hf
    exact .same (.inl same.parser_eq) (fun live => ⟨live, congrArg ends same.tokens_eq⟩)
      ⟨[.response _, .watch .epollout], List.append_assoc c.events [_] [_], rfl⟩
  | readChunk => exact .same (.inl rfl) (fun live => ⟨live, rfl⟩) ⟨[.watch .epollin], rfl, rfl⟩
  | freeBuffer => exact .same (.inl rfl) (fun live => ⟨live, rfl⟩) (quiet_refl rfl)
  | @connection directive =>
    obtain ⟨flags, hflags⟩ := @setKeepAlive_flags c.request directive
    refine .same (.inl ?_) (fun live => ⟨live, ?_⟩) (quiet_refl rfl) <;> rw [hflags]
  | callbackReturn => exact .same (.inl rfl) (fun live => ⟨live, rfl⟩) (quiet_refl rfl)
  | finalChunk =>
    refine .same (.inl rfl) (fun live => ⟨live, ?_⟩)
      ⟨[.push _ _, .invoke _ .chunkCb _], List.append_assoc c.events [_] [_], rfl⟩
    change ends (c.request.tokens ++ [{ type := .body }]) = _
    simp [ends]

theorem place_requested {max : ℤ} {input : List UInt8} {tokens : List HshTokenS} {parser : HshParserS} {buffer : HshBufferS}
    (h : Place max input tokens parser buffer) : Requested max input tokens parser buffer := by
  cases h with
  | head inHead plain => exact .head inHead plain
  | failed noBody error => exact .failed noBody error
  | past h => exact .behind h.behind

theorem Unhandled.beforeResponse (h : Unhandled cfg c) (asked : Asked c l) : BeforeResponse c l := by
  have noCall : ∀ call, l ≠ .call call := fun call hl =>
    absurd ((h.session.held.free h.idle).symm.trans (asked call hl)) (by decide)
  refine ⟨⟨asked, fun call hl => absurd hl (noCall call)⟩, ?_⟩
  cases l with
  | call call => exact absurd rfl (noCall call)
  | exec => exact h.goesOn
  | _ => trivial

/-- The place of the parser when it is called. -/
theorem Unhandled.place (h : Unhandled cfg c) (hstack : c.stack = .parseBuffer :: stack) :
    Place cfg.httpMaxRequestBufSize (receivedBytes c.events) c.request.tokens c.request.parser c.request.buffer := by
  have live : c.live = true := (h.session.steady.library hstack rfl).live
  have state := (h.session.steady.reading hstack (.inr rfl)).1
  cases h.first with
  | dead dead => exact absurd (dead.symm.trans live) (by decide)
  | refused write => exact absurd (state.symm.trans write) (by decide)
  | fresh _ _ _ block =>
    refine absurd block ((h.session.buffered.reading live state).resolve_left ?_)
    rw [hstack]
    simpa using (not_library (h.session.steady.below_popped hstack)).1
  | parsing _ _ _ _ place => exact place

theorem Unhandled.step (h : Unhandled cfg c) (asked : Asked c l) (move : Move cfg c l c')
    (quiet : handlerCalled c'.events = false) : Unhandled cfg c' := by
  obtain ⟨protocol, asking⟩ := h.beforeResponse asked
  have calls : Calls (fun _ _ _ => True) c l := by cases l <;> trivial
  have noCall : ∀ call, l ≠ .call call := fun call hl =>
    absurd ((h.session.held.free h.idle).symm.trans (asked call hl)) (by decide)
  have noPieces := h.noPieces
  have idle := h.idle
  have goesOn : phase c'.request.parser.state ≠ .headersDone := by
    cases move_effect move with
    | same parser =>
      rcases parser with same | same <;> rw [same]
      · exact h.goesOn
      · decide
    | exec hstack hr parser_eq _ _ waits =>
      intro done
      rw [parser_eq] at done
      obtain ⟨typed, noBody⟩ := (place_requested (h.place hstack)).empty (Subtype.property _) cfg.max_lt h.goesOn hr done
      have starts := waits typed
      rw [startsHandler, noBody, Bool.or_true] at starts
      cases starts
    | handler _ _ _ _ _ _ _ events => simp [events, isHandler] at quiet
  have entered_pieces : ∀ env d, (entered cfg env d).request.chunkCb = d.request.chunkCb := by
    intro env d
    unfold entered initBuffer
    split <;> rfl
  have entered_tokens : ∀ env d, (entered cfg env d).request.tokens = d.request.tokens := by
    intro env d
    unfold entered initBuffer
    split <;> rfl
  have noBodies := h.noBodies
  have rest : c'.request.chunkCb = false ∧ c'.request.state ≠ .nop ∧ lines c'.request.tokens = c'.request.tokens := by
    cases move with
    | wakeRead => exact ⟨noPieces, idle, noBodies⟩
    | wakeWrite => exact ⟨noPieces, idle, noBodies⟩
    | swallow => exact ⟨noPieces, idle, noBodies⟩
    | tick => exact ⟨noPieces, idle, noBodies⟩
    | expire => exact ⟨noPieces, idle, rfl⟩
    | @readSkip env stack =>
      refine ⟨(entered_pieces _ _).trans noPieces, by simp, ?_⟩
      rw [push_request, entered_tokens env (popped stack c)]
      exact noBodies
    | readEof => exact ⟨(entered_pieces _ _).trans noPieces, by simp [hsRequestTerminateConnection, filled], rfl⟩
    | @readMore env stack r =>
      refine ⟨(entered_pieces _ _).trans noPieces, by simp [filled], ?_⟩
      change lines (entered cfg env (popped stack c)).request.tokens = (entered cfg env (popped stack c)).request.tokens
      rw [entered_tokens env (popped stack c)]
      exact noBodies
    | execNone => exact ⟨noPieces, idle, noBodies⟩
    | execErr hstack hr type =>
      have noErr := (h.first.exec h.session.steady hstack h.session.buffered h.goesOn hr).2.2.2.1
      exact absurd type noErr
    | @execLine _ _ _ token _ _ _ _ type =>
      refine ⟨noPieces, idle, ?_⟩
      change lines (c.request.tokens ++ [token]) = c.request.tokens ++ [token]
      rw [lines_append, noBodies]
      simp [lines, type.2.2.1]
    | execHead => simp [invoked, isHandler] at quiet
    | execSmall => simp [invoked, isHandler] at quiet
    | execFinal _ _ _ _ _ _ callback => exact absurd (noPieces.symm.trans callback) (by decide)
    | execPiece _ _ _ _ _ callback => exact absurd (noPieces.symm.trans callback) (by decide)
    | writeMore => exact ⟨noPieces, idle, noBodies⟩
    | writeErr => exact ⟨noPieces, idle, rfl⟩
    | writeClose => exact ⟨noPieces, idle, rfl⟩
    | writeNext => exact ⟨noPieces, (by decide : HttpSession.read ≠ .nop), noBodies⟩
    | writeChunk _ _ _ _ callback => exact absurd (noPieces.symm.trans callback) (by decide)
    | respond => exact absurd rfl (noCall _)
    | readChunk => exact absurd rfl (noCall _)
    | freeBuffer => exact absurd rfl (noCall _)
    | connection => exact absurd rfl (noCall _)
    | callbackReturn => exact ⟨noPieces, idle, noBodies⟩
    | finalChunk _ _ callback => exact absurd (noPieces.symm.trans callback) (by decide)
  exact ⟨h.session.step protocol calls move, h.first.step h.session.steady h.session.held h.session.buffered
    h.session.kept asked asking move, goesOn, rest.1, rest.2.1, rest.2.2⟩

/-- The first call of the handler: one head has ended. -/
theorem Unhandled.starts (h : Unhandled cfg c) (mode : Mode c.request.parser) {blk : Block} {token : HshTokenS}
    {parser : HshParserS} {buffer : HshBufferS} (hstack : c.stack = .parseBuffer :: stack)
    (hr : hshParserExec cfg.httpMaxRequestBufSize blk.1 c.request.parser c.request.buffer = some (token, parser, buffer))
    (starts : token.type = .headersDone ∧ startsHandler token = true ∨ IsWhole token) :
    Ended (c.request.tokens ++ [token]) parser := by
  rcases starts with ⟨typed, starts⟩ | whole
  · refine ⟨by simp [ends, typed], fun small => ?_⟩
    obtain ⟨-, w, ended⟩ := ((place_requested (h.place hstack)).exec blk.2 cfg.max_lt h.goesOn hr).2.ended typed
    have mode := ended.finished.mode
    rcases (small {}).small with ph | ⟨ph, -⟩
    · change phase parser.state = _ at ph
      rw [ph] at mode
      have none : token.flags = 0 := (Option.some.inj mode).symm
      rw [startsHandler, none] at starts
      exact absurd starts (by decide)
    · change phase parser.state = _ at ph
      rw [ph] at mode
      cases mode
  · have past := (h.first.exec h.session.steady hstack h.session.buffered h.goesOn hr).2.2.2.2.2 (.inl (.inr whole.1))
    obtain ⟨w, past⟩ := past
    rw [emitted_of_type (by rw [whole.1]; decide)] at past
    obtain ⟨head, pieces, split, shapes, -⟩ := past.shows
    obtain ⟨front, last⟩ := past.accepted.last
    refine ⟨?_, fun _ => .inl ((@Mode.exec _ _ _ _ _ _ _ [] mode hr).2.1 whole)⟩
    have mem : (HshTokenE.headersDone, 0, 0) ∈ head.map shape := by
      rw [shapes, last]
      exact List.mem_append_right _ List.mem_cons_self
    obtain ⟨t, ht, same⟩ := List.mem_map.1 mem
    rw [split]
    refine List.countP_pos_iff.2 ⟨t, List.mem_append_left _ ht, ?_⟩
    exact decide_eq_true (congrArg Prod.fst same)

theorem Course.step (h : Course cfg c) (asked : Asked c l) (move : Move cfg c l c') : Course cfg c' := by
  have before : handlerCalled c.events = false → handlerCalled c'.events = false → Unhandled cfg c' :=
    fun idle quiet => (h.before idle).step asked move quiet
  cases move_effect move with
  | same parser live quietly =>
    have events := quietly.called
    rw [← events] at before
    refine ⟨?_, fun quiet => before quiet quiet, fun called alive => ?_⟩
    · rcases parser with same | same <;> rw [same]
      · exact h.mode
      · exact mode_init
    · obtain ⟨was, tokens⟩ := live alive
      have ended := h.behind (events ▸ called) was
      refine ⟨by rw [tokens]; exact ended.one, fun small => ?_⟩
      rw [tokens]
      rcases parser with same | same
      · rw [same] at small ⊢
        exact ended.two small
      · rw [same] at small
        exact absurd small (not_small_of_head ⟨by decide, by decide, by decide, by decide⟩)
  | exec hstack hr parser_eq live tokens _ quietly =>
    have events := quietly.called
    rw [← events] at before
    obtain ⟨mode, -, ended⟩ := h.mode.exec hr
    refine ⟨parser_eq ▸ mode, fun quiet => before quiet quiet, fun called alive => ?_⟩
    have next := (ended (h.behind (events ▸ called) (live ▸ alive))).1
    rw [parser_eq]
    exact ⟨tokens ▸ next.one, fun small => tokens ▸ next.two small⟩
  | handler hstack hr parser_eq live tokens _ starts events =>
    have called : handlerCalled c'.events = true := by simp [events, isHandler]
    obtain ⟨mode, -, ended⟩ := h.mode.exec hr
    refine ⟨parser_eq ▸ mode, fun quiet => absurd (quiet.symm.trans called) (by decide), fun _ alive => ?_⟩
    rw [live] at alive
    rw [tokens, parser_eq]
    by_cases again : handlerCalled c.events = true
    · have next := (ended (h.behind again alive)).1
      rw [emitted_of_type (by rcases starts with ⟨typed, -⟩ | ⟨typed, -⟩ <;> rw [typed] <;> decide)] at next
      exact next
    · exact (h.before (eq_false_of_ne_true again)).starts h.mode hstack hr starts

theorem hsRequestRespond_chunkCb {date : CString} {blks : ℕ → NewBlock} {request request' : HttpRequestS}
    {response : HttpResponseS} {memused memused' : ℤ}
    (h : hsRequestRespond date blks request response memused = some (request', memused')) :
    request'.chunkCb = request.chunkCb := by
  obtain ⟨⟨r, s⟩, hr, h⟩ := Option.bind_eq_some_iff.1 h
  obtain ⟨t, -, h⟩ := Option.map_eq_some_iff.1 h
  obtain ⟨⟨flags, rfl⟩, -⟩ := httpSerializeHeaders_printed hr
  cases h
  rfl

theorem course_accepted (h : Accepted c) : Course cfg c := by
  have session : Session (fun _ _ _ => True) cfg c := session_accepted h
  have first : First cfg c := first_accepted h
  have quiet : handlerCalled c.events = false ∧ Mode c.request.parser ∧ phase c.request.parser.state ≠ .headersDone ∧
      c.request.chunkCb = false ∧ c.request.state ≠ .nop ∧ c.request.tokens = [] := by
    have error : phase ({} : HshParserS).state = .error := by decide
    have stream : Mode ({} : HshParserS) := by
      refine .stream fun _ => ⟨show (0 : ℕ) < 98 by decide, show isStream (phase 0) = true by decide,
        show httpFlagCheck 0 flagTokenReady = false by decide, fun piece => ?_⟩
      exact absurd piece (show ¬ inPiece (phase 0) = true by decide)
    obtain ⟨memused, rfl | ⟨respond, request, memused', hresp, rfl⟩⟩ := accepted_cases h
    · refine ⟨rfl, stream, ?_, rfl, (by decide : HttpSession.read ≠ .nop), rfl⟩
      change phase ({} : HshParserS).state ≠ _
      rw [error]
      decide
    · have parser : request.parser = {} := (hsRequestRespond_responded hresp).parser_eq
      refine ⟨rfl, ?_, ?_, hsRequestRespond_chunkCb hresp, (by decide : HttpSession.write ≠ .nop),
        (hsRequestRespond_responded hresp).tokens_eq⟩
      · change Mode request.parser
        rw [parser]
        exact stream
      · change phase request.parser.state ≠ _
        rw [parser, error]
        decide
  obtain ⟨silent, mode, goesOn, noPieces, idle, none⟩ := quiet
  exact ⟨mode, fun _ => ⟨session, first, goesOn, noPieces, idle, by rw [none]; rfl⟩, fun called => absurd (silent.symm.trans called) (by decide)⟩

theorem course_reached (run : Runs.Reached (Connection.step cfg) Accepted Asked c) : Course cfg c :=
  run.invariant (fun _ h => course_accepted h) fun _ _ _ h asked hs => h.step asked (step_move hs)

end Steps

end HttpServer.HandlerCalls
