import HttpServer.ConnectionSteps
import HttpServer.KeptHeads

set_option autoImplicit false

/-!
# What has arrived of a request

The parser waits for more bytes only while the request is incomplete, unless it has broken off at a byte
or at the limit of a token.
-/
namespace HttpServer.ArrivedRequests
open MachineInt Scanner ParserTables ParserGrammar HttpServer.Parser ReadBuffer ParserInvariant ParserRuns HeadMachine
  HeadGrammar HeadRuns BodyPhases ParserCalls HeadFields HeadTexts RequestRuns ConnectionSteps

section Purpose

variable {max : ℤ} {w w' input : List UInt8}

/-- The head `w` is accepted, and no token of it is too long. -/
def WholeHead (w : List UInt8) : Prop :=
  ∃ h breaks, headRun w {} = some (h, breaks) ∧ h.ph = .headersDone ∧ none ∉ breaks

/-- `w` is the head of a request in `input`, and its body has arrived if it is handed over with the head. -/
structure Arrived (max : ℤ) (w input : List UInt8) : Prop where
  whole : WholeHead w
  prefix_eq : w <+: input
  length_ge : modeOf max w = 0 → 0 ≤ (Fields.start.run w).contentLength
  body : modeOf max w = 0 → w.length + (Fields.start.run w).contentLength ≤ input.length

/-- The parser breaks off in `input`. -/
def BreaksOff (input : List UInt8) : Prop :=
  ∃ w h breaks, w <+: input ∧ headRun w {} = some (h, breaks) ∧ none ∈ breaks

/-- How many of the bytes `request_handler` is given: the head, and a body that comes with it. -/
def handedLength (max : ℤ) (w : List UInt8) : ℕ :=
  w.length + if modeOf max w = 0 then (Fields.start.run w).contentLength.toNat else 0

def handedShapes (max : ℤ) (w : List UInt8) : List Shape :=
  headShapes w ++ if modeOf max w = 0 then [(HshTokenE.body, (w.length : ℤ), (Fields.start.run w).contentLength)]
    else []

/-- The tokens and the bytes of a request are those of the head `w` and of a body that comes with it. -/
structure HandsOver (max : ℤ) (w input : List UInt8) (tokens : List HshTokenS) (data : ℤ → UInt8) : Prop where
  shapes : tokens.map shape = handedShapes max w
  length_le : handedLength max w ≤ input.length
  bytes : slice data 0 (handedLength max w) = input.take (handedLength max w)

/-- The request is the one that the bytes begin with. -/
def Tells (max : ℤ) (input : List UInt8) (tokens : List HshTokenS) (data : ℤ → UInt8) : Prop :=
  ∃ w, AcceptedHead w ∧ w <+: input ∧
    ((modeOf max w = 0 → 0 ≤ (Fields.start.run w).contentLength) → HandsOver max w input tokens data)

theorem WholeHead.accepted (h : WholeHead w) : AcceptedHead w := by
  obtain ⟨h, breaks, run, done, -⟩ := h
  exact ⟨h, breaks, run, done⟩

theorem WholeHead.ne_nil (h : WholeHead w) : w ≠ [] := by
  rintro rfl
  obtain ⟨h, breaks, run, done, -⟩ := h
  rw [(headRun_nil run).1] at done
  cases done

theorem BreaksOff.more (h : BreaksOff input) (more : List UInt8) : BreaksOff (input ++ more) := by
  obtain ⟨w, h, breaks, start, run⟩ := h
  exact ⟨w, h, breaks, start.trans (List.prefix_append _ _), run⟩

theorem Tells.more {tokens : List HshTokenS} {data : ℤ → UInt8} (h : Tells max input tokens data) (more : List UInt8) :
    Tells max (input ++ more) tokens data := by
  obtain ⟨w, accepted, start, told⟩ := h
  refine ⟨w, accepted, start.trans (List.prefix_append _ _), fun length => ?_⟩
  obtain ⟨shapes, le, bytes⟩ := told length
  refine ⟨shapes, ?_, bytes.trans (List.take_append_of_le_length le).symm⟩
  rw [List.length_append]
  omega

theorem accepted_unique (accepted : AcceptedHead w) (accepted' : AcceptedHead w') (start : w <+: input)
    (start' : w' <+: input) : w' = w := by
  rcases List.prefix_or_prefix_of_prefix start start' with le | le
  · exact accepted.eq_of_prefix accepted' le
  · exact (accepted'.eq_of_prefix accepted le).symm

/-- A request that arrives whole is not broken off. -/
theorem Arrived.unbroken (arrived : Arrived max w input) : ¬ BreaksOff input := by
  rintro ⟨w', h', breaks', start', run', off⟩
  obtain ⟨⟨h, breaks, run, done, whole⟩, start, -, -⟩ := arrived
  rcases List.prefix_or_prefix_of_prefix start' start with ⟨rest, rfl⟩ | ⟨rest, rfl⟩
  · rw [headRun_append, run', Option.bind_some] at run
    obtain ⟨r, -, heq⟩ := Option.map_eq_some_iff.1 run
    cases heq
    exact whole (List.mem_append_left _ off)
  · rw [headRun_append, run, Option.bind_some] at run'
    obtain ⟨r, hr, heq⟩ := Option.map_eq_some_iff.1 run'
    obtain ⟨-, -, none⟩ := headRun_done done hr
    cases heq
    rw [none, List.append_nil] at off
    exact whole off

theorem Arrived.done {h : HeadScan} {breaks : List (Option Shape)} (arrived : Arrived max w input)
    (run : headRun input {} = some (h, breaks)) : isHead h.ph = false := by
  obtain ⟨⟨h', breaks', run', done, -⟩, ⟨rest, rfl⟩, -, -⟩ := arrived
  rw [headRun_append, run', Option.bind_some] at run
  obtain ⟨r, hr, heq⟩ := Option.map_eq_some_iff.1 run
  obtain ⟨-, same, -⟩ := headRun_done done hr
  cases heq
  rw [same, done]
  rfl

end Purpose

section Ends

variable {max : ℤ} {blk : NewBlock} {b : HshBufferS} {q : ℤ} {s t : Exec} {parser parser' : HshParserS}
  {buffer buffer' : HshBufferS} {token : HshTokenS} {c : UInt8}

structure Lining (b : HshBufferS) (q : ℤ) (s : Exec) : Prop where
  buffer_eq : s.buffer = b
  pe_eq : s.pe = b.buf + b.length
  typed : s.parser.token.type ≠ .headersDone
  sequenceId_eq : s.parser.sequenceId = q
  ge : b.buf ≤ s.p
  le : s.p ≤ s.pe

def LineEnd (b : HshBufferS) (q : ℤ) (s : Exec) : Prop :=
  s.parser.token.type = .headersDone → s.parser.sequenceId = q ∧ s.buffer.sequenceId = b.sequenceId ∧
    s.p = b.buf + s.buffer.afterHeadersIndex

theorem lineEnd_typed (typed : s.parser.token.type ≠ .headersDone) : LineEnd b q s := fun done => absurd done typed

theorem runAction_lining {a : Action} (lt : b.length < 2147483648) (h : Lining b q t) (inside : t.p < t.pe) :
    (runAction max blk c a t).Sat True (fun t => Lining b q t ∧ t.p < t.pe) (LineEnd b q) := by
  obtain ⟨same, pe, typed, seq, ge, le⟩ := id h
  have entered : ∀ {type : HshTokenE} {limit : ℤ}, type ≠ .headersDone →
      Lining b q (hshEnterToken type limit t) ∧ (hshEnterToken type limit t).p < t.pe :=
    fun other => ⟨⟨same, pe, other, seq, ge, le⟩, inside⟩
  cases a with
  | method => exact entered (by decide)
  | target => exact entered (by decide)
  | version => exact entered (by decide)
  | headerKey => exact entered (by decide)
  | headerValue => exact entered (by decide)
  | body => exact ⟨⟨same, pe, (by decide : HshTokenE.body ≠ .headersDone), seq, ge, le⟩, inside⟩
  | emitToken => exact lineEnd_typed typed
  | contentLengthDigit => exact ⟨⟨same, pe, typed, seq, ge, le⟩, inside⟩
  | transferEncoding => exact ⟨⟨same, pe, typed, seq, ge, le⟩, inside⟩
  | resetCount => exact ⟨⟨same, pe, typed, seq, ge, le⟩, inside⟩
  | chunkStart => exact ⟨⟨same, pe, typed, seq, ge, le⟩, inside⟩
  | chunkSize =>
    obtain ⟨n, hn⟩ := chunkSize_cases c t
    change (Flow.fall (chunkSize c t)).Sat _ _ _
    rw [hn]
    exact ⟨⟨same, pe, typed, seq, ge, le⟩, inside⟩
  | incCount =>
    change (incCount t).Sat _ _ _
    unfold incCount
    dsimp only
    split
    · exact lineEnd_typed typed
    · exact ⟨⟨same, pe, typed, seq, ge, le⟩, inside⟩
  | doneHeaders =>
    have cursor : t.p + 1 = b.buf + wrap32 (t.p - t.buffer.buf + 1) := by
      rw [same, wrap32_eq (by omega) (by omega)]
      ring
    have seqs : t.buffer.sequenceId = b.sequenceId := by rw [same]
    change (doneHeaders max blk t).Sat _ _ _
    unfold doneHeaders
    dsimp only
    split
    · exact fun _ => ⟨seq, seqs, cursor⟩
    split
    · exact fun _ => ⟨seq, seqs, cursor⟩
    split
    · exact fun _ => ⟨seq, seqs, cursor⟩
    refine fun _ => ⟨seq, ?_, ?_⟩
    · dsimp only
      split <;> exact seqs
    · dsimp only
      split <;> exact cursor
  | chunkRead =>
    change (chunkRead max t).Sat _ _ _
    unfold chunkRead
    dsimp only
    split
    · exact lineEnd_typed typed
    split
    · split
      · trivial
      · exact lineEnd_typed typed
    · exact ⟨⟨same, pe, typed, seq, ge, le⟩, inside⟩
  | endStream => exact lineEnd_typed (by decide : HshTokenE.body ≠ .headersDone)
  | smallBodyRead =>
    change (smallBodyRead t).Sat _ _ _
    unfold smallBodyRead
    dsimp only
    split <;> exact lineEnd_typed typed
  | largeBodyRead =>
    change (largeBodyRead t).Sat _ _ _
    unfold largeBodyRead
    dsimp only
    split <;> exact lineEnd_typed typed
  | error => exact lineEnd_typed typed

theorem hshParserExec_ended (lt : buffer.length < 2147483648) (inside : 0 ≤ buffer.index ∧ buffer.index ≤ buffer.length)
    (typed : parser.token.type ≠ .headersDone)
    (hr : hshParserExec max blk parser buffer = some (token, parser', buffer')) (done : token.type = .headersDone) :
    parser'.sequenceId = parser.sequenceId ∧ buffer'.sequenceId = buffer.sequenceId ∧
      buffer'.index = wrap32 (buffer.buf + buffer'.afterHeadersIndex - buffer'.buf) := by
  have start : Lining buffer parser.sequenceId (enter parser buffer) := by
    refine ⟨rfl, rfl, typed, rfl, ?_, ?_⟩
    · change buffer.buf ≤ buffer.buf + buffer.index
      omega
    · change buffer.buf + buffer.index ≤ buffer.buf + buffer.length
      omega
  have step : ∀ c s, Lining buffer parser.sequenceId s → s.p ≠ s.pe → s.cs ≠ hshHttpError → True →
      ((machine max blk).step c s).Sat True (Lining buffer parser.sequenceId) (LineEnd buffer parser.sequenceId) := by
    intro c s hs moving _ _
    have more : s.p < s.pe := lt_of_le_of_ne hs.le moving
    refine Machine.step_sat (P := fun t => Lining buffer parser.sequenceId t ∧ t.p < t.pe) _ ?_ fun t ht => ?_
    · refine Machine.runActs_sat _ (C := fun _ _ _ => True) (fun a _ t ht _ => runAction_lining lt ht.1 ht.2) ?_
        (Machine.actsOk_true _ _ _ _)
      exact ⟨⟨hs.buffer_eq, hs.pe_eq, hs.typed, hs.sequenceId_eq, hs.ge, hs.le⟩, more⟩
    · obtain ⟨lining, more⟩ := ht
      rcases again_cases t with ⟨heq, -⟩ | heq <;> rw [heq]
      · exact lineEnd_typed lining.typed
      · have ge := lining.ge
        refine ⟨lining.buffer_eq, lining.pe_eq, lining.typed, lining.sequenceId_eq, ?_, ?_⟩
        · change buffer.buf ≤ t.p + 1
          omega
        · change t.p + 1 ≤ t.pe
          omega
  rcases hshParserExec_sat start (fun _ hs => lineEnd_typed hs.typed) step execOk_any hr with heq | ⟨t, left, heq⟩
  · cases heq
    cases done
  rcases leave_cases t with ⟨-, hl⟩ | ⟨-, hl⟩ <;> rw [hl] at heq <;> cases heq
  · obtain ⟨seq, same, cursor⟩ := left done
    refine ⟨seq, same, ?_⟩
    dsimp only
    rw [cursor]
  · cases done

end Ends

section Calls

variable {max : ℤ} {blk : NewBlock} {input w : List UInt8} {tokens : List HshTokenS} {token : HshTokenS} {h : HeadScan}
  {parser parser' : HshParserS} {buffer buffer' : HshBufferS}

/-- A call inside a head that returns no token has taken all bytes, or has broken off. -/
theorem InHead.call (inHead : InHead max input tokens parser buffer w h) (behind : parser.sequenceId ≠ buffer.sequenceId)
    (hr : hshParserExec max blk parser buffer = some (token, parser', buffer')) :
    (token.type = .none → BreaksOff input ∨
      isHead (phase parser'.state) = true ∧ parser'.sequenceId = buffer'.sequenceId ∧ buffer'.index = buffer'.length) ∧
      (isLine token.type = true → parser'.sequenceId ≠ buffer'.sequenceId) := by
  have reached := inHead.reached
  obtain ⟨breaks, run, -⟩ := reached.run
  have index := reached.rest.index_eq
  have within := reached.rest.inside
  obtain ⟨consumed, h₁, token₁, parser₁, buffer₁, hexec, exec, -⟩ :=
    hshParserExec_head max blk reached.ok reached.rest reached.live behind
  rw [hexec] at hr
  cases hr
  cases exec with
  | none rest all first silent head seen =>
    refine ⟨fun _ => ?_, nofun⟩
    rcases silent with rfl | rfl
    · have offset := headRun_offset first
      have length := congrArg List.length rest
      rw [all rfl, List.append_nil, unconsumed, slice_length] at length
      refine .inr ⟨?_, seen, ?_⟩
      · have stays := headRun_stays reached.live first
        rw [← head.sim.phase_eq] at stays
        exact stays
      · change h₁.offset = buffer.length
        omega
    · refine .inl ⟨w ++ consumed, h₁, breaks ++ [none], ?_, ?_, by simp⟩
      · rw [← reached.input_eq, rest, ← List.append_assoc]
        exact List.prefix_append _ _
      · rw [headRun_append, run, Option.bind_some, first]
        rfl
  | token _ _ typed _ _ again =>
    refine ⟨fun none => ?_, fun _ => ?_⟩
    · rw [none] at typed
      cases typed
    · rw [again]
      exact behind
  | done _ _ _ last =>
    have typed : token.type = .headersDone := congrArg Prod.fst last
    exact ⟨fun h => (by rw [typed] at h; cases h), fun h => (by rw [typed] at h; cases h)⟩

/-- The body does not end in the buffer, or no byte is new. -/
def Incomplete (parser : HshParserS) (buffer : HshBufferS) : Prop :=
  buffer.index = buffer.length ∨
    buffer.buf + buffer.length < addr64 (buffer.buf + buffer.afterHeadersIndex + parser.contentLength - 1)

/-- The loop is left in a small body: with the body, or with all bytes taken. -/
inductive SmallLeft (parser : HshParserS) (buffer : HshBufferS) (t : Exec) : Prop
  | piece (ready : httpFlagCheck t.parser.flags flagTokenReady = true) (typed : t.parser.token.type = .body)
      (index : t.parser.token.index = buffer.afterHeadersIndex) (len : t.parser.token.len = wrap32 parser.contentLength)
      (all : addr64 (buffer.buf + buffer.afterHeadersIndex + parser.contentLength - 1) ≤ buffer.buf + buffer.length)
      (more : buffer.index ≠ buffer.length)
  | waits (quiet : httpFlagCheck t.parser.flags flagTokenReady = false) (same : t.buffer = buffer)
      (cursor : t.p = buffer.buf + buffer.length) (running : httpFlagCheck t.parser.flags flagDone = false)
      (rest : Incomplete parser buffer)

theorem smallBodyRead_left {t : Exec} (same : t.buffer = buffer) (pe : t.pe = buffer.buf + buffer.length)
    (content : t.parser.contentLength = parser.contentLength) (typed : t.parser.token.type = .body)
    (running : httpFlagCheck t.parser.flags flagDone = false)
    (quiet : httpFlagCheck t.parser.flags flagTokenReady = false) (more : buffer.index ≠ buffer.length) :
    (smallBodyRead t).Sat True (fun _ => False) (SmallLeft parser buffer) := by
  unfold smallBodyRead
  dsimp only
  split
  · rename_i all
    have all : t.pe ≥ addr64 (t.buffer.buf + t.buffer.afterHeadersIndex + t.parser.contentLength - 1) := all
    rw [same, pe, content] at all
    exact .piece ((tokenReady_set_done _).trans (tokenReady_set _)) typed (congrArg HshBufferS.afterHeadersIndex same)
      (congrArg wrap32 content) all more
  · rename_i part
    have part : t.pe < addr64 (t.buffer.buf + t.buffer.afterHeadersIndex + t.parser.contentLength - 1) := not_le.1 part
    rw [same, pe, content] at part
    refine .waits quiet same ?_ running (.inr part)
    change t.pe - 1 + 1 = _
    rw [pe]
    ring

/-- What a call of the parser makes of a small body. -/
inductive SmallCall (parser : HshParserS) (buffer : HshBufferS) (token : HshTokenS) (parser' : HshParserS)
    (buffer' : HshBufferS) : Prop
  | idle (none : token = noneToken) (seen : parser.sequenceId = buffer.sequenceId)
      (running : httpFlagCheck parser'.flags flagDone = false)
  | waits (none : token = noneToken) (seen : parser'.sequenceId = buffer'.sequenceId)
      (taken : buffer'.index = buffer'.length) (running : httpFlagCheck parser'.flags flagDone = false)
      (rest : Incomplete parser buffer)
  | piece (typed : token.type = .body) (index : token.index = buffer.afterHeadersIndex)
      (len : token.len = wrap32 parser.contentLength)
      (all : addr64 (buffer.buf + buffer.afterHeadersIndex + parser.contentLength - 1) ≤ buffer.buf + buffer.length)
      (more : buffer.index ≠ buffer.length)

theorem small_call (small : SmallBody parser) (running : httpFlagCheck parser.flags flagDone = false)
    (length_lt : buffer.length < 2147483648) (nonneg : 0 ≤ buffer.length)
    (hr : hshParserExec max blk parser buffer = some (token, parser', buffer')) :
    SmallCall parser buffer token parser' buffer' := by
  have inv := small buffer
  have alive : (enter parser buffer).cs ≠ hshHttpError := by
    intro h0
    rcases inv.small with h | ⟨h, -⟩ <;> rw [h0] at h <;> cases h
  have step : ∀ c s, s = enter parser buffer → s.p ≠ s.pe → s.cs ≠ hshHttpError → True →
      (machine max blk).ActsOk (fun _ _ _ => True) c ((machine max blk).trans c s).2 ((machine max blk).trans c s).1 →
      ((machine max blk).step c s).Sat True (fun s => s = enter parser buffer) (SmallLeft parser buffer) := by
    rintro c _ rfl moving - - -
    have hc : c.toNat < 256 := c.toNat_lt
    have more : buffer.index ≠ buffer.length := fun same => moving (congrArg (buffer.buf + ·) same)
    have plain : phase (enter parser buffer).cs ≠ .bodyData ∧ phase (enter parser buffer).cs ≠ .ows ∧
        phase (enter parser buffer).cs ≠ .value := by
      rcases inv.small with h | ⟨h, -⟩ <;> rw [h] <;> decide
    have hacts := tables_agree_exact inv.state_lt hc alive plain.1 plain.2
    refine Machine.step_sat (P := fun _ => False) _ ?_ fun _ h => h.elim
    change ((machine max blk).runActs c (transActions (enter parser buffer).cs c.toNat)
      { enter parser buffer with cs := transTarg (enter parser buffer).cs c.toNat }).Sat _ _ _
    rw [hacts]
    have only : ∀ t : Exec, (smallBodyRead t).Sat True (fun _ => False) (SmallLeft parser buffer) →
        ((machine max blk).runActs c [.smallBodyRead] t).Sat True (fun _ => False) (SmallLeft parser buffer) := by
      intro t sat
      exact Machine.runActs_cons_sat (C := fun _ _ _ => True) (P := fun _ => False) _ (fun _ => sat)
        (fun _ hf _ => hf.elim) (Machine.actsOk_true _ _ _ _)
    rcases inv.small with first | ⟨rest, typed⟩
    · rw [first]
      change ((machine max blk).runActs c [.body, .smallBodyRead] _).Sat _ _ _
      rw [Machine.runActs_fall _
        (t := body { enter parser buffer with cs := transTarg (enter parser buffer).cs c.toNat }) rfl]
      exact only _ (smallBodyRead_left rfl rfl rfl rfl running inv.tokenReady more)
    · rw [rest]
      exact only _ (smallBodyRead_left rfl rfl rfl typed running inv.tokenReady more)
  have stop : ∀ s, s = enter parser buffer → s.p = s.pe ∨ s.cs = hshHttpError → SmallLeft parser buffer s := by
    rintro _ rfl ended
    have cursor : buffer.buf + buffer.index = buffer.buf + buffer.length := ended.resolve_right alive
    exact .waits inv.tokenReady rfl cursor running (.inl (by omega))
  rcases hshParserExec_rule (I := fun s => s = enter parser buffer) rfl stop step execOk_any hr with
    ⟨idle, heq⟩ | ⟨t, left, heq⟩
  · cases heq
    exact .idle rfl (idle.resolve_left (by rw [running]; decide)) running
  cases left with
  | piece ready typed index len all more =>
    rw [leave_ready ready] at heq
    cases heq
    exact .piece typed index len all more
  | waits quiet same cursor flag rest =>
    rcases leave_cases t with ⟨ready, -⟩ | ⟨-, hl⟩
    · exact absurd (quiet.symm.trans ready) (by decide)
    rw [hl] at heq
    cases heq
    refine .waits rfl rfl ?_ flag rest
    change wrap32 (t.p - t.buffer.buf) = t.buffer.length
    rw [cursor, same, add_sub_cancel_left, wrap32_eq (by omega) length_lt]

/-- All bytes of a small body but the last have arrived, and some of them are new to the parser. -/
def OneShort (parser : HshParserS) (buffer : HshBufferS) : Prop :=
  inSmall (phase parser.state) = true ∧ buffer.index ≠ buffer.length ∧
    buffer.length + 1 = buffer.afterHeadersIndex + parser.contentLength

instance (parser : HshParserS) (buffer : HshBufferS) : Decidable (OneShort parser buffer) :=
  inferInstanceAs (Decidable (_ ∧ _))

end Calls

section Requests

variable {max : ℤ} {blk : NewBlock} {input w : List UInt8} {tokens : List HshTokenS} {token : HshTokenS}
  {parser parser' : HshParserS} {buffer buffer' : HshBufferS}

/-- A request that `request_handler` does not know of. -/
inductive Pending (max : ℤ) (input : List UInt8) (tokens : List HshTokenS) (parser : HshParserS) (buffer : HshBufferS) :
    Prop
  | head {w : List UInt8} {h : HeadScan} (inHead : InHead max input tokens parser buffer w h) (plain : lines tokens = tokens)
  | small {w : List UInt8} (accepted : AcceptedHead w) (start : w <+: input)
      (shapes : tokens.map shape = headShapes w) (mode : modeOf max w = 0)
      (small : InSmall max parser buffer w input) (running : httpFlagCheck parser.flags flagDone = false)

/-- The parser has seen all bytes, and they are not all of a request; or it has broken off. -/
def Waits (max : ℤ) (input : List UInt8) (tokens : List HshTokenS) (parser : HshParserS) (buffer : HshBufferS) : Prop :=
  BreaksOff input ∨ Pending max input tokens parser buffer ∧ parser.sequenceId = buffer.sequenceId ∧
    buffer.index = buffer.length ∧ ∀ w, ¬ Arrived max w input

/-- The parser is called next, and it will look at the bytes. -/
def Ready (max : ℤ) (input : List UInt8) (tokens : List HshTokenS) (parser : HshParserS) (buffer : HshBufferS) : Prop :=
  BreaksOff input ∨ Pending max input tokens parser buffer ∧ parser.sequenceId ≠ buffer.sequenceId ∧
    (isHead (phase parser.state) = true ∨ buffer.index ≠ buffer.length ∨ ∀ w, ¬ Arrived max w input)

theorem Pending.ok (h : Pending max input tokens parser buffer) : BufferOk true max buffer := by
  cases h with
  | head inHead => exact inHead.reached.ok
  | small _ _ _ _ small => exact small.ok

theorem InHead.isHead {h : HeadScan} (inHead : InHead max input tokens parser buffer w h) :
    isHead (phase parser.state) = true := by
  have live := inHead.reached.live
  rw [← inHead.reached.rest.sim.phase_eq] at live
  exact live

theorem InSmall.phase_small {w : List UInt8} (small : InSmall max parser buffer w input) :
    inSmall (phase parser.state) = true := by
  rcases (small.small buffer).small with h | ⟨h, -⟩ <;>
    · change phase parser.state = _ at h
      rw [h]
      rfl

theorem waits_init {initial memused : ℤ} (hblk : BlockOk blk) (nonneg : 0 ≤ initial) (le : initial ≤ max)
    (max_lt : max < 2147483648) : Waits max [] [] hshParserInit (hsBufferInit blk initial memused).1 := by
  refine .inr ⟨.head (inHead_init hblk nonneg le max_lt) rfl, rfl, rfl, fun w arrived => ?_⟩
  exact arrived.whole.ne_nil (List.prefix_nil.1 arrived.prefix_eq)

theorem Waits.read {calls : List ReadCall} {memused : ℤ} {r : ReadReturn} (h : Waits max input tokens parser buffer)
    (max_ge : -2147483648 ≤ max) (max_lt : max < 2147483648) (hblk : ∀ call ∈ calls, BlockOk call.blk)
    (hr : hsReadIntoBuffer max calls buffer memused = some r) :
    Ready max (input ++ received calls) tokens parser r.buffer := by
  rcases h with off | ⟨pending, same, taken, incomplete⟩
  · exact .inl (off.more _)
  obtain ⟨-, app, seq, -⟩ := hsReadIntoBuffer_spec max_ge max_lt hblk pending.ok hr
  have behind : parser.sequenceId ≠ r.buffer.sequenceId := by
    rw [seq, same]
    exact (wrap8_succ_ne _).symm
  cases pending with
  | head inHead plain =>
    exact .inr ⟨.head (inHead.read max_ge max_lt hblk hr) plain, behind, .inl (InHead.isHead inHead)⟩
  | small accepted start shapes mode small running =>
    refine .inr ⟨.small accepted (start.trans (List.prefix_append _ _)) shapes mode
      (small.read max_ge max_lt hblk hr) running, behind, .inr ?_⟩
    by_cases new : received calls = []
    · rw [new, List.append_nil]
      exact .inr incomplete
    · have length := app.length_eq
      have some_byte := List.length_pos_of_ne_nil new
      refine .inl ?_
      rw [app.index_eq]
      omega

theorem modeOf_length (mode : modeOf max w = 0) : (Fields.start.run w).contentLength ≠ 0 := by
  intro zero
  unfold modeOf bodyMode at mode
  rw [zero] at mode
  split at mode
  · exact absurd mode (by decide)
  · rw [if_pos rfl] at mode
    exact absurd mode (by decide)

/-- What becomes of a request in a call. -/
inductive Outcome (max : ℤ) (input : List UInt8) (tokens : List HshTokenS) (token : HshTokenS) (parser : HshParserS)
    (buffer : HshBufferS) : Prop
  | off (h : BreaksOff input)
  | waits (type : token.type = .none) (h : Waits max input tokens parser buffer)
  | goes (type : isLine token.type = true ∨ token.type = .headersDone ∧ startsHandler token = false)
      (h : Ready max input (tokens ++ [token]) parser buffer)
  | handed (type : token.type = .body ∨ token.type = .headersDone ∧ startsHandler token = true)
      (h : Tells max input (tokens ++ [token]) buffer.data)

/-- The bytes of a small body are not negative in number, and the body is not longer than the maximum. -/
theorem modeOf_small (mode : modeOf max w = 0) (max_lt : max < 2147483648) (nonneg : 0 ≤ max) (le : w.length ≤ max) :
    (Fields.start.run w).contentLength ≤ max - w.length := by
  unfold modeOf bodyMode at mode
  rw [wrap32_eq (by omega) (by omega)] at mode
  split at mode
  · exact absurd mode (by decide)
  split at mode
  · exact absurd mode (by decide)
  split at mode
  · exact absurd mode (by decide)
  · rename_i small
    exact not_lt.1 small

theorem small_outcome {w : List UInt8} (accepted : AcceptedHead w) (start : w <+: input)
    (shapes : tokens.map shape = headShapes w) (mode : modeOf max w = 0)
    (small : InSmall max parser buffer w input) (running : httpFlagCheck parser.flags flagDone = false)
    (behind : parser.sequenceId ≠ buffer.sequenceId)
    (fresh : buffer.index ≠ buffer.length ∨ ∀ w, ¬ Arrived max w input) (timely : ¬ OneShort parser buffer)
    (max_lt : max < 2147483648) (hr : hshParserExec max blk parser buffer = some (token, parser', buffer')) :
    Outcome max input tokens token parser' buffer' := by
  obtain ⟨small', -⟩ := small.exec hr
  have ok := small.ok
  have lt := ok.length_lt
  have nonneg := ok.ahi_nonneg
  have le := ok.ahi_le
  have pos := ok.buf_pos
  have buf_lt := ok.buf_lt
  have content := small.content_eq
  have ahi := small.ahi_eq
  have length := small.length_eq
  have some_body := modeOf_length mode
  obtain ⟨held, cap⟩ := ok.held rfl
  have bound := modeOf_small mode max_lt (by omega) (by omega)
  cases small_call small.small running lt (nonneg.trans le) hr with
  | idle _ seen => exact absurd seen behind
  | waits none seen taken running' rest =>
    subst none
    refine .waits rfl (.inr ⟨.small accepted start shapes mode small' running', seen, taken, ?_⟩)
    rcases fresh with new | incomplete
    swap
    · exact incomplete
    intro w' arrived
    obtain rfl := accepted_unique accepted arrived.whole.accepted start arrived.prefix_eq
    have n_ge := arrived.length_ge mode
    have body := arrived.body mode
    have beyond := rest.resolve_left new
    rw [content, ahi, length] at beyond
    rw [addr64_eq (by omega) (by omega)] at beyond
    omega
  | piece typed index len all more =>
    refine .handed (.inl typed) ⟨w, accepted, start, fun n_ge => ?_⟩
    have n_ge := n_ge mode
    have whole : buffer.length + 1 ≠ buffer.afterHeadersIndex + parser.contentLength :=
      fun short => timely ⟨InSmall.phase_small small, more, short⟩
    rw [content, wrap32_eq (by omega) (by omega)] at len
    rw [content, addr64_eq (by omega) (by omega)] at all
    rw [content] at whole
    have handed : handedLength max w = w.length + (Fields.start.run w).contentLength.toNat := by
      unfold handedLength
      rw [if_pos mode]
    have fits : handedLength max w ≤ input.length := by
      rw [handed]
      omega
    refine ⟨?_, fits, ?_⟩
    · unfold handedShapes
      rw [if_pos mode, List.map_append, shapes]
      simp [shape, typed, index, len, ahi]
    · rw [← slice_take buffer'.data 0 fits, small'.kept]

theorem ended_outcome {w' : List UInt8} {h : HeadScan} (inHead : InHead max input tokens parser buffer w h)
    (ended : HeadEnd max input tokens token parser' buffer' w') (plain : lines tokens = tokens)
    (behind : parser.sequenceId ≠ buffer.sequenceId) (stays : buffer'.buf = buffer.buf)
    (hr : hshParserExec max blk parser buffer = some (token, parser', buffer')) :
    Outcome max input tokens token parser' buffer' := by
  have finished := ended.finished
  have typed : token.type = .headersDone := congrArg Prod.fst finished.last
  obtain ⟨hd, breaks, run, ph, shapes⟩ := finished.run
  have accepted : AcceptedHead w' := ⟨hd, breaks, run, ph⟩
  have start : w' <+: input := finished.prefix_eq
  have shown : (tokens ++ [token]).map shape = headShapes w' := by
    rw [headShapes_of_run run, ← shapes]
  have decided : token.flags = modeOf max w' := by
    rw [ended.mode_eq, finished.ahi_eq, ended.length_eq, ended.chunked_eq]
    rfl
  cases starts : startsHandler token with
  | true =>
    have streamed : modeOf max w' ≠ 0 := by
      intro small
      unfold startsHandler at starts
      rw [decided, small] at starts
      exact absurd starts (by decide)
    have length : handedLength max w' = w'.length := by
      unfold handedLength
      rw [if_neg streamed, Nat.add_zero]
    refine .handed (.inr ⟨typed, starts⟩) ⟨w', accepted, start, fun _ => ⟨?_, ?_, ?_⟩⟩
    · unfold handedShapes
      rw [if_neg streamed, List.append_nil, shown]
    · rw [length]
      exact start.length_le
    · rw [length, finished.kept]
      exact List.prefix_iff_eq_take.1 start
  | false =>
    refine .goes (.inr ⟨typed, starts⟩) ?_
    have silent : ∀ mode : BitVec 8, modeOf max w' = mode →
        (httpFlagCheck mode hshTokFlagStreamedBody || httpFlagCheck mode hshTokFlagNoBody) = false := by
      rintro mode rfl
      rw [← decided]
      exact starts
    obtain ⟨-, -, ⟨mode, -⟩ | ⟨mode, -⟩ | ⟨mode, small⟩⟩ := behind_of_end ended plain
    · exact absurd (silent _ mode) (by decide)
    · exact absurd (silent _ mode) (by decide)
    have ok := inHead.reached.ok
    have lt := ok.length_lt
    have index := inHead.reached.rest.index_eq
    have ge := inHead.reached.rest.sim.index_nonneg.trans inHead.reached.rest.sim.index_le
    have inside := inHead.reached.rest.inside
    have line : parser.token.type ≠ .headersDone := by
      have line := inHead.reached.rest.sim.typed
      rw [← inHead.reached.rest.sim.type_eq] at line
      change isLine parser.token.type = true at line
      intro done
      rw [done] at line
      cases line
    obtain ⟨seq, seqs, cursor⟩ := hshParserExec_ended lt (by omega) line hr typed
    have ahi := small.ahi_eq
    have ok' := small.ok
    have length := small.length_eq
    rw [stays, add_sub_cancel_left, wrap32_eq (by have := ok'.ahi_nonneg; omega)
      (ok'.ahi_le.trans_lt ok'.length_lt), ahi] at cursor
    refine .inr ⟨.small accepted start shown mode small finished.done.done, by rw [seq, seqs]; exact behind, .inr ?_⟩
    by_cases more : buffer'.index = buffer'.length
    swap
    · exact .inl more
    -- the body has yet to arrive
    refine .inr fun w arrived => ?_
    obtain rfl := accepted_unique accepted arrived.whole.accepted start arrived.prefix_eq
    have n_ge := arrived.length_ge mode
    have body := arrived.body mode
    have some_body := modeOf_length mode
    omega

theorem Ready.exec (h : Ready max input tokens parser buffer) (hblk : BlockOk blk) (max_lt : max < 2147483648)
    (timely : ¬ OneShort parser buffer) (hr : hshParserExec max blk parser buffer = some (token, parser', buffer'))
    (stays : buffer'.buf = buffer.buf) : Outcome max input tokens token parser' buffer' := by
  rcases h with off | ⟨pending, behind, fresh⟩
  · exact .off off
  cases pending with
  | small accepted start shapes mode small running =>
    refine small_outcome accepted start shapes mode small running behind (fresh.resolve_left fun live => ?_) timely
      max_lt hr
    rcases (small.small buffer).small with h | ⟨h, -⟩ <;>
      · change phase parser.state = _ at h
        rw [h] at live
        cases live
  | @head w h inHead plain =>
    have ok := inHead.reached.ok
    obtain ⟨silent, again⟩ := InHead.call inHead behind hr
    rcases inHead.exec hblk max_lt hr with ⟨w', h', goes, rfl | line⟩ | ⟨-, error, rfl⟩ | ⟨w', ended⟩
    · rcases silent rfl with off | ⟨-, same, taken⟩
      · exact .off off
      rw [show emitted noneToken = [] from rfl, List.append_nil] at goes
      refine .waits rfl (.inr ⟨.head goes plain, same, taken, fun w arrived => ?_⟩)
      obtain ⟨breaks, run, -⟩ := goes.reached.run
      have whole := goes.reached.input_eq
      have none : unconsumed buffer' = [] := by
        rw [unconsumed, taken, sub_self]
        rfl
      rw [none, List.append_nil] at whole
      rw [whole] at run
      exact absurd goes.reached.live (by rw [arrived.done run]; decide)
    · have typed : token.type ≠ .none ∧ token.type ≠ .body := by
        constructor <;> intro h <;> rw [h] at line <;> cases line
      rw [emitted_of_type typed.1] at goes
      refine .goes (.inl line) (.inr ⟨.head goes ?_, again line, .inl (InHead.isHead goes)⟩)
      rw [lines_append, plain]
      simp [lines, typed.2]
    · rcases silent rfl with off | ⟨live, -⟩
      · exact .off off
      · rw [error] at live
        cases live
    · exact ended_outcome inHead ended plain behind stays hr

end Requests

end HttpServer.ArrivedRequests
