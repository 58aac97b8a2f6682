import HttpServer.HeadFields
import HttpServer.ParserCalls

set_option autoImplicit false

/-!
# Runs of the parser over a request

A run is inside the head, in error, or behind a head whose last token says how the body is read.
-/
namespace HttpServer.RequestRuns
open Scanner ParserTables ParserGrammar HttpServer.Parser ReadBuffer ParserInvariant ParserRuns HeadMachine
  HeadGrammar HeadSoundness HeadRuns BodyPhases HeadFields

def lines (tokens : List HshTokenS) : List HshTokenS := tokens.filter fun token => token.type ≠ .body

theorem lines_append (tokens tokens' : List HshTokenS) : lines (tokens ++ tokens') = lines tokens ++ lines tokens' :=
  List.filter_append ..

/-- How the body behind the head `w` is read. -/
def modeOf (max : ℤ) (w : List UInt8) : BitVec 8 :=
  bodyMode max w.length (Fields.start.run w).contentLength (Fields.start.run w).chunked

section Small

variable {max : ℤ} {blk : NewBlock} {parser parser' : HshParserS} {buffer buffer' : HshBufferS} {token : HshTokenS}
  {s t : Exec} {c : UInt8}

/-- What decides how a body is read. -/
def SameBody (parser : HshParserS) (s : Exec) : Prop :=
  s.parser.contentLength = parser.contentLength ∧ chunkedFlag s.parser = chunkedFlag parser

theorem smallBodyRead_same (h : SameBody parser t) : (smallBodyRead t).Sat True (SameBody parser) (SameBody parser) := by
  obtain ⟨length, chunked⟩ := h
  unfold smallBodyRead
  dsimp only
  split
  · refine ⟨length, ?_⟩
    exact (chunked_set_done _).trans ((chunked_set_tokenReady _).trans chunked)
  · exact ⟨length, chunked⟩

theorem small_same (hs : SmallInv buffer s) (h : SameBody parser s) :
    ((machine max blk).step c s).Sat True (SameBody parser) (SameBody parser) := by
  have hc : c.toNat < 256 := c.toNat_lt
  have alive : s.cs ≠ hshHttpError := by
    intro h0
    rcases hs.small with h | ⟨h, -⟩ <;> rw [h0] at h <;> cases h
  have plain : phase s.cs ≠ .bodyData ∧ phase s.cs ≠ .ows ∧ phase s.cs ≠ .value := by
    rcases hs.small with h | ⟨h, -⟩ <;> rw [h] <;> decide
  have hacts := tables_agree_exact hs.state_lt hc alive plain.1 plain.2
  have list : ∀ a ∈ transActions s.cs c.toNat, a = .body ∨ a = .smallBodyRead := by
    rw [hacts]
    rcases hs.small with h | ⟨h, -⟩ <;> rw [h] <;> simp [phaseStep]
  refine Machine.step_sat (P := SameBody parser) _ ?_ fun t ht => ?_
  · refine Machine.runActs_sat _ (C := fun _ _ _ => True) (fun a ha t ht _ => ?_) h (Machine.actsOk_true _ _ _ _)
    rcases list a ha with rfl | rfl
    · exact ht
    · exact smallBodyRead_same ht
  · rcases ParserCalls.again_cases t with ⟨heq, -⟩ | heq <;> rw [heq] <;> exact ht

theorem hshParserExec_smallSame (h : SmallBody parser)
    (hr : hshParserExec max blk parser buffer = some (token, parser', buffer')) :
    parser'.contentLength = parser.contentLength ∧ chunkedFlag parser' = chunkedFlag parser := by
  have step : ∀ c s, SmallInv buffer s ∧ SameBody parser s → s.p ≠ s.pe → s.cs ≠ hshHttpError → True →
      ((machine max blk).step c s).Sat True (fun s => SmallInv buffer s ∧ SameBody parser s) (SameBody parser) := by
    intro c s hs _ _ _
    have inv : ((machine max blk).step c s).Sat True (SmallInv buffer) (SmallExit buffer) := small_step hs.1
    have same : ((machine max blk).step c s).Sat True (SameBody parser) (SameBody parser) := small_same hs.1 hs.2
    cases hst : (machine max blk).step c s with
    | fall t =>
      rw [hst] at inv same
      exact ⟨inv, same⟩
    | out t =>
      rw [hst] at same
      exact same
    | fault => trivial
  rcases hshParserExec_sat (I := fun s => SmallInv buffer s ∧ SameBody parser s) ⟨h buffer, rfl, rfl⟩
    (fun _ hs => hs.2) step execOk_any hr with heq | ⟨t, ⟨length, chunked⟩, heq⟩
  · cases heq
    exact ⟨rfl, rfl⟩
  rcases leave_cases t with ⟨-, hl⟩ | ⟨-, hl⟩ <;> rw [hl] at heq <;> cases heq
  · exact ⟨length, (chunked_clear_tokenReady _).trans chunked⟩
  · exact ⟨length, chunked⟩

end Small

section Behind

variable {max initial : ℤ} {blk : NewBlock} {input w : List UInt8} {tokens : List HshTokenS} {token : HshTokenS}
  {parser parser' : HshParserS} {buffer buffer' : HshBufferS}

/-- The head `w` was accepted, and its tokens are those of the head machine. -/
structure Accepts (w : List UInt8) (tokens : List HshTokenS) : Prop where
  run : ∃ h breaks, headRun w {} = some (h, breaks) ∧ h.ph = .headersDone ∧
    (lines tokens).map shape = breaks.reduceOption
  good : HeadRunOk (fun _ _ => True) w {}

/-- The place behind a small body's head, whose buffer holds what was received. -/
structure InSmall (max : ℤ) (parser : HshParserS) (buffer : HshBufferS) (w input : List UInt8) : Prop where
  small : SmallBody parser
  ok : BufferOk true max buffer
  ahi_eq : buffer.afterHeadersIndex = w.length
  kept : slice buffer.data 0 input.length = input
  length_eq : buffer.length = input.length
  content_eq : parser.contentLength = (Fields.start.run w).contentLength
  chunked_eq : chunkedFlag parser = (Fields.start.run w).chunked

/-- Behind the head `w`. -/
structure Behind (max : ℤ) (input : List UInt8) (tokens : List HshTokenS) (parser : HshParserS) (buffer : HshBufferS)
    (w : List UInt8) : Prop where
  accepts : Accepts w tokens
  prefix_eq : ∃ left, w ++ left = input
  body : (modeOf max w = httpFlagSet 0 hshTokFlagStreamedBody ∧ Streaming parser) ∨
    (modeOf max w = httpFlagSet 0 hshTokFlagNoBody ∧ phase parser.state = .headersDone) ∨
    (modeOf max w = 0 ∧ InSmall max parser buffer w input)

theorem emitted_of_type {token : HshTokenS} (typed : token.type ≠ .none) : emitted token = [token] := if_neg typed

theorem behind_of_end (h : HeadEnd max input tokens token parser buffer w)
    (plain : lines tokens = tokens) : Behind max input (tokens ++ emitted token) parser buffer w := by
  obtain ⟨finished, length, chunked, mode, received⟩ := h
  have typed : token.type = .headersDone := congrArg Prod.fst finished.last
  have decided : token.flags = modeOf max w := by
    rw [mode, finished.ahi_eq, length, chunked]
    rfl
  obtain ⟨hd, breaks, run, ph, shapes⟩ := finished.run
  have shown : lines (tokens ++ emitted token) = tokens ++ [token] := by
    rw [lines_append, plain, emitted_of_type (by rw [typed]; decide)]
    simp [lines, typed]
  refine ⟨⟨⟨hd, breaks, run, ph, by rw [shown]; exact shapes⟩, finished.good⟩, finished.prefix_eq, ?_⟩
  have hmode := finished.mode
  have lt := finished.done.state_lt
  rw [decided] at hmode
  cases hph : phase parser.state <;> rw [hph] at hmode <;>
    simp only [bodyFlags, reduceCtorEq, Option.some.injEq] at hmode
  case headersDone => exact .inr (.inl ⟨hmode.symm, rfl⟩)
  case bodySizeFirst =>
    refine .inl ⟨hmode.symm, fun b => ⟨lt, ?_, finished.done.tokenReady, fun piece => ?_⟩⟩
    · change isStream (phase parser.state) = true
      rw [hph]
      rfl
    · change inPiece (phase parser.state) = true at piece
      rw [hph] at piece
      cases piece
  case large =>
    refine .inl ⟨hmode.symm, fun b => ⟨lt, ?_, finished.done.tokenReady, fun piece => ?_⟩⟩
    · change isStream (phase parser.state) = true
      rw [hph]
      rfl
    · change inPiece (phase parser.state) = true at piece
      rw [hph] at piece
      cases piece
  case small =>
    exact .inr (.inr ⟨hmode.symm, fun b => ⟨lt, .inl hph, finished.done.tokenReady, rfl⟩, finished.ok, finished.ahi_eq,
      received, finished.length_eq, length, chunked⟩)

theorem Accepts.pieces (h : Accepts w tokens) (piece : token = noneToken ∨ token.type = .body) :
    Accepts w (tokens ++ emitted token) := by
  have same : lines (tokens ++ emitted token) = lines tokens := by
    rw [lines_append]
    rcases piece with rfl | typed
    · simp [emitted, noneToken, lines]
    · rw [emitted_of_type (by rw [typed]; decide)]
      simp [lines, typed]
  exact ⟨by rw [same]; exact h.run, h.good⟩

theorem InSmall.read {calls : List ReadCall} {memused : ℤ} {r : ReadReturn} (h : InSmall max parser buffer w input)
    (max_ge : -2147483648 ≤ max) (max_lt : max < 2147483648) (hblk : ∀ call ∈ calls, BlockOk call.blk)
    (hr : hsReadIntoBuffer max calls buffer memused = some r) :
    InSmall max parser r.buffer w (input ++ received calls) := by
  obtain ⟨ok, app, -⟩ := hsReadIntoBuffer_spec max_ge max_lt hblk h.ok hr
  have length := h.length_eq
  refine ⟨h.small, ok, app.ahi_eq.trans h.ahi_eq, ?_, ?_, h.content_eq, h.chunked_eq⟩
  · have new := app.new rfl
    rw [length] at new
    rw [List.length_append, slice_add, zero_add, new]
    refine congrArg (· ++ _) ?_
    exact (slice_congr fun i lo hi => app.old rfl i lo (by omega)).trans h.kept
  · rw [app.length_eq, length, List.length_append]
    push_cast
    rfl

theorem InSmall.exec (h : InSmall max parser buffer w input)
    (hr : hshParserExec max blk parser buffer = some (token, parser', buffer')) :
    InSmall max parser' buffer' w input ∧ (token = noneToken ∨ token.type = .body) := by
  obtain ⟨small, ⟨i, rfl⟩, left⟩ := hshParserExec_small h.small hr
  obtain ⟨content, chunked⟩ := hshParserExec_smallSame h.small hr
  exact ⟨⟨small, bufferOk_index h.ok i, h.ahi_eq, h.kept, h.length_eq, content.trans h.content_eq,
    chunked.trans h.chunked_eq⟩, left.imp_right And.left⟩

structure Failed (s : Exec) : Prop where
  state_eq : s.cs = hshHttpError
  quiet : httpFlagCheck s.parser.flags flagTokenReady = false

theorem hshParserExec_failed (noBody : NoBody parser) (error : phase parser.state = .error)
    (hr : hshParserExec max blk parser buffer = some (token, parser', buffer')) :
    NoBody parser' ∧ phase parser'.state = .error ∧ token = noneToken := by
  have inv := noBody buffer
  have stuck : parser.state = hshHttpError := (phase_error inv.state_lt).1 error
  have rest : ∀ t : Exec, t.cs = hshHttpError → ∀ (flags : BitVec 8) (q : ℤ), httpFlagCheck flags flagTokenReady = false →
      NoBody { t.parser with state := t.cs, flags := flags, sequenceId := q } := by
    intro t cs flags q quiet b
    refine ⟨?_, .inr ?_, quiet⟩
    · change t.cs < 98
      rw [cs]
      decide
    · change phase t.cs = .error
      rw [cs]
      rfl
  have step : ∀ c s, Failed s → s.p ≠ s.pe → s.cs ≠ hshHttpError → True →
      ((machine max blk).step c s).Sat True Failed Failed :=
    fun _ _ hs _ alive _ => absurd hs.state_eq alive
  rcases hshParserExec_sat (I := Failed) (Q := Failed) ⟨stuck, inv.tokenReady⟩ (fun _ hs => hs) step execOk_any hr with
    heq | ⟨t, ⟨cs, quiet⟩, heq⟩
  · cases heq
    exact ⟨noBody, error, rfl⟩
  rcases leave_cases t with ⟨ready, -⟩ | ⟨-, hl⟩
  · exact absurd (quiet.symm.trans ready) (by decide)
  · rw [hl] at heq
    cases heq
    refine ⟨rest t cs t.parser.flags t.buffer.sequenceId quiet, ?_, rfl⟩
    change phase t.cs = .error
    rw [cs]
    rfl

/-- A run over one request, which does not go on behind a head without a body. -/
inductive Requested (max : ℤ) (input : List UInt8) (tokens : List HshTokenS) (parser : HshParserS)
    (buffer : HshBufferS) : Prop
  | head {w : List UInt8} {h : HeadScan} (inHead : InHead max input tokens parser buffer w h)
      (plain : lines tokens = tokens)
  | failed (noBody : NoBody parser) (error : phase parser.state = .error)
  | behind {w : List UInt8} (h : Behind max input tokens parser buffer w)

theorem requested_init {memused : ℤ} (hblk : BlockOk blk) (nonneg : 0 ≤ initial) (le : initial ≤ max)
    (max_lt : max < 2147483648) : Requested max [] [] hshParserInit (hsBufferInit blk initial memused).1 :=
  .head (inHead_init hblk nonneg le max_lt) rfl

theorem Requested.read {calls : List ReadCall} {memused : ℤ} {r : ReadReturn}
    (h : Requested max input tokens parser buffer) (max_ge : -2147483648 ≤ max) (max_lt : max < 2147483648)
    (hblk : ∀ call ∈ calls, BlockOk call.blk) (hr : hsReadIntoBuffer max calls buffer memused = some r) :
    Requested max (input ++ received calls) tokens parser r.buffer := by
  cases h with
  | head inHead plain => exact .head (inHead.read max_ge max_lt hblk hr) plain
  | failed noBody error => exact .failed noBody error
  | behind h =>
    obtain ⟨accepts, ⟨left, prefix_eq⟩, body⟩ := h
    refine .behind ⟨accepts, ⟨left ++ received calls, by rw [← List.append_assoc, prefix_eq]⟩, ?_⟩
    exact body.imp_right (Or.imp_right fun ⟨mode, small⟩ => ⟨mode, small.read max_ge max_lt hblk hr⟩)

/-- What a token says of the place where it was returned. -/
structure TokenPlace (max : ℤ) (input : List UInt8) (tokens : List HshTokenS) (token : HshTokenS) (parser : HshParserS)
    (buffer : HshBufferS) : Prop where
  ended : token.type = .headersDone → lines tokens = tokens ∧ ∃ w, HeadEnd max input tokens token parser buffer w
  whole : token.type = .body → httpFlagCheck token.flags hshTokFlagSmallBody = true →
    ∃ w, modeOf max w = 0 ∧ InSmall max parser buffer w input

theorem tokenPlace_line (typed : token = noneToken ∨ isLine token.type = true) :
    TokenPlace max input tokens token parser buffer := by
  rcases typed with rfl | line
  · exact ⟨nofun, nofun⟩
  · constructor <;> intro typed <;> rw [typed] at line <;> cases line

theorem Requested.exec (h : Requested max input tokens parser buffer) (hblk : BlockOk blk) (max_lt : max < 2147483648)
    (goesOn : phase parser.state ≠ .headersDone)
    (hr : hshParserExec max blk parser buffer = some (token, parser', buffer')) :
    Requested max input (tokens ++ emitted token) parser' buffer' ∧ TokenPlace max input tokens token parser' buffer' := by
  cases h with
  | head inHead plain =>
    rcases inHead.exec hblk max_lt hr with ⟨w', h', goes, typed⟩ | ⟨noBody, error, rfl⟩ | ⟨w', ended⟩
    · refine ⟨.head goes ?_, tokenPlace_line typed⟩
      rw [lines_append, plain]
      rcases typed with rfl | line
      · rfl
      · have typed : token.type ≠ .none ∧ token.type ≠ .body := by
          constructor <;> intro h <;> rw [h] at line <;> cases line
        rw [emitted_of_type typed.1]
        simp [lines, typed.2]
    · exact ⟨.failed noBody error, tokenPlace_line (.inl rfl)⟩
    · have typed : token.type = .headersDone := congrArg Prod.fst ended.finished.last
      refine ⟨.behind (behind_of_end ended plain), fun _ => ⟨plain, w', ended⟩, fun body => ?_⟩
      rw [typed] at body
      cases body
  | failed noBody error =>
    obtain ⟨noBody', error', rfl⟩ := hshParserExec_failed noBody error hr
    exact ⟨.failed noBody' error', tokenPlace_line (.inl rfl)⟩
  | @behind w h =>
    obtain ⟨accepts, prefix_eq, ⟨mode, streaming⟩ | ⟨-, done⟩ | ⟨mode, small⟩⟩ := h
    · obtain ⟨streaming', piece⟩ := hshParserExec_stream streaming hr
      refine ⟨.behind ⟨accepts.pieces (piece.imp_right And.left), prefix_eq, .inl ⟨mode, streaming'⟩⟩, ?_, ?_⟩
      · intro typed
        rcases piece with rfl | piece
        · cases typed
        · rw [piece.1] at typed
          cases typed
      · intro typed whole
        rcases piece with rfl | piece
        · cases typed
        · rw [piece.2] at whole
          cases whole
    · exact absurd done goesOn
    · obtain ⟨small', piece⟩ := small.exec hr
      refine ⟨.behind ⟨accepts.pieces piece, prefix_eq, .inr (.inr ⟨mode, small'⟩)⟩, ?_, fun _ _ => ⟨w, mode, small'⟩⟩
      intro typed
      rcases piece with rfl | piece
      · cases typed
      · rw [piece] at typed
        cases typed

/-- Only the end of a head without a body leads behind one. -/
theorem Requested.empty (h : Requested max input tokens parser buffer) (hblk : BlockOk blk) (max_lt : max < 2147483648)
    (goesOn : phase parser.state ≠ .headersDone)
    (hr : hshParserExec max blk parser buffer = some (token, parser', buffer'))
    (done : phase parser'.state = .headersDone) :
    token.type = .headersDone ∧ httpFlagCheck token.flags hshTokFlagNoBody = true := by
  cases h with
  | head inHead plain =>
    rcases inHead.exec hblk max_lt hr with ⟨w', h', goes, -⟩ | ⟨-, error, -⟩ | ⟨w', ended⟩
    · have live := goes.reached.live
      rw [← goes.reached.rest.sim.phase_eq] at live
      change isHead (phase parser'.state) = true at live
      rw [done] at live
      cases live
    · rw [done] at error
      cases error
    · have mode := ended.finished.mode
      rw [done] at mode
      refine ⟨congrArg Prod.fst ended.finished.last, ?_⟩
      rw [← Option.some.inj mode]
      decide
  | failed noBody error =>
    obtain ⟨-, error', -⟩ := hshParserExec_failed noBody error hr
    rw [done] at error'
    cases error'
  | behind h =>
    obtain ⟨-, -, ⟨-, streaming⟩ | ⟨-, done⟩ | ⟨-, small⟩⟩ := h
    · have stream := ((hshParserExec_stream streaming hr).1 buffer).stream
      change isStream (phase parser'.state) = true at stream
      rw [done] at stream
      cases stream
    · exact absurd done goesOn
    · have rest := ((small.exec hr).1.small buffer).small
      change phase parser'.state = _ ∨ phase parser'.state = _ ∧ _ at rest
      rw [done] at rest
      rcases rest with h | ⟨h, -⟩ <;> cases h

def WithBody (max : ℤ) (parser : HshParserS) (buffer : HshBufferS) (blk : NewBlock) : Prop :=
  ∀ r ∈ hshParserExec max blk parser buffer, r.1.type = .headersDone →
    httpFlagCheck r.1.flags hshTokFlagNoBody = false

theorem requested_withBody (nonneg : 0 ≤ initial) (le : initial ≤ max) (max_lt : max < 2147483648)
    (run : ParserRun (WithBody max) initial max input tokens parser buffer) :
    Requested max input tokens parser buffer ∧ phase parser.state ≠ .headersDone := by
  induction run with
  | init memused hblk => exact ⟨requested_init hblk nonneg le max_lt, by decide⟩
  | read _ hblk hr ih => exact ⟨ih.1.read (by omega) max_lt hblk hr, ih.2⟩
  | exec _ hblk hok hr ih =>
    obtain ⟨requested, goesOn⟩ := ih
    refine ⟨(requested.exec hblk max_lt goesOn hr).1, fun done => ?_⟩
    obtain ⟨typed, noBody⟩ := requested.empty hblk max_lt goesOn hr done
    exact absurd ((hok _ hr typed).symm.trans noBody) (by decide)

end Behind

end HttpServer.RequestRuns
