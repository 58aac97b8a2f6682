import HttpServer.ArrivedRequests
import HttpServer.GivenPieces
import HttpServer.WaitingReads

set_option autoImplicit false

/-!
# Bodies with a Content-Length

What the parser hands over of such a body is the body, piece by piece. A small body is one piece, and a
large one is emptied out of the buffer behind the head. The last byte of the last piece may be missing.
-/
namespace HttpServer.LengthBodies
open MachineInt Scanner ParserTables ParserGrammar HttpServer.Parser ReadBuffer ParserInvariant ParserRuns ParserCalls
  HeadMachine HeadGrammar HeadRuns BodyPhases HeadFields HeadTexts RequestRuns Connection ConnectionSteps HeldRequests
  AnsweredRequests ServedRequests ArrivedRequests WaitingReads GivenPieces

section Pieces

variable {gap n : ℕ} {body front : List UInt8} {pieces : List (List UInt8)} {data : ℤ → UInt8} {a : ℤ} {r m : ℕ}

/-- Pieces of the first `n` bytes of `body`, of which the last `gap` bytes may not have arrived. Only the last piece can
    be empty, and nothing is left then. -/
structure Given (gap n : ℕ) (body : List UInt8) (pieces : List (List UInt8)) : Prop where
  total : pieces.flatten.length ≤ n
  same : pieces.flatten.take (n - gap) <+: body
  nonempty : ∀ piece ∈ pieces.dropLast, piece ≠ []
  ended : [] ∈ pieces → pieces.flatten.length = n

theorem given_nil (gap n : ℕ) (body : List UInt8) : Given gap n body [] := by
  constructor
  · exact Nat.zero_le n
  · rw [List.flatten_nil, List.take_nil]
    exact List.nil_prefix
  · intro piece mem
    cases mem
  · intro mem
    cases mem

theorem nearly_all (split : front ++ slice data a m = body) (near : r ≤ m + gap) :
    (front ++ slice data a r).take (front.length + r - gap) <+: body := by
  rw [← split]
  by_cases le : gap ≤ r
  · have length : front.length + r - gap = front.length + (r - gap) := by omega
    rw [length, List.take_length_add_append, slice_take data a (Nat.sub_le r gap)]
    refine (List.prefix_append_right_inj front).2 ?_
    rw [← slice_take data a (show r - gap ≤ m by omega)]
    exact List.take_prefix _ _
  · rw [List.take_append_of_le_length (by omega)]
    exact (List.take_prefix _ _).trans (List.prefix_append _ _)

theorem slice_ne_nil (pos : 0 < r) : slice data a r ≠ [] := by
  intro nil
  have length := slice_length data a r
  rw [nil] at length
  exact pos.ne length

end Pieces

section HeadEnds

variable {max : ℤ} {blk : NewBlock} {parser parser' : HshParserS} {buffer buffer' : HshBufferS} {token : HshTokenS}
  {t : Exec} {c : UInt8}

/-- What the end of a head leaves to the body. -/
structure Begun (max : ℤ) (parser : HshParserS) (buffer : HshBufferS) : Prop where
  remaining : parser.contentRemaining = parser.contentLength
  plain : chunkedFlag parser = false → parser.contentLength ≠ 0 → parser.state =
    if parser.contentLength > wrap32 (max - buffer.afterHeadersIndex) then hshHttpEnLargeBody else hshHttpEnSmallBody
  chunked : chunkedFlag parser = true → parser.state = hshHttpEnChunkedBody ∧ buffer.index = buffer.afterHeadersIndex

def Begins (max : ℤ) (t : Exec) : Prop := t.parser.token.type = .headersDone →
  Begun max { t.parser with state := t.cs } { t.buffer with index := wrap32 (t.p - t.buffer.buf) }

theorem begins_typed (typed : t.parser.token.type ≠ .headersDone) : Begins max t := fun done => absurd done typed

theorem runAction_begins {a : Action} (typed : t.parser.token.type ≠ .headersDone) :
    (runAction max blk c a t).Sat True (fun t => t.parser.token.type ≠ .headersDone) (Begins max) := by
  cases a with
  | method => exact (by decide : HshTokenE.method ≠ .headersDone)
  | target => exact (by decide : HshTokenE.target ≠ .headersDone)
  | version => exact (by decide : HshTokenE.version ≠ .headersDone)
  | headerKey => exact (by decide : HshTokenE.headerKey ≠ .headersDone)
  | headerValue => exact (by decide : HshTokenE.headerValue ≠ .headersDone)
  | body => exact (by decide : HshTokenE.body ≠ .headersDone)
  | chunkSize =>
    obtain ⟨n, hn⟩ := chunkSize_cases c t
    change (Flow.fall (chunkSize c t)).Sat _ _ _
    rw [hn]
    exact typed
  | incCount =>
    change (incCount t).Sat _ _ _
    unfold incCount
    dsimp only
    split
    · exact begins_typed typed
    · exact typed
  | doneHeaders =>
    change (doneHeaders max blk t).Sat _ _ _
    unfold doneHeaders
    dsimp only
    split
    · rename_i chunked
      refine fun _ => ⟨rfl, fun plain => absurd (chunked.symm.trans plain) (by decide), fun _ => ⟨rfl, ?_⟩⟩
      change wrap32 (t.p + 1 - t.buffer.buf) = wrap32 (t.p - t.buffer.buf + 1)
      congr 1
      ring
    rename_i plain
    split
    · rename_i zero
      exact fun _ => ⟨rfl, fun _ some => absurd zero some, fun chunked => absurd chunked plain⟩
    split
    · rename_i large
      exact fun _ => ⟨rfl, fun _ _ => (if_pos large).symm, fun chunked => absurd chunked plain⟩
    · rename_i small
      refine fun _ => ⟨rfl, fun _ _ => ?_, fun chunked => absurd chunked plain⟩
      dsimp only
      split <;> exact (if_neg small).symm
  | chunkRead =>
    change (chunkRead max t).Sat _ _ _
    unfold chunkRead
    dsimp only
    split
    · exact begins_typed typed
    split
    · split
      · trivial
      · exact begins_typed typed
    · exact typed
  | endStream => exact begins_typed (by decide : HshTokenE.body ≠ .headersDone)
  | smallBodyRead =>
    change (smallBodyRead t).Sat _ _ _
    unfold smallBodyRead
    dsimp only
    split <;> exact begins_typed typed
  | largeBodyRead =>
    change (largeBodyRead t).Sat _ _ _
    unfold largeBodyRead
    dsimp only
    split <;> exact begins_typed typed
  | emitToken => exact begins_typed typed
  | error => exact begins_typed typed
  | _ => exact typed

theorem hshParserExec_begins (typed : parser.token.type ≠ .headersDone)
    (hr : hshParserExec max blk parser buffer = some (token, parser', buffer')) (done : token.type = .headersDone) :
    Begun max parser' buffer' := by
  have step : ∀ c s, s.parser.token.type ≠ .headersDone → s.p ≠ s.pe → s.cs ≠ hshHttpError → True →
      ((machine max blk).step c s).Sat True (fun t => t.parser.token.type ≠ .headersDone) (Begins max) := by
    intro c s typed _ _ _
    refine Machine.step_sat (P := fun t => t.parser.token.type ≠ .headersDone) _ ?_ fun t ht => ?_
    · exact Machine.runActs_sat _ (C := fun _ _ _ => True) (fun a _ t ht _ => runAction_begins ht) typed
        (Machine.actsOk_true _ _ _ _)
    · rcases ParserCalls.again_cases t with ⟨heq, -⟩ | heq <;> rw [heq]
      · exact begins_typed ht
      · exact ht
  rcases hshParserExec_sat (I := fun t => t.parser.token.type ≠ .headersDone) typed
    (fun _ ht => begins_typed ht) step execOk_any hr with heq | ⟨t, left, heq⟩
  · cases heq
    cases done
  rcases leave_cases t with ⟨-, hl⟩ | ⟨-, hl⟩ <;> rw [hl] at heq <;> cases heq
  · obtain ⟨remaining, plain, chunked⟩ := left done
    exact ⟨remaining, fun other => plain ((chunked_clear_tokenReady _).symm.trans other),
      fun flag => chunked ((chunked_clear_tokenReady _).symm.trans flag)⟩
  · cases done

end HeadEnds

section Calls

variable {max : ℤ} {blk : NewBlock} {parser parser' : HshParserS} {buffer buffer' : HshBufferS} {token : HshTokenS}

/-- The loop is left in a large body: silently, with a piece, or with the last one. -/
inductive LargeLeft (parser : HshParserS) (buffer : HshBufferS) (t : Exec) : Prop
  | idle (same : t = enter parser buffer)
  | piece (ready : httpFlagCheck t.parser.flags flagTokenReady = true)
      (flag : httpFlagCheck t.parser.flags flagDone = false) (large : inLarge (phase t.cs) = true)
      (typed : t.parser.token.type = .body) (index : t.parser.token.index = buffer.afterHeadersIndex)
      (len : t.parser.token.len = wrap32 (buffer.length - buffer.index))
      (left : t.parser.contentRemaining = wrap64 (parser.contentRemaining - wrap32 (buffer.length - buffer.index)))
      (part : buffer.buf + buffer.length < addr64 (buffer.buf + buffer.afterHeadersIndex + parser.contentRemaining - 1))
      (more : buffer.index ≠ buffer.length) (emptied : t.buffer = { buffer with length := buffer.afterHeadersIndex })
  | last (ready : httpFlagCheck t.parser.flags flagTokenReady = true)
      (flag : httpFlagCheck t.parser.flags flagDone = true)
      (typed : t.parser.token.type = .body) (index : t.parser.token.index = buffer.afterHeadersIndex)
      (len : t.parser.token.len = wrap32 parser.contentRemaining)
      (all : addr64 (buffer.buf + buffer.afterHeadersIndex + parser.contentRemaining - 1) ≤ buffer.buf + buffer.length)
      (more : buffer.index ≠ buffer.length) (same : t.buffer = buffer)

theorem largeBodyRead_left {t : Exec} (same : t.buffer = buffer) (p : t.p = buffer.buf + buffer.index)
    (pe : t.pe = buffer.buf + buffer.length) (left : t.parser.contentRemaining = parser.contentRemaining)
    (typed : t.parser.token.type = .body) (flag : httpFlagCheck t.parser.flags flagDone = false)
    (large : inLarge (phase t.cs) = true) (more : buffer.index ≠ buffer.length) :
    (largeBodyRead t).Sat True (fun _ => False) (LargeLeft parser buffer) := by
  have length : t.pe - t.p = buffer.length - buffer.index := by omega
  unfold largeBodyRead
  dsimp only
  split
  · rename_i all
    have all : t.pe ≥ addr64 (t.buffer.buf + t.buffer.afterHeadersIndex + t.parser.contentRemaining - 1) := all
    rw [same, pe, left] at all
    refine .last ((tokenReady_set_done _).trans (tokenReady_set _)) (done_set _) typed ?_ ?_ all more same
    · exact congrArg HshBufferS.afterHeadersIndex same
    · exact congrArg wrap32 left
  · rename_i part
    have part : t.pe < addr64 (t.buffer.buf + t.buffer.afterHeadersIndex + t.parser.contentRemaining - 1) := not_le.1 part
    rw [same, pe, left] at part
    refine .piece (tokenReady_set _) ((done_set_tokenReady _).trans flag) large typed ?_ ?_ ?_ part more ?_
    · exact congrArg HshBufferS.afterHeadersIndex same
    · exact congrArg wrap32 length
    · change wrap64 (t.parser.contentRemaining - wrap32 (t.pe - t.p)) = _
      rw [left, length]
    · change { t.buffer with length := t.buffer.afterHeadersIndex } = _
      rw [same]

theorem hshParserExec_largeLeft (rest : CallRest parser buffer) (large : inLarge (phase parser.state) = true)
    (running : httpFlagCheck parser.flags flagDone = false)
    (hr : hshParserExec max blk parser buffer = some (token, parser', buffer')) :
    token = noneToken ∧ parser' = parser ∧ buffer' = buffer ∨
      ∃ t, LargeLeft parser buffer t ∧ (token, parser', buffer') = leave t := by
  have inv := rest.inv running
  have step : ∀ c s, s = enter parser buffer → s.p ≠ s.pe → s.cs ≠ hshHttpError → True →
      ((machine max blk).step c s).Sat True (fun s => s = enter parser buffer) (LargeLeft parser buffer) := by
    rintro c _ rfl moving alive -
    have hc : c.toNat < 256 := c.toNat_lt
    have more : buffer.index ≠ buffer.length := fun same => moving (congrArg (buffer.buf + ·) same)
    have large : inLarge (phase (enter parser buffer).cs) = true := large
    have fits := inv.fits
    have plain : phase (enter parser buffer).cs ≠ .bodyData ∧ phase (enter parser buffer).cs ≠ .ows ∧
        phase (enter parser buffer).cs ≠ .value := by
      refine ⟨?_, ?_, ?_⟩ <;> intro other <;> rw [other] at large <;> cases large
    obtain ⟨htarg, -⟩ := tables_agree inv.state_lt hc alive plain.1
    have hacts := tables_agree_exact inv.state_lt hc alive plain.1 plain.2
    refine Machine.step_sat (P := fun _ => False) _ ?_ fun _ h => h.elim
    change ((machine max blk).runActs c (transActions (enter parser buffer).cs c.toNat)
      { enter parser buffer with cs := transTarg (enter parser buffer).cs c.toNat }).Sat _ _ _
    have still : inLarge (phase (transTarg (enter parser buffer).cs c.toNat)) = true := by
      cases hp : phase (enter parser buffer).cs <;> rw [hp] at large htarg <;> first | (cases large; done) | rw [htarg]; rfl
    have only : ∀ t : Exec, (largeBodyRead t).Sat True (fun _ => False) (LargeLeft parser buffer) →
        ((machine max blk).runActs c [.largeBodyRead] t).Sat True (fun _ => False) (LargeLeft parser buffer) := by
      intro t sat
      exact Machine.runActs_cons_sat (C := fun _ _ _ => True) (P := fun _ => False) _ (fun _ => sat)
        (fun _ hf _ => hf.elim) (Machine.actsOk_true _ _ _ _)
    cases hp : phase (enter parser buffer).cs <;> rw [hp] at large fits htarg hacts <;>
      first | (cases large; done) | rw [hacts]
    · change ((machine max blk).runActs c [.body, .largeBodyRead] _).Sat _ _ _
      rw [Machine.runActs_fall _
        (t := body { enter parser buffer with cs := transTarg (enter parser buffer).cs c.toNat }) rfl]
      exact only _ (largeBodyRead_left rfl rfl rfl rfl rfl running still more)
    · exact only _ (largeBodyRead_left rfl rfl rfl rfl fits.1 running still more)
  rcases hshParserExec_sat (I := fun s => s = enter parser buffer) rfl (fun _ same => .idle same) step execOk_any hr with
    heq | left
  · obtain ⟨rfl, rfl, rfl⟩ : token = noneToken ∧ parser' = parser ∧ buffer' = buffer := by
      simpa using heq
    exact .inl ⟨rfl, rfl, rfl⟩
  · exact .inr left

/-- What a call of the parser makes of a large body. -/
inductive LargeCall (parser : HshParserS) (buffer : HshBufferS) (token : HshTokenS) (parser' : HshParserS)
    (buffer' : HshBufferS) : Prop
  | idle (none : token = noneToken) (left : parser'.contentRemaining = parser.contentRemaining)
      (running : httpFlagCheck parser'.flags flagDone = false) (large : inLarge (phase parser'.state) = true)
      (same : ∃ i, buffer' = { buffer with index := i })
  | piece (typed : token.type = .body) (index : token.index = buffer.afterHeadersIndex)
      (len : token.len = buffer.length - buffer.afterHeadersIndex) (pos : 0 < token.len)
      (part : token.len < parser.contentRemaining)
      (left : parser'.contentRemaining = parser.contentRemaining - token.len)
      (running : httpFlagCheck parser'.flags flagDone = false) (large : inLarge (phase parser'.state) = true)
      (emptied : ∃ i, buffer' = { buffer with length := buffer.afterHeadersIndex, index := i })
  | last (typed : token.type = .body) (index : token.index = buffer.afterHeadersIndex)
      (len : token.len = parser.contentRemaining)
      (near : parser.contentRemaining ≤ buffer.length - buffer.afterHeadersIndex + 1)
      (done : httpFlagCheck parser'.flags flagDone = true) (same : ∃ i, buffer' = { buffer with index := i })

theorem hshParserExec_large (rest : CallRest parser buffer) (large : inLarge (phase parser.state) = true)
    (running : httpFlagCheck parser.flags flagDone = false) (ok : BufferOk true max buffer)
    (pos : 0 < parser.contentRemaining) (bound : parser.contentRemaining < 9223372036854775808)
    (after : 0 < buffer.afterHeadersIndex)
    (hr : hshParserExec max blk parser buffer = some (token, parser', buffer')) :
    LargeCall parser buffer token parser' buffer' := by
  have buf_pos := ok.buf_pos
  have buf_lt := ok.buf_lt
  have length_lt := ok.length_lt
  have ahi_le := ok.ahi_le
  have index : buffer.index = buffer.afterHeadersIndex := by
    have atBody := rest.exit.place.atBody large
    rw [cursor_enter] at atBody
    exact atBody
  have address : addr64 (buffer.buf + buffer.afterHeadersIndex + parser.contentRemaining - 1) =
      buffer.buf + buffer.afterHeadersIndex + parser.contentRemaining - 1 := addr64_eq (by omega) (by omega)
  have unread : wrap32 (buffer.length - buffer.index) = buffer.length - buffer.afterHeadersIndex := by
    rw [index]
    exact wrap32_eq (by omega) (by omega)
  rcases hshParserExec_largeLeft rest large running hr with ⟨rfl, rfl, rfl⟩ | ⟨t, left, heq⟩
  · exact .idle rfl rfl running large ⟨_, rfl⟩
  cases left with
  | idle same =>
    subst same
    rcases leave_cases (enter parser buffer) with ⟨ready, -⟩ | ⟨-, hl⟩
    · exact absurd (rest.tokenReady.symm.trans ready) (by decide)
    rw [hl] at heq
    cases heq
    exact .idle rfl rfl running large ⟨_, rfl⟩
  | piece ready flag large' typed idx len remaining part more emptied =>
    rw [leave_ready ready] at heq
    cases heq
    rw [address] at part
    rw [unread] at len remaining
    have some_byte : buffer.afterHeadersIndex < buffer.length := lt_of_le_of_ne ahi_le (index ▸ more)
    have behind : ({ t.buffer with index := wrap32 (t.p - t.buffer.buf) } : HshBufferS) =
        { buffer with length := buffer.afterHeadersIndex, index := wrap32 (t.p - t.buffer.buf) } := by
      rw [emptied]
    refine .piece typed idx len (by omega) (by omega) ?_ ((done_clear_tokenReady _).trans flag) large' ⟨_, behind⟩
    rw [len]
    exact remaining.trans (wrap64_eq (by omega) (by omega))
  | last ready flag typed idx len all more same =>
    rw [leave_ready ready] at heq
    cases heq
    rw [address] at all
    refine .last typed idx (len.trans (wrap32_eq (by omega) (by omega))) (by omega)
      ((done_clear_tokenReady _).trans flag) ⟨wrap32 (t.p - t.buffer.buf), ?_⟩
    dsimp only
    rw [same]

end Calls

section Stages

variable {gap : ℕ} {max : ℤ} {blk : NewBlock} {input w : List UInt8} {tokens : List HshTokenS} {token : HshTokenS}
  {pieces : List (List UInt8)} {parser parser' : HshParserS} {buffer buffer' : HshBufferS}

/-- The head announces its body by a length only. -/
def HasLength (w : List UInt8) : Prop :=
  (Fields.start.run w).chunked = false ∧ 0 < (Fields.start.run w).contentLength

def bodyLength (w : List UInt8) : ℕ := (Fields.start.run w).contentLength.toNat

/-- The parser is not called when just the last byte of the body is missing, unless a gap is allowed. -/
def Timely (gap : ℕ) (parser : HshParserS) (buffer : HshBufferS) : Prop :=
  gap = 0 →
    (inSmall (phase parser.state) = true →
      buffer.length + 1 ≠ buffer.afterHeadersIndex + parser.contentLength) ∧
    (inLarge (phase parser.state) = true →
      buffer.length + 1 ≠ buffer.afterHeadersIndex + parser.contentRemaining)

instance (gap : ℕ) (parser : HshParserS) (buffer : HshBufferS) : Decidable (Timely gap parser buffer) :=
  inferInstanceAs (Decidable (_ → _))

/-- A run over one request that has handed over `pieces`, the last of which may lack `gap` bytes. -/
inductive Stage (gap : ℕ) (max : ℤ) (input : List UInt8) (tokens : List HshTokenS) (pieces : List (List UInt8))
    (parser : HshParserS) (buffer : HshBufferS) : Prop
  | head {w : List UInt8} {h : HeadScan} (inHead : InHead max input tokens parser buffer w h) (none : pieces = [])
  | failed (noBody : NoBody parser) (error : phase parser.state = .error) (none : pieces = [])
  | other {w : List UInt8} (accepted : AcceptedHead w) (start : w <+: input) (other : ¬ HasLength w)
  | small {w : List UInt8} (accepted : AcceptedHead w) (start : w <+: input) (length : HasLength w)
      (bound : (Fields.start.run w).contentLength < 2147483648) (small : InSmall max parser buffer w input)
      (running : httpFlagCheck parser.flags flagDone = false) (none : pieces = [])
  | large {w : List UInt8} (accepted : AcceptedHead w) (start : w <+: input) (length : HasLength w)
      (large : inLarge (phase parser.state) = true) (running : httpFlagCheck parser.flags flagDone = false)
      (ok : BufferOk true max buffer) (ahi_eq : buffer.afterHeadersIndex = w.length) (pos : 0 < parser.contentRemaining)
      (left : pieces.flatten.length + parser.contentRemaining = bodyLength w)
      (split : pieces.flatten ++ slice buffer.data w.length (buffer.length - w.length).toNat = input.drop w.length)
      (nonempty : ∀ piece ∈ pieces, piece ≠ [])
  | whole {w : List UInt8} (accepted : AcceptedHead w) (start : w <+: input) (length : HasLength w)
      (done : httpFlagCheck parser.flags flagDone = true) (total : pieces.flatten.length = bodyLength w)
      (same : pieces.flatten.take (bodyLength w - gap) <+: input.drop w.length) (nonempty : ∀ piece ∈ pieces, piece ≠ [])

theorem stage_init {initial memused : ℤ} (hblk : BlockOk blk) (nonneg : 0 ≤ initial) (le : initial ≤ max)
    (max_lt : max < 2147483648) : Stage gap max [] [] [] hshParserInit (hsBufferInit blk initial memused).1 :=
  .head (inHead_init hblk nonneg le max_lt) rfl

theorem accepted_ne_nil (accepted : AcceptedHead w) : w ≠ [] := by
  rintro rfl
  obtain ⟨h, breaks, run, done⟩ := accepted
  cases run
  cases done

theorem drop_start (start : w <+: input) (more : List UInt8) : (input ++ more).drop w.length = input.drop w.length ++ more :=
  List.drop_append_of_le_length start.length_le

theorem appended_slice {b b' : HshBufferS} {bs : List UInt8} (app : Appended true b bs b') {a : ℕ}
    (le : (a : ℤ) ≤ b.length) : slice b'.data a (b'.length - a).toNat = slice b.data a (b.length - a).toNat ++ bs := by
  have length := app.length_eq
  rw [show (b'.length - a).toNat = (b.length - a).toNat + bs.length by omega, slice_add]
  rw [show (a : ℤ) + ((b.length - a).toNat : ℤ) = b.length by omega, app.new rfl]
  congr 1
  exact slice_congr fun i lo hi => app.old rfl i (by omega) (by omega)

theorem Stage.read {calls : List ReadCall} {memused : ℤ} {r : ReadReturn} (h : Stage gap max input tokens pieces parser buffer)
    (max_ge : -2147483648 ≤ max) (max_lt : max < 2147483648) (hblk : ∀ call ∈ calls, BlockOk call.blk)
    (hr : hsReadIntoBuffer max calls buffer memused = some r) :
    Stage gap max (input ++ received calls) tokens pieces parser r.buffer := by
  have longer : ∀ {w : List UInt8}, w <+: input → w <+: input ++ received calls :=
    fun start => start.trans (List.prefix_append _ _)
  cases h with
  | head inHead none => exact .head (inHead.read max_ge max_lt hblk hr) none
  | failed noBody error none => exact .failed noBody error none
  | other accepted start other => exact .other accepted (longer start) other
  | small accepted start length bound small running none =>
    exact .small accepted (longer start) length bound (small.read max_ge max_lt hblk hr) running none
  | @large w accepted start length large running ok ahi pos left split nonempty =>
    obtain ⟨ok', app, -⟩ := hsReadIntoBuffer_spec max_ge max_lt hblk ok hr
    have le : (w.length : ℤ) ≤ buffer.length := ahi ▸ ok.ahi_le
    refine .large accepted (longer start) length large running ok' (app.ahi_eq.trans ahi) pos left ?_ nonempty
    rw [appended_slice app le, ← List.append_assoc, split, drop_start start]
  | whole accepted start length done total same nonempty =>
    refine .whole accepted (longer start) length done total ?_ nonempty
    rw [drop_start start]
    exact same.trans (List.prefix_append _ _)

theorem bodyLength_eq (length : HasLength w) : (bodyLength w : ℤ) = (Fields.start.run w).contentLength :=
  Int.toNat_of_nonneg length.2.le

theorem run_contentLength (w : List UInt8) : (Fields.start.run w).contentLength < 9223372036854775808 := by
  have steps : ∀ f : Fields, f.contentLength < 9223372036854775808 →
      (f.run w).contentLength < 9223372036854775808 := by
    induction w with
    | nil => exact fun _ h => h
    | cons c w ih =>
      intro f h
      refine ih (f.step c) ?_
      change (if _ then _ else _) < _
      split
      · exact (wrap64_bounds _).2
      · exact h
  exact steps Fields.start (by decide)

theorem ended_stage {w : List UInt8} (ended : HeadEnd max input tokens token parser' buffer' w)
    (begun : Begun max parser' buffer') (shown : List HshTokenS) :
    Stage gap max input shown [] parser' buffer' := by
  obtain ⟨finished, content, chunked, -, received⟩ := ended
  obtain ⟨hd, breaks, run, ph, -⟩ := finished.run
  have accepted : AcceptedHead w := ⟨hd, breaks, run, ph⟩
  have start : w <+: input := finished.prefix_eq
  by_cases length : HasLength w
  swap
  · exact .other accepted start length
  obtain ⟨remaining, state, -⟩ := begun
  have pos := length.2
  have ahi := finished.ahi_eq
  have state := state (chunked.trans length.1) (by rw [content]; exact pos.ne')
  split at state
  · have split : slice buffer'.data w.length (buffer'.length - w.length).toNat = input.drop w.length := by
      have le := start.length_le
      have total := finished.length_eq
      have behind := slice_drop buffer'.data 0 input.length w.length le
      rw [received, zero_add] at behind
      rw [behind, show (buffer'.length - w.length).toNat = input.length - w.length by omega]
    refine .large accepted start length ?_ finished.done.done finished.ok ahi (by rw [remaining, content]; exact pos) ?_
      split (by intro piece mem; cases mem)
    · rw [state]
      decide
    · rw [remaining, content, bodyLength_eq length]
      exact zero_add _
  · rename_i within
    have ph : phase parser'.state = .small := by
      rw [state]
      decide
    have le := (wrap32_bounds (max - buffer'.afterHeadersIndex)).2
    exact .small accepted start length (by omega) ⟨fun b => ⟨finished.done.state_lt, .inl ph, finished.done.tokenReady, rfl⟩,
      finished.ok, ahi, received, finished.length_eq, content, chunked⟩ finished.done.done rfl

theorem flatten_snoc (pieces : List (List UInt8)) (piece : List UInt8) :
    (pieces ++ [piece]).flatten = pieces.flatten ++ piece := by
  rw [List.flatten_append, List.flatten_singleton]

theorem nonempty_snoc {piece : List UInt8} (nonempty : ∀ piece ∈ pieces, piece ≠ []) (last : piece ≠ []) :
    ∀ p ∈ pieces ++ [piece], p ≠ [] := by
  intro p mem
  rcases List.mem_append.1 mem with old | new
  · exact nonempty p old
  · rw [List.mem_singleton.1 new]
    exact last

theorem small_stage {shown : List HshTokenS} (accepted : AcceptedHead w) (start : w <+: input) (length : HasLength w)
    (bound : (Fields.start.run w).contentLength < 2147483648) (small : InSmall max parser buffer w input)
    (running : httpFlagCheck parser.flags flagDone = false) (timely : Timely gap parser buffer)
    (hr : hshParserExec max blk parser buffer = some (token, parser', buffer')) :
    Stage gap max input shown (handed buffer' token) parser' buffer' := by
  obtain ⟨small', -⟩ := small.exec hr
  obtain ⟨-, ⟨i, rfl⟩, out⟩ := hshParserExec_small small.small hr
  have silent : token = noneToken → httpFlagCheck parser'.flags flagDone = false →
      Stage gap max input shown (handed { buffer with index := i } token) parser' { buffer with index := i } := by
    rintro rfl running'
    rw [handed_other (by decide)]
    exact .small accepted start length bound small' running' rfl
  have length_lt := small.ok.length_lt
  have nonneg := small.ok.ahi_nonneg.trans small.ok.ahi_le
  cases small_call small.small running length_lt nonneg hr with
  | idle none _ running' => exact silent none running'
  | waits none _ _ running' => exact silent none running'
  | piece typed index len all =>
    have pos := length.2
    have content := small.content_eq
    have ahi := small.ahi_eq
    have total := small.length_eq
    have le := start.length_le
    have buf_pos := small.ok.buf_pos
    have buf_lt := small.ok.buf_lt
    have n_eq := bodyLength_eq length
    rw [content, wrap32_eq (by omega) (by omega)] at len
    rw [content, addr64_eq (by omega) (by omega)] at all
    have done := (out.resolve_left fun none => absurd (none ▸ typed) (by decide)).2.2
    have text : tokenText { buffer with index := i } token = slice buffer.data w.length (bodyLength w) := by
      unfold tokenText
      rw [index, len, ahi]
      rfl
    have split : [] ++ slice buffer.data w.length (input.length - w.length) = input.drop w.length := by
      have behind := slice_drop buffer.data 0 input.length w.length le
      rw [small.kept, zero_add] at behind
      exact behind.symm
    have near : bodyLength w ≤ input.length - w.length + gap := by
      have on_time := fun zero => (timely zero).1 (InSmall.phase_small small)
      omega
    have last := @nearly_all gap _ _ _ _ (bodyLength w) _ split near
    rw [List.length_nil, Nat.zero_add] at last
    rw [handed_piece typed, text]
    refine .whole accepted start length done ?_ ?_ ?_
    · rw [List.flatten_singleton, slice_length]
    · rw [List.flatten_singleton]
      exact last
    · intro piece mem
      rw [List.mem_singleton.1 mem]
      exact slice_ne_nil (by omega)

theorem large_stage {shown : List HshTokenS} (accepted : AcceptedHead w) (start : w <+: input) (length : HasLength w)
    (ok : BufferOk true max buffer) (ahi : buffer.afterHeadersIndex = w.length)
    (left : pieces.flatten.length + parser.contentRemaining = bodyLength w)
    (split : pieces.flatten ++ slice buffer.data w.length (buffer.length - w.length).toNat = input.drop w.length)
    (nonempty : ∀ piece ∈ pieces, piece ≠ []) (pos : 0 < parser.contentRemaining)
    (large : inLarge (phase parser.state) = true) (timely : Timely gap parser buffer)
    (call : LargeCall parser buffer token parser' buffer') :
    Stage gap max input shown (pieces ++ handed buffer' token) parser' buffer' := by
  have after := ok.ahi_le
  cases call with
  | idle none left' running large' same =>
    obtain ⟨i, rfl⟩ := same
    subst none
    rw [handed_other (by decide), List.append_nil]
    refine .large accepted start length large' running (bufferOk_index ok i) ahi ?_ ?_ split nonempty
    · rw [left']
      exact pos
    · rw [left']
      exact left
  | piece typed index len some_byte part left' running large' emptied =>
    obtain ⟨i, rfl⟩ := emptied
    have text : tokenText { buffer with length := buffer.afterHeadersIndex, index := i } token =
        slice buffer.data w.length (buffer.length - w.length).toNat := by
      unfold tokenText
      rw [index, len, ahi]
    have ok' : BufferOk true max { buffer with length := buffer.afterHeadersIndex, index := i } :=
      ⟨ok.buf_pos, ok.buf_lt, ok.ahi_nonneg, le_refl _, ok.ahi_le.trans_lt ok.length_lt, ok.capacity_lt,
        fun strict => ⟨ok.ahi_le.trans (ok.held strict).1, (ok.held strict).2⟩⟩
    rw [handed_piece typed, text]
    refine .large accepted start length large' running ok' ahi (by omega) ?_ ?_
      (nonempty_snoc nonempty (slice_ne_nil (by omega)))
    · rw [flatten_snoc, List.length_append, slice_length]
      push_cast
      omega
    · change _ ++ slice buffer.data w.length (buffer.afterHeadersIndex - w.length).toNat = _
      rw [flatten_snoc, ahi, sub_self, split]
      exact List.append_nil _
  | last typed index len near done same =>
    obtain ⟨i, rfl⟩ := same
    have text : tokenText { buffer with index := i } token = slice buffer.data w.length parser.contentRemaining.toNat := by
      unfold tokenText
      rw [index, len, ahi]
    have total : pieces.flatten.length + parser.contentRemaining.toNat = bodyLength w := by omega
    rw [handed_piece typed, text]
    refine .whole accepted start length done ?_ ?_ (nonempty_snoc nonempty (slice_ne_nil (by omega)))
    · rw [flatten_snoc, List.length_append, slice_length]
      exact total
    · rw [flatten_snoc, ← total]
      have on_time := fun zero => (timely zero).2 large
      exact nearly_all split (by omega)

theorem inHead_typed {h : HeadScan} (inHead : InHead max input tokens parser buffer w h) :
    parser.token.type ≠ .headersDone := by
  have line := inHead.reached.rest.sim.typed
  rw [← inHead.reached.rest.sim.type_eq] at line
  change isLine parser.token.type = true at line
  intro done
  rw [done] at line
  cases line

theorem Stage.exec (h : Stage gap max input tokens pieces parser buffer) (rest : CallRest parser buffer) (hblk : BlockOk blk)
    (max_lt : max < 2147483648) (timely : Timely gap parser buffer)
    (hr : hshParserExec max blk parser buffer = some (token, parser', buffer')) :
    Stage gap max input (tokens ++ emitted token) (pieces ++ handed buffer' token) parser' buffer' := by
  cases h with
  | @head w h inHead none =>
    subst none
    have typed := inHead_typed inHead
    rcases inHead.exec hblk max_lt hr with ⟨w', h', goes, line⟩ | ⟨noBody, error, rfl⟩ | ⟨w', ended⟩
    · have other : token.type ≠ .body := by
        rcases line with rfl | line
        · decide
        · intro piece
          rw [piece] at line
          cases line
      rw [handed_other other]
      exact .head goes rfl
    · exact .failed noBody error rfl
    · have done : token.type = .headersDone := congrArg Prod.fst ended.finished.last
      rw [handed_other (by rw [done]; decide)]
      exact ended_stage ended (hshParserExec_begins typed hr done) _
  | failed noBody error none =>
    subst none
    obtain ⟨noBody', error', rfl⟩ := hshParserExec_failed noBody error hr
    exact .failed noBody' error' rfl
  | other accepted start other => exact .other accepted start other
  | small accepted start length bound small running none =>
    subst none
    exact small_stage accepted start length bound small running timely hr
  | @large w accepted start length large running ok ahi pos left split nonempty =>
    have after : 0 < buffer.afterHeadersIndex := by
      rw [ahi]
      exact_mod_cast List.length_pos_of_ne_nil (accepted_ne_nil accepted)
    have bound : parser.contentRemaining < 9223372036854775808 := by
      have n_eq := bodyLength_eq length
      have n_lt := run_contentLength w
      omega
    exact large_stage accepted start length ok ahi left split nonempty pos large timely
      (hshParserExec_large rest large running ok pos bound after hr)
  | whole accepted start length done total same nonempty =>
    have idle : token = noneToken ∧ parser' = parser ∧ buffer' = buffer := by
      unfold hshParserExec at hr
      rw [if_pos (.inl done)] at hr
      simpa [eq_comm] using hr
    obtain ⟨rfl, rfl, rfl⟩ := idle
    rw [handed_other (by decide), List.append_nil]
    exact .whole accepted start length done total same nonempty

theorem Stage.given (h : Stage gap max input tokens pieces parser buffer) (accepted : AcceptedHead w) (start : w <+: input)
    (length : HasLength w) : Given gap (bodyLength w) (input.drop w.length) pieces := by
  cases h with
  | head inHead none =>
    rw [none]
    exact given_nil _ _ _
  | failed noBody error none =>
    rw [none]
    exact given_nil _ _ _
  | other accepted' start' other =>
    obtain rfl := accepted_unique accepted' accepted start' start
    exact absurd length other
  | small accepted' start' _ _ _ _ none =>
    rw [none]
    exact given_nil _ _ _
  | large accepted' start' _ _ _ _ _ pos left split nonempty =>
    obtain rfl := accepted_unique accepted' accepted start' start
    refine ⟨by omega, ?_, fun piece mem => nonempty piece (List.mem_of_mem_dropLast mem),
      fun mem => absurd rfl (nonempty [] mem)⟩
    rw [← split]
    exact (List.take_prefix _ _).trans (List.prefix_append _ _)
  | whole accepted' start' _ _ total same nonempty =>
    obtain rfl := accepted_unique accepted' accepted start' start
    exact ⟨total.le, same, fun piece mem => nonempty piece (List.mem_of_mem_dropLast mem),
      fun mem => absurd rfl (nonempty [] mem)⟩

theorem Stage.given_ended (h : Stage gap max input tokens pieces parser buffer)
    (done : httpFlagCheck parser.flags flagDone = true) (accepted : AcceptedHead w) (start : w <+: input)
    (length : HasLength w) (some_piece : pieces ≠ []) : Given gap (bodyLength w) (input.drop w.length) (pieces ++ [[]]) := by
  cases h with
  | head inHead none => exact absurd none some_piece
  | failed noBody error none => exact absurd none some_piece
  | other accepted' start' other =>
    obtain rfl := accepted_unique accepted' accepted start' start
    exact absurd length other
  | small accepted' start' _ _ _ _ none => exact absurd none some_piece
  | large accepted' start' _ _ running => exact absurd (running.symm.trans done) (by decide)
  | whole accepted' start' _ _ total same nonempty =>
    obtain rfl := accepted_unique accepted' accepted start' start
    have flatten : (pieces ++ [[]]).flatten = pieces.flatten := by
      rw [flatten_snoc, List.append_nil]
    refine ⟨?_, ?_, ?_, fun _ => ?_⟩
    · rw [flatten]
      exact total.le
    · rw [flatten]
      exact same
    · rw [List.dropLast_concat]
      exact nonempty
    · rw [flatten]
      exact total

theorem stage_fed {initial : ℤ} (nonneg : 0 ≤ initial) (le : initial ≤ max) (max_lt : max < 2147483648)
    (fed : Fed (fun parser buffer _ => Timely gap parser buffer) initial max input tokens pieces parser buffer) :
    CallRest parser buffer ∧ Stage gap max input tokens pieces parser buffer := by
  induction fed with
  | init memused hblk => exact ⟨callRest_init hblk (le.trans_lt max_lt), stage_init hblk nonneg le max_lt⟩
  | read _ hblk hr ih =>
    obtain ⟨rest, stage⟩ := ih
    exact ⟨(rest.read (by omega) max_lt hblk hr).1, stage.read (by omega) max_lt hblk hr⟩
  | exec _ hblk timely hr ih =>
    obtain ⟨rest, stage⟩ := ih
    exact ⟨(hshParserExec_call rest hblk hr).1, stage.exec rest hblk max_lt timely hr⟩

end Stages

section Runs

variable {gap : ℕ} {cfg : Config} {c : Conn} {w : List UInt8}

/-- In every run, the pieces that the callbacks were given of a body with a length are the body, in order and without
    its head or what follows it, and an empty piece comes last. Only the last byte of the last piece may not have arrived,
    and not if the parser is called on time. -/
theorem body_given (run : Runs.Reached (Connection.step cfg) Accepted
      (Keeping fun parser buffer _ => Timely gap parser buffer) c) (accepted : AcceptedHead w)
    (start : w <+: arriving c.events) (length : HasLength w) :
    Given gap (bodyLength w) ((arriving c.events).drop w.length) (given c.events) := by
  obtain ⟨-, giving⟩ := giving_reached run
  rcases giving.traced with none | ⟨tokens, pieces, parser, buffer, fed, told⟩
  · rw [none] at start
    exact absurd (List.prefix_nil.1 start) (accepted_ne_nil accepted)
  obtain ⟨-, stage⟩ := stage_fed cfg.initial_pos.le cfg.initial_le cfg.max_lt fed
  rcases told with same | ⟨ended, lasts, done⟩
  · rw [same]
    exact stage.given accepted start length
  · rw [ended]
    obtain ⟨front, piece, rfl, -⟩ := lasts
    exact stage.given_ended done accepted start length (List.append_ne_nil_of_right_ne_nil _ (List.cons_ne_nil _ _))

def uploadHead : List UInt8 := ascii "POST / HTTP/1.1\r\nContent-Length: 40\r\n\r\n"

theorem uploadHead_length : AcceptedHead uploadHead ∧ HasLength uploadHead ∧ bodyLength uploadHead = 40 := by
  have head : ((headRun uploadHead {}).any fun r => decide (r.1.ph = .headersDone)) = true := by decide +kernel
  have fields : (Fields.start.run uploadHead).chunked = false ∧ (Fields.start.run uploadHead).contentLength = 40 := by
    decide +kernel
  obtain ⟨⟨h, breaks⟩, hrun, done⟩ := (Option.any_eq_true _ _).1 head
  refine ⟨⟨h, breaks, hrun, of_decide_eq_true done⟩, ⟨fields.1, ?_⟩, congrArg Int.toNat fields.2⟩
  rw [fields.2]
  norm_num

/-- A body of 40 bytes comes in two pieces and an empty one. -/
theorem body_given_upload : ∃ c, Runs.Reached (Connection.step streamConfig) Accepted
      (Keeping fun parser buffer _ => Timely 0 parser buffer) c ∧
    given c.events = [List.replicate 25 97, List.replicate 15 97, []] ∧
    Given 0 (bodyLength uploadHead) ((arriving c.events).drop uploadHead.length) (given c.events) := by
  have run : ((Runs.exec (Runs.guarded (Connection.step streamConfig) (Keeping fun parser buffer _ => Timely 0 parser buffer))
      (upload ++ [.callbackReturn, .finalChunk]) accepted).any fun c =>
        decide (given c.events = [List.replicate 25 97, List.replicate 15 97, []] ∧
          uploadHead <+: arriving c.events)) = true := by
    decide +kernel
  obtain ⟨c, hc, hs⟩ := (Option.any_eq_true _ _).1 run
  obtain ⟨shown, start⟩ := of_decide_eq_true hs
  obtain ⟨head, length, -⟩ := uploadHead_length
  have reached : Runs.Reached (Connection.step streamConfig) Accepted
      (Keeping fun parser buffer _ => Timely 0 parser buffer) c := .guarded (.init accepted_accepted) hc
  exact ⟨c, reached, shown, body_given reached head start length⟩

variable {ok : HshParserS → HshBufferS → NewBlock → Prop}

theorem flowing_reached (run : Runs.Reached (Connection.step cfg) Accepted (fun c l => Keeping ok c l ∧ InFlow cfg c l) c) :
    Flowing c := by
  refine (run.invariant (I := fun c => Session (fun _ _ _ => True) cfg c ∧ Flowing c)
    (fun c h => ⟨session_accepted h, flowing_accepted h⟩) fun c l c' ⟨session, flowing⟩ ok hs => ?_).2
  have move := step_move hs
  have any : Calls (fun _ _ _ => True) c l := by cases l <;> trivial
  exact ⟨session.step ok.1.1 any move, flowing.step session.steady session.held session.buffered session.kept ok.1.1.1 ok.2
    move⟩

/-- When a connection that reads a large body waits for input, everything of it that has arrived is given, or all of it. -/
theorem body_not_held_back (run : Runs.Reached (Connection.step cfg) Accepted
      (fun c l => Keeping (fun parser buffer _ => Timely gap parser buffer) c l ∧ InFlow cfg c l) c)
    (live : c.live = true) (state : c.request.state = .read)
    (returned : .readRequest ∉ c.stack ∧ .parseBuffer ∉ c.stack) (accepted : AcceptedHead w)
    (start : w <+: arriving c.events) (length : HasLength w) (large : inLarge (phase c.request.parser.state) = true) :
    (given c.events).flatten = (arriving c.events).drop w.length ∨ (given c.events).flatten.length = bodyLength w := by
  obtain ⟨-, giving⟩ := giving_reached (run.mono fun _ _ ok => ok.1)
  obtain ⟨-, tokens, pieces, ⟨fed, -, -⟩, shown⟩ := giving.reading live state fun none =>
    accepted_ne_nil accepted (List.prefix_nil.1 (none ▸ start))
  obtain ⟨rest, stage⟩ := stage_fed cfg.initial_pos.le cfg.initial_le cfg.max_lt fed
  have flat : (given c.events).flatten = pieces.flatten := by
    rcases shown with ⟨same, -⟩ | ⟨same, -⟩
    · rw [same]
    · rw [same, flatten_snoc, List.append_nil]
  rw [flat]
  cases stage with
  | head inHead none =>
    have head := ArrivedRequests.InHead.isHead inHead
    cases ph : phase c.request.parser.state <;> rw [ph] at head large <;> first | (cases head; done) | cases large
  | failed noBody error none =>
    rw [error] at large
    cases large
  | other accepted' start' other =>
    obtain rfl := accepted_unique accepted' accepted start' start
    exact absurd length other
  | small _ _ _ _ small =>
    rcases (small.small c.request.buffer).small with h | ⟨h, -⟩ <;>
      · change phase c.request.parser.state = _ at h
        rw [h] at large
        cases large
  | large accepted' start' _ _ running ok ahi _ _ split =>
    obtain rfl := accepted_unique accepted' accepted start' start
    have consumed := ((flowing_reached run).waiting live state returned.1 returned.2).resolve_left (by rw [running]; decide)
    have atBody := rest.exit.place.atBody large
    rw [cursor_enter] at atBody
    have index : c.request.buffer.index = w.length := atBody.trans ahi
    have none : (c.request.buffer.length - w.length).toNat = 0 := by omega
    rw [none] at split
    exact .inl ((List.append_nil _).symm.trans split)
  | whole accepted' start' _ _ total =>
    obtain rfl := accepted_unique accepted' accepted start' start
    exact .inr total

/-- After the first piece, `http_request_read_chunk` waits for more of the body. -/
theorem body_not_held_back_upload : ∃ c, Runs.Reached (Connection.step streamConfig) Accepted
      (fun c l => Keeping (fun parser buffer _ => Timely 0 parser buffer) c l ∧ InFlow streamConfig c l) c ∧
    given c.events = [List.replicate 25 97] ∧
    ((given c.events).flatten = (arriving c.events).drop uploadHead.length ∨
      (given c.events).flatten.length = bodyLength uploadHead) := by
  have run : ((Runs.exec (Runs.guarded (Connection.step streamConfig) fun c l =>
        Keeping (fun parser buffer _ => Timely 0 parser buffer) c l ∧ InFlow streamConfig c l)
      (upload.take 11 ++ [readsOnce .fail] ++ execs 1) accepted).any fun c =>
        decide (given c.events = [List.replicate 25 97] ∧ uploadHead <+: arriving c.events ∧ c.live = true ∧
          c.request.state = .read ∧ (.readRequest ∉ c.stack ∧ .parseBuffer ∉ c.stack) ∧
          inLarge (phase c.request.parser.state) = true)) = true := by
    decide +kernel
  obtain ⟨c, hc, hs⟩ := (Option.any_eq_true _ _).1 run
  obtain ⟨shown, start, live, state, returned, large⟩ := of_decide_eq_true hs
  obtain ⟨head, length, -⟩ := uploadHead_length
  have reached : Runs.Reached (Connection.step streamConfig) Accepted
      (fun c l => Keeping (fun parser buffer _ => Timely 0 parser buffer) c l ∧ InFlow streamConfig c l) c :=
    .guarded (.init accepted_accepted) hc
  exact ⟨c, reached, shown, body_not_held_back reached live state returned head start length large⟩

end Runs

end HttpServer.LengthBodies
