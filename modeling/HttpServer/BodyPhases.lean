import HttpServer.HeadMachine

set_option autoImplicit false

/-!
# The calls after the head

What `hsh_parser_exec` can return once the head is done, whatever bytes the cursor comes to: in a
streamed body only pieces of it, in a small body only the whole of it.
-/
namespace HttpServer.BodyPhases
open MachineInt Scanner ParserTables ParserGrammar HttpServer.Parser ReadBuffer ParserInvariant
  HeadMachine

section Exec

variable {max : ℤ} {blk : NewBlock} {parser : HshParserS} {buffer : HshBufferS}

theorem step_alive {c : UInt8} {s t : Exec} (h : (machine max blk).step c s = .fall t) :
    t.cs ≠ hshHttpError := by
  have alive : ((machine max blk).step c s).Sat True (fun t => t.cs ≠ hshHttpError) (fun _ => True) := by
    refine Machine.step_sat (P := fun _ => True) _ ?_ ?_
    · cases (machine max blk).runActs c ((machine max blk).trans c s).2 ((machine max blk).trans c s).1 <;>
        trivial
    · intro t _
      change (if t.cs = hshHttpError then Flow.out t else .fall { t with p := t.p + 1 }).Sat _ _ _
      split
      · trivial
      · assumption
  rw [h] at alive
  exact alive

/-- Rule for one call: `I` holds whenever a byte is about to be examined, `Q` when the loop is
    left. -/
theorem hshParserExec_rule {I Q : Exec → Prop} {B : UInt8 → Exec → Prop}
    {C : Action → UInt8 → Exec → Prop} {r : HshTokenS × HshParserS × HshBufferS}
    (start : I (enter parser buffer)) (stop : ∀ s, I s → s.p = s.pe ∨ s.cs = hshHttpError → Q s)
    (step : ∀ c s, I s → s.p ≠ s.pe → s.cs ≠ hshHttpError → B c s →
      (machine max blk).ActsOk C c ((machine max blk).trans c s).2 ((machine max blk).trans c s).1 →
      ((machine max blk).step c s).Sat True I Q)
    (ok : ExecOk B C max blk parser buffer) (hr : hshParserExec max blk parser buffer = some r) :
    (httpFlagCheck parser.flags flagDone = true ∨ parser.sequenceId = buffer.sequenceId) ∧
      r = (noneToken, parser, buffer) ∨ ∃ t, Q t ∧ r = leave t := by
  unfold hshParserExec at hr
  split at hr
  · rename_i idle
    exact .inl ⟨idle, (Option.some.inj hr).symm⟩
  rename_i calls
  obtain ⟨t, ht, rfl⟩ := Option.map_eq_some_iff.1 hr
  refine .inr ⟨t, ?_, rfl⟩
  unfold writeExec at ht
  split at ht
  · rename_i err
    cases ht
    exact stop _ start (.inr err.2)
  rename_i live
  have scans : Scans parser buffer := by
    refine ⟨calls, ?_⟩
    rintro ⟨hne, herr⟩
    refine live ⟨?_, herr⟩
    unfold enter
    intro heq
    exact hne (by simpa using heq)
  have exit := Machine.scan_sat (machine max blk) (E := True)
    (I := fun _ s => I s ∧ (s.p ≠ s.pe → s.cs ≠ hshHttpError)) (Q := Q)
    (fun _ _ _ => trivial) (fun _ s hs ended => stop s hs.1 (.inl (by simpa [machine] using ended)))
    (fun c _ s hs running hb hacts => by
      have moving : s.p ≠ s.pe := by simpa [machine] using running
      have moved := step c s hs.1 moving (hs.2 moving) hb hacts
      cases hst : (machine max blk).step c s with
      | fall t =>
        rw [hst] at moved
        exact ⟨moved, fun _ => step_alive hst⟩
      | out t =>
        rw [hst] at moved
        exact moved
      | fault => trivial)
    (s := enter parser buffer) ⟨start, fun hne herr => live ⟨hne, herr⟩⟩ (ok scans)
  change (machine max blk).scan _ _ = some t at ht
  rw [show (enter parser buffer).buffer = buffer from rfl,
    show (enter parser buffer).p = buffer.buf + buffer.index from rfl] at ht
  rw [ht] at exit
  exact exit

/-- The rule without a condition on the actions. -/
theorem hshParserExec_sat {I Q : Exec → Prop} {B : UInt8 → Exec → Prop}
    {r : HshTokenS × HshParserS × HshBufferS} (start : I (enter parser buffer))
    (stop : ∀ s, I s → Q s)
    (step : ∀ c s, I s → s.p ≠ s.pe → s.cs ≠ hshHttpError → B c s →
      ((machine max blk).step c s).Sat True I Q)
    (ok : ExecOk B (fun _ _ _ => True) max blk parser buffer)
    (hr : hshParserExec max blk parser buffer = some r) :
    r = (noneToken, parser, buffer) ∨ ∃ t, Q t ∧ r = leave t :=
  (hshParserExec_rule start (fun s hs _ => stop s hs) (fun c s hs moving alive hb _ => step c s hs moving alive hb)
    ok hr).imp_left And.right

/-- What no action changes holds when the loop is left. -/
theorem hshParserExec_acts {I : Exec → Prop} {C : Action → UInt8 → Exec → Prop}
    {r : HshTokenS × HshParserS × HshBufferS} (start : I (enter parser buffer))
    (move : ∀ s p cs, I s → I { s with p := p, cs := cs })
    (act : ∀ a c s, I s → C a c s → (runAction max blk c a s).Sat True I I)
    (ok : ExecOk (fun _ _ => True) C max blk parser buffer)
    (hr : hshParserExec max blk parser buffer = some r) :
    r = (noneToken, parser, buffer) ∨ ∃ t, I t ∧ r = leave t := by
  refine (hshParserExec_rule start (fun _ hs _ => hs) (fun c s hs _ _ _ hacts => ?_) ok hr).imp_left And.right
  refine Machine.step_sat (P := I) _ ?_ fun t ht => ?_
  · exact Machine.runActs_sat _ (fun a _ t ht hc => act a c t ht hc) (move s s.p _ hs) hacts
  · change (if t.cs = hshHttpError then Flow.out t else .fall { t with p := t.p + 1 }).Sat _ _ _
    split
    · exact ht
    · exact move t (t.p + 1) t.cs ht

end Exec

section Stream

def isStream : Phase → Bool
  | .nextCr | .nextLf | .sizeFirst | .size | .sizeLf | .dataFirst | .data | .zeroCr | .zeroLf
  | .streamDone | .bodySizeFirst | .bodySize | .bodySizeLf | .bodyDataFirst | .bodyData
  | .bodyZeroCr | .bodyZeroLf | .large | .largeRest | .error => true
  | _ => false

def inPiece : Phase → Bool
  | .data | .bodyData | .largeRest => true
  | _ => false

def IsPiece (token : HshTokenS) : Prop :=
  token.type = .body ∧ httpFlagCheck token.flags hshTokFlagSmallBody = false

/-- In a streamed body, about to examine a byte. -/
structure StreamInv (s : Exec) : Prop where
  state_lt : s.cs < 98
  stream : isStream (phase s.cs) = true
  tokenReady : httpFlagCheck s.parser.flags flagTokenReady = false
  piece : inPiece (phase s.cs) = true → IsPiece s.parser.token

structure StreamExit (s : Exec) : Prop where
  state_lt : s.cs < 98
  stream : isStream (phase s.cs) = true
  ready : httpFlagCheck s.parser.flags flagTokenReady = true → IsPiece s.parser.token
  piece : inPiece (phase s.cs) = true → IsPiece s.parser.token

variable {max : ℤ} {blk : NewBlock} {s : Exec} {c : UInt8}

theorem StreamInv.exit (hs : StreamInv s) : StreamExit s :=
  ⟨hs.state_lt, hs.stream, fun h => absurd (hs.tokenReady.symm.trans h) (by decide), hs.piece⟩

def Between (s : Exec) : Prop := StreamInv s ∧ inPiece (phase s.cs) = false
def Within (s : Exec) : Prop := StreamInv s ∧ IsPiece s.parser.token

theorem notSmall_zero : httpFlagCheck 0 hshTokFlagSmallBody = false := by decide
theorem notSmall_final : httpFlagCheck hshTokFlagBodyFinal hshTokFlagSmallBody = false := by decide

theorem exit_piece {t : Exec} (lt : t.cs < 98) (stream : isStream (phase t.cs) = true)
    (piece : IsPiece t.parser.token) : StreamExit t :=
  ⟨lt, stream, fun _ => piece, fun _ => piece⟩

theorem chunkSize_cases (c : UInt8) (s : Exec) : ∃ n, chunkSize c s = s.setContentLength n := by
  unfold chunkSize
  dsimp only
  split
  · exact ⟨_, rfl⟩
  split
  · exact ⟨_, rfl⟩
  split
  · exact ⟨_, rfl⟩
  · exact ⟨s.parser.contentLength, rfl⟩

theorem runAction_falls (a : Action) (c : UInt8) (s : Exec) :
    (runAction max blk c a s).Sat True (fun t => ∃ parser, t = { s with parser := parser }) (fun _ => True) := by
  cases a with
  | chunkSize =>
    obtain ⟨n, hn⟩ := chunkSize_cases c s
    change (Flow.fall (chunkSize c s)).Sat _ _ _
    rw [hn]
    exact ⟨_, rfl⟩
  | incCount =>
    change (incCount s).Sat _ _ _
    unfold incCount
    dsimp only
    split
    · trivial
    · exact ⟨_, rfl⟩
  | doneHeaders =>
    change (doneHeaders max blk s).Sat _ _ _
    unfold doneHeaders
    dsimp only
    split
    · trivial
    split
    · trivial
    split <;> trivial
  | chunkRead =>
    change (chunkRead max s).Sat _ _ _
    unfold chunkRead
    dsimp only
    split
    · trivial
    split
    · split <;> trivial
    · exact ⟨_, rfl⟩
  | largeBodyRead =>
    change (largeBodyRead s).Sat _ _ _
    unfold largeBodyRead
    dsimp only
    split <;> trivial
  | _ => first | exact ⟨_, rfl⟩ | trivial

theorem step_falls {t : Exec} (h : (machine max blk).step c s = .fall t) :
    ∃ parser, t = { s with parser := parser, p := s.p + 1, cs := transTarg s.cs c.toNat } := by
  have falls : ((machine max blk).step c s).Sat True
      (fun t => ∃ parser, t = { s with parser := parser, p := s.p + 1, cs := transTarg s.cs c.toNat }) (fun _ => True) := by
    refine Machine.step_sat (P := fun t => ∃ parser, t = { s with parser := parser, cs := transTarg s.cs c.toNat })
      _ ?_ ?_
    · refine Machine.runActs_sat _ (C := fun _ _ _ => True) (fun a _ t ht _ => ?_) ⟨s.parser, rfl⟩
        (Machine.actsOk_true _ _ _ _)
      obtain ⟨parser, rfl⟩ := ht
      exact (runAction_falls a c _).mono (fun _ ⟨parser, h⟩ => ⟨parser, h⟩) fun _ h => h
    · rintro t ⟨parser, rfl⟩
      change (if _ then Flow.out _ else Flow.fall _).Sat _ _ _
      split
      · trivial
      · exact ⟨parser, rfl⟩
  rw [h] at falls
  exact falls

theorem between_act {a : Action} (ha : a ∈ [Action.chunkStart, .chunkSize, .endStream, .error])
    (hs : Between s) : ((machine max blk).act a c s).Sat True Between StreamExit := by
  obtain ⟨inv, outside⟩ := hs
  simp only [List.mem_cons, List.not_mem_nil, or_false] at ha
  rcases ha with rfl | rfl | rfl | rfl
  · exact ⟨⟨inv.state_lt, inv.stream, inv.tokenReady, inv.piece⟩, outside⟩
  · change Between (chunkSize c s)
    obtain ⟨n, hn⟩ := chunkSize_cases c s
    rw [hn]
    exact ⟨⟨inv.state_lt, inv.stream, inv.tokenReady, inv.piece⟩, outside⟩
  · exact exit_piece inv.state_lt inv.stream ⟨rfl, notSmall_final⟩
  · exact ⟨inv.state_lt, inv.stream, fun h => absurd (inv.tokenReady.symm.trans h) (by decide),
      inv.piece⟩

theorem within_act {a : Action}
    (ha : a ∈ [Action.body, .chunkStart, .chunkSize, .chunkRead, .endStream, .largeBodyRead])
    (hs : Within s) : ((machine max blk).act a c s).Sat True Within StreamExit := by
  obtain ⟨inv, piece⟩ := hs
  simp only [List.mem_cons, List.not_mem_nil, or_false] at ha
  rcases ha with rfl | rfl | rfl | rfl | rfl | rfl
  · have token : IsPiece (body s).parser.token := ⟨rfl, notSmall_zero⟩
    exact ⟨⟨inv.state_lt, inv.stream, inv.tokenReady, fun _ => token⟩, token⟩
  · exact ⟨⟨inv.state_lt, inv.stream, inv.tokenReady, inv.piece⟩, piece⟩
  · change Within (chunkSize c s)
    obtain ⟨n, hn⟩ := chunkSize_cases c s
    rw [hn]
    exact ⟨⟨inv.state_lt, inv.stream, inv.tokenReady, inv.piece⟩, piece⟩
  · change (chunkRead max s).Sat _ _ _
    unfold chunkRead
    dsimp only
    split
    · exact exit_piece (show hshHttpEnChunkEnd < 98 by decide)
        (show isStream (phase hshHttpEnChunkEnd) = true by decide) piece
    split
    · split
      · trivial
      · exact ⟨inv.state_lt, inv.stream, fun _ => piece, fun _ => piece⟩
    · exact ⟨inv, piece⟩
  · exact exit_piece inv.state_lt inv.stream ⟨rfl, notSmall_final⟩
  · change (largeBodyRead s).Sat _ _ _
    unfold largeBodyRead
    dsimp only
    split
    · exact exit_piece inv.state_lt inv.stream ⟨piece.1, notSmall_final⟩
    · exact exit_piece inv.state_lt inv.stream ⟨piece.1, piece.2⟩

theorem phaseStep_stream {ph : Phase} (stream : isStream ph = true) (data : ph ≠ .bodyData) (c : ℕ) :
    isStream (phaseStep ph c).1 = true ∧
      (inPiece (phaseStep ph c).1 = false ∧
          (∀ a ∈ (phaseStep ph c).2, a ∈ [Action.chunkStart, .chunkSize, .endStream, .error]) ∨
        ∃ as, ((phaseStep ph c).2 = .body :: as ∨ inPiece ph = true ∧ (phaseStep ph c).2 = as) ∧
          ∀ a ∈ as, a ∈ [Action.body, .chunkStart, .chunkSize, .chunkRead, .endStream, .largeBodyRead]) := by
  cases ph <;> simp only [isStream, Bool.false_eq_true, ne_eq, not_true] at stream data <;>
    simp only [phaseStep, phaseError] <;> (repeat' split) <;> simp [isStream, inPiece]

theorem stream_acts {cs : ℕ} (hs : StreamInv s) (lt : cs < 98) (stream : isStream (phase cs) = true)
    {as : List Action}
    (list : inPiece (phase cs) = false ∧
        (∀ a ∈ as, a ∈ [Action.chunkStart, .chunkSize, .endStream, .error]) ∨
      ∃ bs, (as = .body :: bs ∨ inPiece (phase s.cs) = true ∧ as = bs) ∧
        ∀ a ∈ bs, a ∈ [Action.body, .chunkStart, .chunkSize, .chunkRead, .endStream, .largeBodyRead]) :
    ((machine max blk).runActs c as { s with cs := cs }).Sat True StreamInv StreamExit := by
  rcases list with ⟨outside, plain⟩ | ⟨bs, first, data⟩
  · have start : Between { s with cs := cs } :=
      ⟨⟨lt, stream, hs.tokenReady, fun h => absurd (outside.symm.trans h) (by decide)⟩, outside⟩
    exact (Machine.runActs_sat _ (C := fun _ _ _ => True) (fun a ha s hs _ => between_act (plain a ha) hs)
      start (Machine.actsOk_true _ _ _ _)).mono (fun _ h => h.1) (fun _ h => h)
  have rest : ∀ s, Within s → ((machine max blk).runActs c bs s).Sat True Within StreamExit :=
    fun s hs => Machine.runActs_sat _ (C := fun _ _ _ => True)
      (fun a ha s hs _ => within_act (data a ha) hs) hs (Machine.actsOk_true _ _ _ _)
  rcases first with rfl | ⟨inside, rfl⟩
  · have token : IsPiece (body { s with cs := cs }).parser.token := ⟨rfl, notSmall_zero⟩
    rw [Machine.runActs_fall _ (t := body { s with cs := cs }) rfl]
    have within : Within (body { s with cs := cs }) :=
      ⟨⟨lt, stream, hs.tokenReady, fun _ => token⟩, token⟩
    exact (rest _ within).mono (fun _ h => h.1) (fun _ h => h)
  · have token := hs.piece inside
    have within : Within { s with cs := cs } := ⟨⟨lt, stream, hs.tokenReady, fun _ => token⟩, token⟩
    exact (rest _ within).mono (fun _ h => h.1) (fun _ h => h)

theorem stream_step (hs : StreamInv s) (alive : s.cs ≠ hshHttpError) :
    ((machine max blk).step c s).Sat True StreamInv StreamExit := by
  have again : ∀ t, StreamInv t → ((machine max blk).again t).Sat True StreamInv StreamExit := by
    intro t ht
    change (if t.cs = hshHttpError then Flow.out t else .fall { t with p := t.p + 1 }).Sat _ _ _
    split
    · exact ht.exit
    · exact ⟨ht.state_lt, ht.stream, ht.tokenReady, ht.piece⟩
  refine Machine.step_sat _ ?_ again
  change ((machine max blk).runActs c (transActions s.cs c.toNat)
    { s with cs := transTarg s.cs c.toNat }).Sat _ _ _
  have hc : c.toNat < 256 := c.toNat_lt
  by_cases data : phase s.cs = .bodyData
  · obtain ⟨htarg, hacts⟩ := bodyData_agree hs.state_lt hc data
    refine stream_acts hs (transTarg_lt _ _) (by rw [htarg]; rfl)
      (.inr ⟨_, .inr ⟨by rw [data]; rfl, rfl⟩, ?_⟩)
    have lists : ∀ as ∈ bodyDataActions, ∀ a ∈ as,
        a ∈ [Action.body, .chunkStart, .chunkSize, .chunkRead, .endStream, .largeBodyRead] := by
      decide
    exact lists _ hacts
  obtain ⟨htarg, -⟩ := tables_agree hs.state_lt hc alive data
  have hacts := tables_agree_exact hs.state_lt hc alive data (by
    constructor <;> intro h <;> have := hs.stream <;> rw [h] at this <;> cases this)
  obtain ⟨stream, list⟩ := phaseStep_stream hs.stream data c.toNat
  rw [← htarg] at stream list
  rw [hacts]
  exact stream_acts hs (transTarg_lt _ _) stream list

end Stream

section Calls

variable {max : ℤ} {blk : NewBlock} {parser parser' : HshParserS} {buffer buffer' : HshBufferS}
  {token : HshTokenS}

theorem execOk_any : ExecOk (fun _ _ => True) (fun _ _ _ => True) max blk parser buffer :=
  fun _ => Machine.scanOk_any _ _ _

/-- The state a call leaves, by whether it returns a token. -/
theorem leave_cases (t : Exec) :
    httpFlagCheck t.parser.flags flagTokenReady = true ∧ leave t = (t.parser.token, { t.parser with
        state := t.cs, flags := httpFlagClear t.parser.flags flagTokenReady },
        { t.buffer with index := wrap32 (t.p - t.buffer.buf) }) ∨
      httpFlagCheck t.parser.flags flagTokenReady = false ∧ leave t = (noneToken, { t.parser with
        state := t.cs, sequenceId := t.buffer.sequenceId },
        { t.buffer with index := wrap32 (t.p - t.buffer.buf) }) := by
  cases ready : httpFlagCheck t.parser.flags flagTokenReady with
  | true => exact .inl ⟨rfl, leave_ready ready⟩
  | false =>
    refine .inr ⟨rfl, ?_⟩
    unfold leave
    exact if_neg (by rw [ready]; decide)

/-- Between two calls in a streamed body. -/
def Streaming (parser : HshParserS) : Prop := ∀ buffer, StreamInv (enter parser buffer)

theorem hshParserExec_stream (h : Streaming parser)
    (hr : hshParserExec max blk parser buffer = some (token, parser', buffer')) :
    Streaming parser' ∧ (token = noneToken ∨ IsPiece token) := by
  rcases hshParserExec_sat (I := StreamInv) (Q := StreamExit) (h buffer) (fun _ hs => hs.exit)
    (fun _ _ hs _ alive _ => stream_step hs alive) execOk_any hr with heq | ⟨t, exit, heq⟩
  · obtain ⟨rfl, rfl, rfl⟩ : token = noneToken ∧ parser' = parser ∧ buffer' = buffer := by
      simpa using heq
    exact ⟨h, .inl rfl⟩
  rcases leave_cases t with ⟨ready, hl⟩ | ⟨quiet, hl⟩
  · rw [hl] at heq
    cases heq
    exact ⟨fun _ => ⟨exit.state_lt, exit.stream, tokenReady_clear _, exit.piece⟩, .inr (exit.ready ready)⟩
  · rw [hl] at heq
    cases heq
    exact ⟨fun _ => ⟨exit.state_lt, exit.stream, quiet, exit.piece⟩, .inl rfl⟩

/-- In a small body, about to examine a byte; the buffer is `b`. -/
structure SmallInv (b : HshBufferS) (s : Exec) : Prop where
  state_lt : s.cs < 98
  small : phase s.cs = .small ∨ phase s.cs = .smallRest ∧ s.parser.token.type = .body
  tokenReady : httpFlagCheck s.parser.flags flagTokenReady = false
  buffer_eq : s.buffer = b

/-- The loop is left in a small body: with the whole body, or silently. -/
structure SmallExit (b : HshBufferS) (s : Exec) : Prop where
  state_lt : s.cs < 98
  small : phase s.cs = .small ∨ phase s.cs = .smallRest ∧ s.parser.token.type = .body
  ready : httpFlagCheck s.parser.flags flagTokenReady = true → s.parser.token.type = .body ∧
    httpFlagCheck s.parser.flags flagDone = true
  buffer_eq : s.buffer = b

variable {b : HshBufferS} {s : Exec} {c : UInt8}

theorem SmallInv.exit (hs : SmallInv b s) : SmallExit b s :=
  ⟨hs.state_lt, hs.small, fun h => absurd (hs.tokenReady.symm.trans h) (by decide), hs.buffer_eq⟩

theorem smallBodyRead_sat (lt : s.cs < 98) (rest : phase s.cs = .smallRest)
    (typed : s.parser.token.type = .body)
    (tokenReady : httpFlagCheck s.parser.flags flagTokenReady = false) (hb : s.buffer = b) :
    (smallBodyRead s).Sat True (SmallInv b) (SmallExit b) := by
  unfold smallBodyRead
  dsimp only
  split
  · exact ⟨lt, .inr ⟨rest, typed⟩, fun _ => ⟨typed, done_set _⟩, hb⟩
  · exact ⟨lt, .inr ⟨rest, typed⟩, fun h => absurd (tokenReady.symm.trans h) (by decide), hb⟩

theorem small_step (hs : SmallInv b s) :
    ((machine max blk).step c s).Sat True (SmallInv b) (SmallExit b) := by
  have hc : c.toNat < 256 := c.toNat_lt
  have lt := transTarg_lt s.cs c.toNat
  have alive : s.cs ≠ hshHttpError := by
    intro h0
    rcases hs.small with h | ⟨h, -⟩ <;> rw [h0] at h <;> cases h
  have plain : phase s.cs ≠ .bodyData ∧ phase s.cs ≠ .ows ∧ phase s.cs ≠ .value := by
    rcases hs.small with h | ⟨h, -⟩ <;> rw [h] <;> decide
  obtain ⟨htarg, -⟩ := tables_agree hs.state_lt hc alive plain.1
  have hacts := tables_agree_exact hs.state_lt hc alive plain.1 plain.2
  refine Machine.step_sat (P := fun _ => False) _ ?_ fun _ h => h.elim
  change ((machine max blk).runActs c (transActions s.cs c.toNat)
    { s with cs := transTarg s.cs c.toNat }).Sat _ _ _
  have read : ∀ t : Exec, t.cs = transTarg s.cs c.toNat → t.parser.token.type = .body →
      httpFlagCheck t.parser.flags flagTokenReady = false → t.buffer = b →
      phase (transTarg s.cs c.toNat) = .smallRest →
      ((machine max blk).runActs c [.smallBodyRead] t).Sat True (fun _ => False) (SmallExit b) := by
    intro t hcs typed ready hb rest
    have sat := smallBodyRead_sat (b := b) (hcs ▸ lt) (hcs ▸ rest) typed ready hb
    obtain ⟨u, hu⟩ : ∃ u, smallBodyRead t = .out u := ⟨_, rfl⟩
    rw [hu] at sat
    rw [Machine.runActs_out _ (t := u) hu]
    exact sat
  rcases hs.small with first | ⟨rest, typed⟩
  · rw [first] at htarg hacts
    rw [hacts]
    change ((machine max blk).runActs c [.body, .smallBodyRead] _).Sat _ _ _
    rw [Machine.runActs_fall _ (t := body { s with cs := transTarg s.cs c.toNat }) rfl]
    exact read _ rfl rfl hs.tokenReady hs.buffer_eq htarg
  · rw [rest] at htarg hacts
    rw [hacts]
    exact read _ rfl typed hs.tokenReady hs.buffer_eq htarg

def SmallBody (parser : HshParserS) : Prop := ∀ buffer, SmallInv buffer (enter parser buffer)

/-- The body is returned at most once, and the buffer stays. -/
theorem hshParserExec_small (h : SmallBody parser)
    (hr : hshParserExec max blk parser buffer = some (token, parser', buffer')) :
    SmallBody parser' ∧ (∃ i, buffer' = { buffer with index := i }) ∧
      (token = noneToken ∨ token.type = .body ∧ httpFlagCheck parser.flags flagDone = false ∧
        httpFlagCheck parser'.flags flagDone = true) := by
  by_cases finished : httpFlagCheck parser.flags flagDone = true
  · unfold hshParserExec at hr
    rw [if_pos (.inl finished)] at hr
    cases hr
    exact ⟨h, ⟨_, rfl⟩, .inl rfl⟩
  have running := eq_false_of_ne_true finished
  rcases hshParserExec_sat (I := SmallInv buffer) (Q := SmallExit buffer) (h buffer)
    (fun _ hs => hs.exit) (fun _ _ hs _ _ _ => small_step hs) execOk_any hr with heq | ⟨t, exit, heq⟩
  · obtain ⟨rfl, rfl, rfl⟩ : token = noneToken ∧ parser' = parser ∧ buffer' = buffer := by
      simpa using heq
    exact ⟨h, ⟨_, rfl⟩, .inl rfl⟩
  rcases leave_cases t with ⟨ready, hl⟩ | ⟨quiet, hl⟩
  · rw [hl, exit.buffer_eq] at heq
    cases heq
    exact ⟨fun _ => ⟨exit.state_lt, exit.small, tokenReady_clear _, rfl⟩, ⟨_, rfl⟩,
      .inr ⟨(exit.ready ready).1, running, (done_clear_tokenReady _).trans (exit.ready ready).2⟩⟩
  · rw [hl, exit.buffer_eq] at heq
    cases heq
    exact ⟨fun _ => ⟨exit.state_lt, exit.small, quiet, rfl⟩, ⟨_, rfl⟩, .inl rfl⟩

/-- After a head without a body, or in the error state. -/
structure NoBodyInv (s : Exec) : Prop where
  state_lt : s.cs < 98
  ph : phase s.cs = .headersDone ∨ phase s.cs = .error
  tokenReady : httpFlagCheck s.parser.flags flagTokenReady = false

theorem keyStep_error {c : ℕ} (h : (keyStep c).1 = .error) : keyStep c = phaseError := by
  unfold keyStep at h ⊢
  split at h
  · cases h
  split at h
  · cases h
  · rename_i colon token
    rw [if_neg colon, if_neg token]

def NoBody (parser : HshParserS) : Prop := ∀ buffer, NoBodyInv (enter parser buffer)

end Calls

end HttpServer.BodyPhases
