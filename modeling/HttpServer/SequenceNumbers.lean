import HttpServer.SizeLines

set_option autoImplicit false

/-!
# Sequence numbers of the buffer and the parser

`hsh_parser_exec` returns without a look at the buffer when the parser's copy of the buffer's number
is up to date. The copy is made when a call returns `HSH_TOK_NONE` or a part of a large body. The reads
since then are counted modulo 256.
-/
namespace HttpServer.SequenceNumbers
open MachineInt Scanner ParserTables ParserGrammar HttpServer.Parser ReadBuffer BodyPhases ParserRuns ParserCalls ChunkDecoder SizeLines

/-- A call that returns this token from a state of this phase makes the copy, when the body is not over. -/
def copies (token : HshTokenS) (ph : Phase) : Bool := token.type = .none || inLarge ph

/-- The states that runs reach, with the number of reads since the last copy. -/
inductive Counted (initial max : ℤ) : ℕ → HshParserS → HshBufferS → Prop where
  | init {blk : NewBlock} (memused : ℤ) (hblk : BlockOk blk) :
      Counted initial max 0 hshParserInit (hsBufferInit blk initial memused).1
  | read {n : ℕ} {parser : HshParserS} {buffer : HshBufferS} {calls : List ReadCall} {memused : ℤ} {r : ReadReturn}
      (run : Counted initial max n parser buffer) (hblk : ∀ call ∈ calls, BlockOk call.blk)
      (hr : hsReadIntoBuffer max calls buffer memused = some r) :
      Counted initial max (n + 1) parser r.buffer
  | exec {n : ℕ} {parser parser' : HshParserS} {buffer buffer' : HshBufferS} {blk : NewBlock} {token : HshTokenS}
      (run : Counted initial max n parser buffer) (hblk : BlockOk blk)
      (hr : hshParserExec max blk parser buffer = some (token, parser', buffer')) :
      Counted initial max (if copies token (phase parser.state) then 0 else n) parser' buffer'

structure Numbers (q n : ℤ) (s : Exec) : Prop where
  parser_eq : s.parser.sequenceId = q
  buffer_eq : s.buffer.sequenceId = n
  tokenReady : httpFlagCheck s.parser.flags flagTokenReady = false

/-- With a token the loop leaves the parser's number alone, or with the copy of the buffer's. -/
structure NumbersExit (q n : ℤ) (copied : Bool) (s : Exec) : Prop where
  buffer_eq : s.buffer.sequenceId = n
  parser_eq : httpFlagCheck s.parser.flags flagTokenReady = true →
    if copied then httpFlagCheck s.parser.flags flagDone = true ∨ s.parser.sequenceId = n else s.parser.sequenceId = q

section Steps

variable {max q n : ℤ} {blk : NewBlock} {s t : Exec} {c : UInt8} {copied : Bool}

theorem Numbers.exit (h : Numbers q n s) : NumbersExit q n copied s :=
  ⟨h.buffer_eq, fun ready => absurd (h.tokenReady.symm.trans ready) (by decide)⟩

theorem Numbers.ready (h : Numbers q n s) {u : Exec} (parser : u.parser.sequenceId = s.parser.sequenceId)
    (buffer : u.buffer.sequenceId = s.buffer.sequenceId) : NumbersExit q n false u :=
  ⟨buffer.trans h.buffer_eq, fun _ => parser.trans h.parser_eq⟩

theorem action_numbers {a : Action} (other : a ≠ .largeBodyRead) (h : Numbers q n s) :
    (runAction max blk c a s).Sat True (Numbers q n) (NumbersExit q n false) := by
  obtain ⟨parser, buffer, quiet⟩ := id h
  cases a with
  | emitToken => exact h.ready rfl rfl
  | transferEncoding => exact ⟨parser, buffer, (tokenReady_set_chunked _).trans quiet⟩
  | incCount =>
    change (incCount s).Sat _ _ _
    unfold incCount
    dsimp only
    split
    · exact Numbers.exit ⟨parser, buffer, quiet⟩
    · exact ⟨parser, buffer, quiet⟩
  | doneHeaders =>
    change (doneHeaders max blk s).Sat _ _ _
    unfold doneHeaders
    dsimp only
    split
    · exact h.ready rfl rfl
    split
    · exact h.ready rfl rfl
    split
    · exact h.ready rfl rfl
    split <;> exact h.ready rfl rfl
  | chunkSize =>
    obtain ⟨m, hm⟩ := chunkSize_cases c s
    change Numbers q n (chunkSize c s)
    rw [hm]
    exact ⟨parser, buffer, quiet⟩
  | chunkRead =>
    change (chunkRead max s).Sat _ _ _
    unfold chunkRead
    dsimp only
    split
    · exact h.ready rfl rfl
    split
    · -- the compaction makes the copy, but returns no token
      split
      · trivial
      · rename_i b hb
        have kept : b.sequenceId = s.buffer.sequenceId := by
          unfold HshBufferS.memcpy at hb
          split at hb <;> cases hb
          rfl
        exact ⟨kept.trans buffer, fun ready => absurd (quiet.symm.trans ready) (by decide)⟩
    · exact h
  | endStream => exact h.ready rfl rfl
  | smallBodyRead =>
    change (smallBodyRead s).Sat _ _ _
    unfold smallBodyRead
    dsimp only
    split <;> exact h.ready rfl rfl
  | largeBodyRead => exact absurd rfl other
  | error => exact ⟨buffer, fun ready => absurd (quiet.symm.trans ready) (by decide)⟩
  | _ => exact ⟨parser, buffer, quiet⟩

/-- A part of a large body is returned with the copy made, the last one with the end of the body. -/
theorem largeBodyRead_numbers (h : Numbers q n s) :
    (largeBodyRead s).Sat True (Numbers q n) (NumbersExit q n true) := by
  unfold largeBodyRead
  dsimp only
  split
  · exact ⟨h.buffer_eq, fun _ => .inl (done_set _)⟩
  · exact ⟨h.buffer_eq, fun _ => .inr h.buffer_eq⟩

/-- Only in a large body a byte runs `large_body_read`, and the phase then is one of a large body. -/
theorem trans_large {cs : ℕ} (lt : cs < 98) (alive : cs ≠ hshHttpError) :
    inLarge (phase (transTarg cs c.toNat)) = inLarge (phase cs) ∧
      ∀ a ∈ transActions cs c.toNat, if inLarge (phase cs) then a = .body ∨ a = .largeBodyRead else a ≠ .largeBodyRead := by
  have hc : c.toNat < 256 := c.toNat_lt
  by_cases data : phase cs = .bodyData
  · obtain ⟨htarg, hacts⟩ := bodyData_agree lt hc data
    rw [htarg, data]
    refine ⟨rfl, fun a ha => ?_⟩
    have free : ∀ as ∈ bodyDataActions, Action.largeBodyRead ∉ as := by decide
    rintro rfl
    exact free _ hacts ha
  · obtain ⟨htarg, pre, hpre, hacts⟩ := tables_agree lt hc alive data
    have sides : ∀ a ∈ pre, a ≠ .largeBodyRead := by
      rcases hpre with rfl | ⟨-, rfl | rfl⟩ <;> decide
    have grammar : inLarge (phaseStep (phase cs) c.toNat).1 = inLarge (phase cs) ∧
        ∀ a ∈ (phaseStep (phase cs) c.toNat).2,
          if inLarge (phase cs) then a = .body ∨ a = .largeBodyRead else a ≠ .largeBodyRead := by
      cases hp : phase cs <;> simp only [phaseStep, keyStep, phaseError, inLarge, Bool.false_eq_true, if_false, if_true] <;>
        (try split_ifs) <;> simp
    rw [htarg, hacts]
    refine ⟨grammar.1, fun a ha => ?_⟩
    rcases List.mem_append.1 ha with side | main
    · cases hl : inLarge (phase cs) with
      | false => exact sides a side
      | true =>
        rcases hpre with rfl | ⟨value, -⟩
        · cases side
        · rcases value with hv | hv <;> rw [hv] at hl <;> cases hl
    · exact grammar.2 a main

theorem step_numbers (lt : s.cs < 98) (alive : s.cs ≠ hshHttpError) (h : Numbers q n s) :
    ((machine max blk).step c s).Sat True (Numbers q n) (NumbersExit q n (inLarge (phase s.cs))) := by
  have list := (@trans_large c s.cs lt alive).2
  refine Machine.step_sat (P := Numbers q n) _ ?_ fun u hu => ?_
  · refine Machine.runActs_sat _ (C := fun _ _ _ => True) (fun a ha t ht _ => ?_) (P := Numbers q n)
      (s := { s with cs := transTarg s.cs c.toNat }) ⟨h.parser_eq, h.buffer_eq, h.tokenReady⟩ (Machine.actsOk_true _ _ _ _)
    have this := list a ha
    cases hl : inLarge (phase s.cs) with
    | false =>
      rw [hl] at this
      exact action_numbers this ht
    | true =>
      rw [hl] at this
      rcases this with rfl | rfl
      · exact ⟨ht.parser_eq, ht.buffer_eq, ht.tokenReady⟩
      · exact largeBodyRead_numbers ht
  · rcases again_cases u with ⟨heq, -⟩ | heq <;> rw [heq]
    · exact hu.exit
    · exact ⟨hu.parser_eq, hu.buffer_eq, hu.tokenReady⟩

end Steps

section Calls

variable {initial max : ℤ} {n : ℕ} {blk : NewBlock} {parser parser' : HshParserS} {buffer buffer' : HshBufferS}
  {token : HshTokenS}

/-- A call leaves the buffer's number alone, and the parser's unless it makes the copy. -/
theorem hshParserExec_numbers (rest : CallRest parser buffer) (hblk : BlockOk blk)
    (hr : hshParserExec max blk parser buffer = some (token, parser', buffer')) :
    buffer'.sequenceId = buffer.sequenceId ∧ (httpFlagCheck parser'.flags flagDone = true ∨
      parser'.sequenceId = if copies token (phase parser.state) then buffer.sequenceId else parser.sequenceId) := by
  by_cases finished : httpFlagCheck parser.flags flagDone = true
  · unfold hshParserExec at hr
    rw [if_pos (.inl finished)] at hr
    cases hr
    exact ⟨rfl, .inl finished⟩
  have start : Numbers parser.sequenceId buffer.sequenceId (enter parser buffer) := ⟨rfl, rfl, rest.tokenReady⟩
  have left := hshParserExec_rule
    (I := fun s => CallInv s ∧ Numbers parser.sequenceId buffer.sequenceId s ∧ inLarge (phase s.cs) = inLarge (phase parser.state))
    (Q := fun s => CallExit s ∧ NumbersExit parser.sequenceId buffer.sequenceId (inLarge (phase parser.state)) s)
    ⟨rest.inv (eq_false_of_ne_true finished), start, rfl⟩ (fun _ hs _ => ⟨hs.1.exit, hs.2.1.exit⟩)
    (fun c s hs moving alive _ _ => ?_) execOk_any hr
  swap
  · obtain ⟨call, numbers, large⟩ := hs
    have step : ((machine max blk).step c s).Sat True (Numbers parser.sequenceId buffer.sequenceId)
        (NumbersExit parser.sequenceId buffer.sequenceId (inLarge (phase parser.state))) :=
      large ▸ step_numbers call.state_lt alive numbers
    have both := (@call_step max blk s c call moving alive hblk).and step
    cases hst : (machine max blk).step c s with
    | fall u =>
      rw [hst] at both
      refine ⟨both.1, both.2, ?_⟩
      obtain ⟨parser, rfl⟩ := step_falls hst
      change inLarge (phase (transTarg s.cs c.toNat)) = _
      rw [(trans_large call.state_lt alive).1, large]
    | out u =>
      rw [hst] at both
      exact both
    | fault => trivial
  rcases left with ⟨idle, heq⟩ | ⟨t, ⟨exit, numbers⟩, heq⟩
  · cases heq
    exact ⟨rfl, idle.imp_right fun same => same⟩
  rcases leave_cases t with ⟨ready, hl⟩ | ⟨quiet, hl⟩
  · rw [hl] at heq
    cases heq
    refine ⟨numbers.buffer_eq, ?_⟩
    have typed : decide (t.parser.token.type = .none) = false := decide_eq_false (exit.left ready).1
    have number := numbers.parser_eq ready
    unfold copies
    rw [typed, Bool.false_or]
    cases hl : inLarge (phase parser.state) with
    | false =>
      rw [hl] at number
      exact .inr number
    | true =>
      rw [hl] at number
      exact number.imp_left fun done => (done_clear_tokenReady _).trans done
  · rw [hl] at heq
    cases heq
    exact ⟨numbers.buffer_eq, .inr numbers.buffer_eq⟩

/-- As long as the body is not over, the numbers differ by the reads since the last copy. -/
structure Standing (n : ℕ) (parser : HshParserS) (buffer : HshBufferS) : Prop where
  rest : CallRest parser buffer
  behind : httpFlagCheck parser.flags flagDone = true ∨
    wrap8 parser.sequenceId = parser.sequenceId ∧ buffer.sequenceId = wrap8 (parser.sequenceId + n)

theorem wrap8_wrap8 (x : ℤ) : wrap8 (wrap8 x) = wrap8 x :=
  wrap8_eq (wrap8_bounds x).1 (wrap8_bounds x).2

theorem wrap8_succ (x : ℤ) (n : ℕ) : wrap8 (wrap8 (x + n) + 1) = wrap8 (x + (n + 1 : ℕ)) := by
  unfold wrap8
  rw [Int.bmod_add_bmod]
  push_cast
  rw [add_assoc]

/-- A number comes back after each 256 steps. -/
theorem wrap8_returns {x : ℤ} (small : wrap8 x = x) (n : ℕ) : x = wrap8 (x + n) ↔ 256 ∣ n := by
  have same : x % 256 = (x + n) % 256 ↔ 256 ∣ n := by omega
  rw [← same]
  refine ⟨fun h => ?_, fun h => ?_⟩
  · calc x % 256 = wrap8 (x + n) % 256 := by rw [← h]
      _ = (x + n) % 256 := Int.bmod_emod
  · calc x = wrap8 x := small.symm
      _ = wrap8 (x + n) := by
        unfold wrap8
        rw [← Int.emod_bmod, ← Int.emod_bmod (x + n)]
        norm_num [h]

/-- The invariant of the runs. -/
theorem Counted.standing (initial_lt : initial < 2147483648) (max_ge : -2147483648 ≤ max) (max_lt : max < 2147483648)
    (run : Counted initial max n parser buffer) : Standing n parser buffer := by
  induction run with
  | init memused hblk =>
    have zero : wrap8 0 = 0 := wrap8_eq (by norm_num) (by norm_num)
    exact ⟨callRest_init hblk initial_lt, .inr ⟨zero, zero.symm⟩⟩
  | read _ hblk hr ih =>
    refine ⟨(ih.rest.read max_ge max_lt hblk hr).1, ih.behind.imp_right fun ⟨small, behind⟩ => ⟨small, ?_⟩⟩
    rw [hsReadIntoBuffer_sequenceId hr, behind, wrap8_succ]
  | @exec n parser parser' buffer buffer' blk token _ hblk hr ih =>
    obtain ⟨kept, number⟩ := hshParserExec_numbers ih.rest hblk hr
    refine ⟨(hshParserExec_call ih.rest hblk hr).1, ?_⟩
    rcases ih.behind with done | ⟨small, behind⟩
    · -- the body is over, and the call does nothing
      unfold hshParserExec at hr
      rw [if_pos (.inl done)] at hr
      cases hr
      exact .inl done
    refine number.imp_right fun number => ?_
    rw [number, kept, behind]
    split
    · exact ⟨wrap8_wrap8 _, by rw [Nat.cast_zero, add_zero, wrap8_wrap8]⟩
    · exact ⟨small, rfl⟩

/-- After a read the next call looks at the buffer, unless the reads since the last copy wrap the number. -/
theorem read_scanned (initial_lt : initial < 2147483648) (max_ge : -2147483648 ≤ max) (max_lt : max < 2147483648)
    {calls : List ReadCall} {memused : ℤ} {r : ReadReturn} (run : Counted initial max n parser buffer)
    (running : httpFlagCheck parser.flags flagDone = false) (hr : hsReadIntoBuffer max calls buffer memused = some r) :
    (parser.sequenceId ≠ r.buffer.sequenceId ∧
      ∀ blk, hshParserExec max blk parser r.buffer = (writeExec max blk (enter parser r.buffer)).map leave) ↔
    ¬ 256 ∣ n + 1 := by
  obtain ⟨small, number⟩ := (run.standing initial_lt max_ge max_lt).behind.resolve_left
    fun done => absurd (running.symm.trans done) (by decide)
  have apart : parser.sequenceId ≠ r.buffer.sequenceId ↔ ¬ 256 ∣ n + 1 := by
    rw [hsReadIntoBuffer_sequenceId hr, number, wrap8_succ, ne_eq, wrap8_returns small]
  rw [← apart]
  refine ⟨And.left, fun ne => ⟨ne, fun blk => ?_⟩⟩
  unfold hshParserExec
  exact if_neg (by simp [running, ne])

end Calls

section Sessions

/-! A first read with a chunk of 2048 bytes, and then a chunk of one byte with each read. -/

def firstBytes : List UInt8 := chunkedHead ++ ascii "800\r\n" ++ List.replicate 2048 120
def nextBytes : List UInt8 := [13, 10, 49, 13, 10, 120]

def firstCalls : List ReadCall :=
  [⟨.bytes (firstBytes.take 1024), block 4096⟩, ⟨.bytes ((firstBytes.drop 1024).take 1024), block 4096⟩,
    ⟨.bytes (firstBytes.drop 2048), block 4096⟩, ⟨.fail, block 4096⟩]
def nextCalls : List ReadCall := [⟨.bytes nextBytes, block 4096⟩, ⟨.fail, block 4096⟩]

/-- Some calls that all return a token and make no copy. -/
def answered : ℕ → HshParserS → HshBufferS → Option (HshParserS × HshBufferS)
  | 0, parser, buffer => some (parser, buffer)
  | k + 1, parser, buffer =>
    match hshParserExec 8388608 (block 4096) parser buffer with
    | none => none
    | some (token, parser', buffer') => if copies token (phase parser.state) then none else answered k parser' buffer'

variable {n k : ℕ} {L : ℤ} {parser : HshParserS} {buffer : HshBufferS}

theorem Counted.answered {r : HshParserS × HshBufferS} (run : Counted 1024 8388608 n parser buffer)
    (h : SequenceNumbers.answered k parser buffer = some r) : Counted 1024 8388608 n r.1 r.2 := by
  induction k generalizing parser buffer with
  | zero =>
    cases h
    exact run
  | succ k ih =>
    unfold SequenceNumbers.answered at h
    cases he : hshParserExec 8388608 (block 4096) parser buffer with
    | none => rw [he] at h; cases h
    | some e =>
      obtain ⟨token, parser', buffer'⟩ := e
      rw [he] at h
      dsimp only at h
      split at h
      · cases h
      rename_i kept
      have next := run.exec ⟨by decide, by decide⟩ he
      rw [if_neg kept] at next
      exact ih next h

/-- A chunk was returned, and nothing is left behind it. -/
structure Between (L : ℤ) (parser : HshParserS) (buffer : HshBufferS) : Prop where
  state_eq : parser.state = hshHttpEnChunkEnd
  tokenReady : httpFlagCheck parser.flags flagTokenReady = false
  done : httpFlagCheck parser.flags flagDone = false
  buf_eq : buffer.buf = 4096
  capacity_eq : buffer.capacity = 4096
  index_eq : buffer.index = L
  length_eq : buffer.length = L

theorem first_answered : ∃ r, hsReadIntoBuffer 8388608 firstCalls freshBuffer 0 = some r ∧
    ∃ e, answered 7 hshParserInit r.buffer = some e ∧ Between 2100 e.1 e.2 := by
  have run : (hsReadIntoBuffer 8388608 firstCalls freshBuffer 0).any (fun r =>
      (answered 7 hshParserInit r.buffer).any fun e =>
        decide (e.1.state = hshHttpEnChunkEnd ∧ httpFlagCheck e.1.flags flagTokenReady = false ∧
          httpFlagCheck e.1.flags flagDone = false ∧ e.2.buf = 4096 ∧ e.2.capacity = 4096 ∧ e.2.index = 2100 ∧
          e.2.length = 2100)) = true := by
    decide +kernel
  obtain ⟨r, hr, h⟩ := (Option.any_eq_true _ _).1 run
  obtain ⟨e, he, h⟩ := (Option.any_eq_true _ _).1 h
  obtain ⟨state, quiet, done, buf, capacity, index, length⟩ := of_decide_eq_true h
  exact ⟨r, hr, e, he, state, quiet, done, buf, capacity, index, length⟩

theorem next_read (h : Between L parser buffer) (nonneg : 0 ≤ L) (room : L + 6 < 4096) :
    ∃ b, hsReadIntoBuffer 8388608 nextCalls buffer 0 = some ⟨-1, b, 0⟩ ∧
      b = { append buffer nextBytes with sequenceId := wrap8 (buffer.sequenceId + 1) } ∧ b.length = L + 6 := by
  have length : wrap32 (buffer.length + 6) = L + 6 := by
    rw [h.length_eq]
    exact wrap32_eq (by omega) (by omega)
  refine ⟨_, ?_, rfl, length⟩
  have fits : (ReadResult.bytes nextBytes).fits (buffer.capacity - buffer.length) = true := by
    have enough : (6 : ℤ) ≤ buffer.capacity - buffer.length := by
      rw [h.capacity_eq, h.length_eq]
      omega
    simp [ReadResult.fits, nextBytes, enough]
  have same : growFull 8388608 (block 4096) (append buffer nextBytes) 0 = some (append buffer nextBytes, 0) := by
    refine if_neg fun full => ?_
    have length_eq : wrap32 (buffer.length + 6) = buffer.capacity := full.1
    rw [length, h.capacity_eq] at length_eq
    omega
  have small : (append buffer nextBytes).capacity < 8388608 := h.capacity_eq.trans_lt (by norm_num)
  have fail : ∀ w, ReadResult.fail.fits w = true := fun _ => rfl
  have pos : (ReadResult.bytes nextBytes).count > 0 := by decide
  have neg : ¬ ReadResult.fail.count > 0 := by decide
  simp only [nextCalls, hsReadIntoBuffer, fits, fail, pos, neg, if_true, if_false, ReadResult.received, same, small,
    and_self, false_and, List.isEmpty_nil]
  rfl

theorem next_bytes {b : HshBufferS} {q : ℤ} (h : Between L parser buffer) (nonneg : 0 ≤ L) (room : L + 6 < 4096)
    (hb : b = { append buffer nextBytes with sequenceId := q }) :
    ∃ rest, bytesFrom b (4096 + L) = 13 :: 10 :: 49 :: 13 :: 10 :: 120 :: rest := by
  have buf : b.buf = 4096 := by rw [hb]; exact h.buf_eq
  have capacity : b.capacity = 4096 := by rw [hb]; exact h.capacity_eq
  have byte : ∀ i : ℕ, i < 6 → b.data (4096 + L + i - b.buf) = nextBytes.getD i 0 := by
    intro i lt
    have here : (4096 + L + i - 4096 - L).toNat = i := by omega
    rw [buf, hb]
    change (if buffer.length ≤ 4096 + L + i - 4096 ∧ 4096 + L + i - 4096 < buffer.length + (6 : ℕ) then
      nextBytes.getD (4096 + L + i - 4096 - buffer.length).toNat 0 else _) = _
    rw [h.length_eq, if_pos (by omega), here]
  have next : ∀ i : ℕ, i < 6 → bytesFrom b (4096 + L + i) = nextBytes.getD i 0 :: bytesFrom b (4096 + L + (i + 1 : ℕ)) := by
    intro i lt
    rw [bytesFrom_eq_cons (by omega) (by omega), byte i lt]
    push_cast
    rw [add_assoc _ (i : ℤ) 1]
  refine ⟨bytesFrom b (4096 + L + 6), ?_⟩
  have start := next 0 (by norm_num)
  rw [Nat.cast_zero, add_zero] at start
  rw [start, next 1 (by norm_num), next 2 (by norm_num), next 3 (by norm_num), next 4 (by norm_num), next 5 (by norm_num)]
  rfl

theorem next_scan {s : Exec} {rest : List UInt8} (at_end : s.cs = hshHttpEnChunkEnd) (buf : s.buffer.buf = 4096)
    (p_eq : s.p = 4096 + L) (pe_eq : s.pe = 4096 + L + 6) (nonneg : 0 ≤ L) (room : L + 6 < 4096) :
    (machine 8388608 (block 4096)).scan (13 :: 10 :: 49 :: 13 :: 10 :: 120 :: rest) s = some
      { s with
        p := 4096 + L + 6
        cs := hshHttpEnChunkEnd
        parser := { s.parser with
          contentLength := 1
          token := { s.parser.token with type := .body, flags := 0, index := L + 5, len := 1 }
          flags := httpFlagSet s.parser.flags flagTokenReady } } := by
  have start : s = moved s (4096 + L) hshHttpEnChunkEnd s.parser.contentLength := by
    rw [← p_eq, ← at_end]
    rfl
  have plain : ∀ ph ∈ [Phase.nextCr, .nextLf, .sizeFirst, .size, .sizeLf, .dataFirst], plainPhase ph := by
    unfold plainPhase
    decide
  obtain ⟨c₁, lt₁, ph₁, go₁⟩ := @scan_quiet 8388608 (block 4096) s 13 (10 :: 49 :: 13 :: 10 :: 120 :: rest) .nextLf
    (4096 + L) s.parser.contentLength hshHttpEnChunkEnd (by decide) (plain _ (by decide)) (by decide) (by decide) (by omega)
  obtain ⟨c₂, lt₂, ph₂, go₂⟩ := @scan_quiet 8388608 (block 4096) s 10 (49 :: 13 :: 10 :: 120 :: rest) .sizeFirst
    (4096 + L + 1) s.parser.contentLength c₁ lt₁ (ph₁ ▸ plain _ (by decide)) (by rw [ph₁]; rfl) (by decide) (by omega)
  obtain ⟨c₃, lt₃, ph₃, go₃⟩ := @scan_counts 8388608 (block 4096) s 49 (13 :: 10 :: 120 :: rest) .size
    (4096 + L + 1 + 1) s.parser.contentLength c₂ [.chunkStart, .chunkSize] 1 lt₂ (ph₂ ▸ plain _ (by decide))
    (by rw [ph₂]; rfl) (by decide) (by omega) fun _ => rfl
  obtain ⟨c₄, lt₄, ph₄, go₄⟩ := @scan_quiet 8388608 (block 4096) s 13 (10 :: 120 :: rest) .sizeLf
    (4096 + L + 1 + 1 + 1) 1 c₃ lt₃ (ph₃ ▸ plain _ (by decide)) (by rw [ph₃]; rfl) (by decide) (by omega)
  obtain ⟨c₅, lt₅, ph₅, go₅⟩ := @scan_quiet 8388608 (block 4096) s 10 (120 :: rest) .dataFirst
    (4096 + L + 1 + 1 + 1 + 1) 1 c₄ lt₄ (ph₄ ▸ plain _ (by decide)) (by rw [ph₄]; rfl) (by decide) (by omega)
  obtain ⟨c₆, lt₆, ph₆, trans⟩ := @step_grammar 8388608 (block 4096) (moved s (4096 + L + 1 + 1 + 1 + 1 + 1) c₅ 1) 120
    .data [.body, .chunkRead] lt₅ (ph₅ ▸ plain _ (by decide)) (by change phaseStep (phase c₅) _ = _; rw [ph₅]; rfl)
  rw [start, go₁, go₂, go₃, go₄, go₅, Machine.scan_cons_out]
  · exact beq_false_of_ne (show 4096 + L + 1 + 1 + 1 + 1 + 1 ≠ s.pe by omega)
  refine Machine.step_out _ ?_
  rw [trans, Machine.runActs_fall _ (t := body (moved s (4096 + L + 1 + 1 + 1 + 1 + 1) c₆ 1)) rfl]
  refine Machine.runActs_out _ ?_ _
  have index : wrap32 (4096 + L + 1 + 1 + 1 + 1 + 1 - s.buffer.buf) = L + 5 := by
    rw [buf, show 4096 + L + 1 + 1 + 1 + 1 + 1 - 4096 = L + 5 by ring]
    exact wrap32_eq (by omega) (by omega)
  have last : addr64 (s.buffer.buf + (L + 5) + 1 - 1) = 4096 + L + 5 := by
    rw [buf]
    unfold addr64
    omega
  change chunkRead 8388608 (body (moved s (4096 + L + 1 + 1 + 1 + 1 + 1) c₆ 1)) = _
  have one : wrap32 1 = 1 := wrap32_eq (by norm_num) (by norm_num)
  have whole : (body (moved s (4096 + L + 1 + 1 + 1 + 1 + 1) c₆ 1)).pe ≥
      addr64 (s.buffer.buf + wrap32 (4096 + L + 1 + 1 + 1 + 1 + 1 - s.buffer.buf) + 1 - 1) := by
    rw [index, last]
    change s.pe ≥ _
    omega
  refine (if_pos whole).trans ?_
  dsimp only [body, Exec.setToken, moved]
  rw [index, last, one, show 4096 + L + 6 = 4096 + L + 5 + 1 by ring]
  rfl

theorem next_exec {b : HshBufferS} (h : Between L parser buffer) (nonneg : 0 ≤ L) (room : L + 6 < 4096)
    (hb : b = { append buffer nextBytes with sequenceId := wrap8 (buffer.sequenceId + 1) }) (length_eq : b.length = L + 6)
    (behind : parser.sequenceId ≠ b.sequenceId) :
    ∃ token parser' buffer', hshParserExec 8388608 (block 4096) parser b = some (token, parser', buffer') ∧
      copies token (phase parser.state) = false ∧ Between (L + 6) parser' buffer' := by
  obtain ⟨rest, bytes⟩ := next_bytes h nonneg room hb
  obtain ⟨state, quiet, running, buf, capacity, index, -⟩ := h
  have buf' : b.buf = 4096 := by rw [hb]; exact buf
  have index' : b.index = L := by rw [hb]; exact index
  have place : (enter parser b).p = 4096 + L := by
    change b.buf + b.index = _
    rw [buf', index']
  have left := @next_scan L (enter parser b) rest state buf' place
    (by change b.buf + b.length = _; rw [buf', length_eq]; ring) nonneg room
  have exec : hshParserExec 8388608 (block 4096) parser b = (writeExec 8388608 (block 4096) (enter parser b)).map leave :=
    if_neg (by simp [running, behind])
  have scan : writeExec 8388608 (block 4096) (enter parser b) =
      (machine 8388608 (block 4096)).scan (bytesFrom b (enter parser b).p) (enter parser b) :=
    if_neg fun err => absurd (state.symm.trans err.2) (by decide)
  rw [exec, scan, place, bytes, left]
  have cursor : wrap32 (4096 + L + 6 - b.buf) = L + 6 := by
    rw [buf', show 4096 + L + 6 - 4096 = L + 6 by ring]
    exact wrap32_eq (by omega) (by omega)
  refine ⟨_, _, _, congrArg some (HeadMachine.leave_ready (tokenReady_set _)), ?_, ⟨rfl, tokenReady_clear _, ?_, buf', ?_, cursor, length_eq⟩⟩
  · rw [state]
    exact (by decide : (decide (HshTokenE.body = .none) || inLarge (phase hshHttpEnChunkEnd)) = false)
  · exact (done_clear_tokenReady _).trans ((done_set_tokenReady _).trans running)
  · change b.capacity = 4096
    rw [hb]
    exact capacity

theorem next_round (run : Counted 1024 8388608 n parser buffer) (h : Between L parser buffer) (nonneg : 0 ≤ L)
    (room : L + 6 < 4096) (apart : ¬ 256 ∣ n + 1) :
    ∃ parser' buffer', Counted 1024 8388608 (n + 1) parser' buffer' ∧ Between (L + 6) parser' buffer' := by
  obtain ⟨b, hr, hb, length⟩ := next_read h nonneg room
  have calls : ∀ call ∈ nextCalls, BlockOk call.blk := by
    unfold nextCalls BlockOk
    decide
  have read := run.read calls hr
  have behind := ((read_scanned (by norm_num) (by norm_num) (by norm_num) run h.done hr).2 apart).1
  obtain ⟨token, parser', buffer', he, kept, next⟩ := next_exec h nonneg room hb length behind
  have exec := read.exec ⟨by decide, by decide⟩ he
  rw [kept] at exec
  exact ⟨parser', buffer', exec, next⟩

theorem rounds : ∀ k : ℕ, k ≤ 254 →
    ∃ parser buffer, Counted 1024 8388608 (1 + k) parser buffer ∧ Between (2100 + 6 * k) parser buffer := by
  intro k
  induction k with
  | zero =>
    intro _
    obtain ⟨r, hr, e, he, between⟩ := first_answered
    have calls : ∀ call ∈ firstCalls, BlockOk call.blk := by
      simp only [firstCalls, List.mem_cons, List.not_mem_nil, or_false]
      rintro call (rfl | rfl | rfl | rfl) <;> exact ⟨by decide, by decide⟩
    exact ⟨e.1, e.2, ((Counted.init 0 ⟨by decide, by decide⟩).read calls hr).answered he, between⟩
  | succ k ih =>
    intro le
    obtain ⟨parser, buffer, run, between⟩ := ih (by omega)
    obtain ⟨parser', buffer', run', between'⟩ := next_round run between (by omega) (by omega) (by omega)
    refine ⟨parser', buffer', run', ?_⟩
    push_cast
    rw [mul_add, mul_one, ← add_assoc]
    exact between'

/-- The first read, whose bytes a call looks at. -/
theorem read_scanned_first : ∃ parser buffer r, Counted 1024 8388608 0 parser buffer ∧
    hsReadIntoBuffer 8388608 firstCalls buffer 0 = some r ∧
    ((parser.sequenceId ≠ r.buffer.sequenceId ∧ ∀ blk, hshParserExec 8388608 blk parser r.buffer =
      (writeExec 8388608 blk (enter parser r.buffer)).map leave) ↔ ¬ 256 ∣ 0 + 1) := by
  obtain ⟨r, hr, -⟩ := first_answered
  have run : Counted 1024 8388608 0 hshParserInit freshBuffer := .init 0 ⟨by decide, by decide⟩
  exact ⟨_, _, r, run, hr, read_scanned (by norm_num) (by norm_num) (by norm_num) run (by decide) hr⟩

/-- With the 256th of the reads that each end with a chunk the number is back, and the call that follows returns
    `HSH_TOK_NONE` without a look at the chunk. -/
theorem chunk_hidden : ∃ parser buffer r, Counted 1024 8388608 255 parser buffer ∧
    httpFlagCheck parser.flags flagDone = false ∧ hsReadIntoBuffer 8388608 nextCalls buffer 0 = some r ∧
    received nextCalls ≠ [] ∧ parser.sequenceId = r.buffer.sequenceId ∧
    hshParserExec 8388608 (block 4096) parser r.buffer = some (noneToken, parser, r.buffer) := by
  obtain ⟨parser, buffer, run, between⟩ := rounds 254 (by norm_num)
  obtain ⟨b, hr, -⟩ := next_read between (by norm_num) (by norm_num)
  obtain ⟨small, number⟩ := (run.standing (by norm_num) (by norm_num) (by norm_num)).behind.resolve_left
    fun done => absurd (between.done.symm.trans done) (by decide)
  have same : parser.sequenceId = b.sequenceId := by
    rw [hsReadIntoBuffer_sequenceId hr, number, wrap8_succ]
    exact (wrap8_returns small 256).2 (by decide)
  exact ⟨parser, buffer, _, run, between.done, hr, by decide, same, if_pos (.inr same)⟩

end Sessions

end HttpServer.SequenceNumbers
