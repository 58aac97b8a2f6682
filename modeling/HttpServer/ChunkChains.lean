import HttpServer.ParserCalls
import HttpServer.ParserRuns

set_option autoImplicit false

/-!
# Chunks that lie in the buffer already

A chunk callback that asks for the next chunk runs `hsh_parser_exec` again at once. Such a chain ends
because every call that returns a token leaves the cursor further on, as long as no size is negative.
-/
namespace HttpServer.ChunkChains
open MachineInt Scanner ParserTables ParserGrammar HttpServer.Parser ReadBuffer ParserInvariant BodyPhases ParserCalls

/-- The states in which the callbacks of a chunked body run. -/
def AtChunk (parser : HshParserS) : Prop :=
  parser.state = hshHttpEnChunkedBody ∨ parser.state = hshHttpEnChunkEnd

/-- The size of the chunk is not negative, and the place behind the chunk is an `int`. -/
def SizeFits (s : Exec) : Prop :=
  0 ≤ s.parser.contentLength ∧ (lastBodyByte s s.parser.token.index s.parser.contentLength ≤ s.pe →
    s.parser.token.index + s.parser.contentLength < 2147483648)

instance (s : Exec) : Decidable (SizeFits s) := inferInstanceAs (Decidable (_ ∧ (_ → _)))

/-- Whenever a call comes to `chunk_read`, the size of the chunk has not wrapped. -/
def SizesFit (max : ℤ) (parser : HshParserS) (buffer : HshBufferS) (blk : NewBlock) : Prop :=
  ExecOk (fun _ _ => True) (fun a _ s => a = .chunkRead → SizeFits s) max blk parser buffer

instance (max : ℤ) (parser : HshParserS) (buffer : HshBufferS) (blk : NewBlock) :
    Decidable (SizesFit max parser buffer blk) :=
  inferInstanceAs (Decidable (ExecOk _ _ _ _ _ _))

/-- A chain of `n` calls that each return a token. A read between two of them finds no more bytes. -/
inductive Chain (max : ℤ) (ok : HshParserS → HshBufferS → NewBlock → Prop) (parser : HshParserS)
    (buffer : HshBufferS) : ℕ → HshParserS → HshBufferS → Prop
  | start : Chain max ok parser buffer 0 parser buffer
  | call {n : ℕ} {parser₁ parser₂ : HshParserS} {buffer₁ buffer₂ : HshBufferS} {blk : NewBlock}
      {token : HshTokenS} (chain : Chain max ok parser buffer n parser₁ buffer₁) (hblk : BlockOk blk)
      (hok : ok parser₁ buffer₁ blk)
      (hr : hshParserExec max blk parser₁ buffer₁ = some (token, parser₂, buffer₂))
      (returned : token.type ≠ .none) : Chain max ok parser buffer (n + 1) parser₂ buffer₂
  | read {n : ℕ} {parser₁ : HshParserS} {buffer₁ : HshBufferS} {calls : List ReadCall} {memused : ℤ}
      {r : ReadReturn} (chain : Chain max ok parser buffer n parser₁ buffer₁)
      (hblk : ∀ call ∈ calls, BlockOk call.blk) (nothing : received calls = [])
      (hr : hsReadIntoBuffer max calls buffer₁ memused = some r) :
      Chain max ok parser buffer n parser₁ r.buffer

structure Block (b : HshBufferS) : Prop where
  buf_pos : 0 < b.buf
  buf_lt : b.buf < 4611686018427387904
  capacity_lt : b.capacity < 2147483648

/-- What every call of a chain starts from. -/
structure Ready (parser : HshParserS) (buffer : HshBufferS) : Prop where
  block : Block buffer
  index_nonneg : 0 ≤ buffer.index
  size_lt : parser.contentLength < 9223372036854775808
  tokenReady : httpFlagCheck parser.flags flagTokenReady = false
  next : httpFlagCheck parser.flags flagDone = true ∨ AtChunk parser

/-- Whenever a byte is about to be examined in a call that started at `start`. -/
structure Onward (start : ℤ) (b : HshBufferS) (s : Exec) : Prop where
  buffer_eq : s.buffer = b
  pe_eq : s.pe = b.buf + b.length
  state_lt : s.cs < 98
  chunks : inChunks (phase s.cs) = true
  size_lt : s.parser.contentLength < 9223372036854775808
  tokenReady : httpFlagCheck s.parser.flags flagTokenReady = false
  moved : start < cursor s ∨ cursor s = start ∧ (phase s.cs = .bodySizeFirst ∨ phase s.cs = .nextCr)
  token : inPiece (phase s.cs) = true → start < s.parser.token.index ∧ s.parser.token.index < 2147483648

structure Left (start : ℤ) (b : HshBufferS) (s : Exec) : Prop where
  size_lt : s.parser.contentLength < 9223372036854775808
  returned : httpFlagCheck s.parser.flags flagTokenReady = true → s.buffer = b ∧ start < cursor s ∧
    cursor s < 2147483648 ∧ (httpFlagCheck s.parser.flags flagDone = true ∨ s.cs = hshHttpEnChunkEnd)

/-- Between two actions of a byte at offset `place`, with the state of the machine already set. -/
structure AtByte (b : HshBufferS) (place : ℤ) (cs : ℕ) (t : Exec) : Prop where
  buffer_eq : t.buffer = b
  pe_eq : t.pe = b.buf + b.length
  cursor_eq : cursor t = place
  cs_eq : t.cs = cs
  size_lt : t.parser.contentLength < 9223372036854775808
  tokenReady : httpFlagCheck t.parser.flags flagTokenReady = false

/-- Between two actions of a byte of a chunk that begins behind `start`. -/
structure OnChunk (start : ℤ) (b : HshBufferS) (place : ℤ) (cs : ℕ) (t : Exec) : Prop extends
    AtByte b place cs t where
  token : start < t.parser.token.index ∧ t.parser.token.index < 2147483648

section Steps

variable {max start place : ℤ} {blk : NewBlock} {b : HshBufferS} {s t : Exec} {c : UInt8} {cs : ℕ} {a : Action}

theorem Left.quiet (size_lt : t.parser.contentLength < 9223372036854775808)
    (quiet : httpFlagCheck t.parser.flags flagTokenReady = false) : Left start b t :=
  ⟨size_lt, fun ready => absurd (quiet.symm.trans ready) (by decide)⟩

theorem chunkSize_size_lt (size_lt : t.parser.contentLength < 9223372036854775808) (c : UInt8) :
    (chunkSize c t).parser.contentLength < 9223372036854775808 := by
  unfold chunkSize
  dsimp only
  split
  · exact (wrap64_bounds _).2
  split
  · exact (wrap64_bounds _).2
  split
  · exact (wrap64_bounds _).2
  · exact size_lt

theorem AtByte.chunkSize (h : AtByte b place cs t) (c : UInt8) : AtByte b place cs (chunkSize c t) := by
  have size_lt := chunkSize_size_lt h.size_lt c
  obtain ⟨n, hn⟩ := chunkSize_cases c t
  rw [hn] at size_lt ⊢
  exact ⟨h.buffer_eq, h.pe_eq, h.cursor_eq, h.cs_eq, size_lt, h.tokenReady⟩

theorem endStream_left (h : AtByte b place cs t) (ahead : start ≤ place) (inside : place < b.capacity)
    (capacity_lt : b.capacity < 2147483648) : (endStream t).Sat True (fun _ => False) (Left start b) := by
  have next : t.p + 1 - t.buffer.buf = place + 1 := by
    have := h.cursor_eq
    unfold cursor at this
    omega
  refine ⟨h.size_lt, fun _ => ⟨h.buffer_eq, ?_, ?_, .inl (done_set _)⟩⟩
  · change start < t.p + 1 - t.buffer.buf
    omega
  · change t.p + 1 - t.buffer.buf < 2147483648
    omega

theorem between_left (ha : a ∈ [Action.chunkStart, .chunkSize, .endStream, .error]) (h : AtByte b place cs t)
    (ahead : start ≤ place) (inside : place < b.capacity) (capacity_lt : b.capacity < 2147483648) :
    ((machine max blk).act a c t).Sat True (AtByte b place cs) (Left start b) := by
  simp only [List.mem_cons, List.not_mem_nil, or_false] at ha
  rcases ha with rfl | rfl | rfl | rfl
  · exact ⟨h.buffer_eq, h.pe_eq, h.cursor_eq, h.cs_eq, by norm_num [chunkStart, Exec.setContentLength], h.tokenReady⟩
  · exact h.chunkSize c
  · exact (endStream_left h ahead inside capacity_lt).mono (fun _ hf => hf.elim) fun _ hq => hq
  · exact .quiet h.size_lt h.tokenReady

theorem chunkRead_left (h : AtByte b place cs t) (block : Block b) (nonneg : 0 ≤ start)
    (token : start < t.parser.token.index ∧ t.parser.token.index < 2147483648) (sized : SizeFits t) :
    (chunkRead max t).Sat True (OnChunk start b place cs) (Left start b) := by
  have hbuf : t.buffer.buf = b.buf := by rw [h.buffer_eq]
  have pos := block.buf_pos
  have lt := block.buf_lt
  have size_lt := h.size_lt
  obtain ⟨positive, fits⟩ := sized
  have last : addr64 (t.buffer.buf + t.parser.token.index + t.parser.contentLength - 1) =
      t.buffer.buf + t.parser.token.index + t.parser.contentLength - 1 := addr64_eq (by omega) (by omega)
  unfold chunkRead
  dsimp only
  split
  · rename_i whole
    have ends := fits whole
    have next : addr64 (t.buffer.buf + t.parser.token.index + t.parser.contentLength - 1) + 1 - t.buffer.buf =
        t.parser.token.index + t.parser.contentLength := by omega
    refine ⟨size_lt, fun _ => ⟨h.buffer_eq, ?_, ?_, .inr rfl⟩⟩
    · change start < addr64 _ + 1 - t.buffer.buf
      rw [next]
      omega
    · change addr64 _ + 1 - t.buffer.buf < 2147483648
      rw [next]
      exact ends
  split
  · split
    · trivial
    · exact .quiet size_lt h.tokenReady
  · exact ⟨h, token⟩

theorem body_index (h : AtByte b place cs t) (nonneg : 0 ≤ place) (inside : place < b.capacity)
    (capacity_lt : b.capacity < 2147483648) : AtByte b place cs (body t) ∧ (body t).parser.token.index = place := by
  refine ⟨⟨h.buffer_eq, h.pe_eq, h.cursor_eq, h.cs_eq, h.size_lt, h.tokenReady⟩, ?_⟩
  have here : t.p - t.buffer.buf = place := h.cursor_eq
  change wrap32 (t.p - t.buffer.buf) = place
  rw [here]
  exact wrap32_eq (by omega) (by omega)

theorem within_left (ha : a ∈ dataActions) (h : AtByte b place cs t) (block : Block b) (nonneg : 0 ≤ start)
    (ahead : start < place) (inside : place < b.capacity)
    (token : start < t.parser.token.index ∧ t.parser.token.index < 2147483648) (sized : a = .chunkRead → SizeFits t) :
    ((machine max blk).act a c t).Sat True (OnChunk start b place cs) (Left start b) := by
  have capacity_lt := block.capacity_lt
  simp only [dataActions, List.mem_cons, List.not_mem_nil, or_false] at ha
  rcases ha with rfl | rfl | rfl | rfl | rfl
  · obtain ⟨byte, index⟩ := body_index h (by omega) inside capacity_lt
    refine ⟨byte, ?_⟩
    rw [index]
    omega
  · exact ⟨⟨h.buffer_eq, h.pe_eq, h.cursor_eq, h.cs_eq, by norm_num [chunkStart, Exec.setContentLength],
      h.tokenReady⟩, token⟩
  · refine ⟨h.chunkSize c, ?_⟩
    obtain ⟨n, hn⟩ := chunkSize_cases c t
    rw [hn]
    exact token
  · exact chunkRead_left h block nonneg token (sized rfl)
  · exact (endStream_left h (le_of_lt ahead) inside capacity_lt).mono (fun _ hf => hf.elim) fun _ hq => hq

theorem step_onward (h : Onward start b s) (block : Block b) (nonneg : 0 ≤ start) (alive : s.cs ≠ hshHttpError)
    (inside : cursor s < b.capacity)
    (acts : (machine max blk).ActsOk (fun a _ s => a = .chunkRead → SizeFits s) c
      ((machine max blk).trans c s).2 ((machine max blk).trans c s).1) :
    ((machine max blk).step c s).Sat True (fun u => Onward start b u ∧ cursor u = cursor s + 1) (Left start b) := by
  have hc : c.toNat < 256 := c.toNat_lt
  have lt := transTarg_lt s.cs c.toNat
  have first : AtByte b (cursor s) (transTarg s.cs c.toNat) { s with cs := transTarg s.cs c.toNat } :=
    ⟨h.buffer_eq, h.pe_eq, rfl, rfl, h.size_lt, h.tokenReady⟩
  have ahead : start ≤ cursor s := by
    rcases h.moved with hm | ⟨hm, -⟩ <;> omega
  -- going on after a byte
  have again : ∀ u, inChunks (phase (transTarg s.cs c.toNat)) = true →
      AtByte b (cursor s) (transTarg s.cs c.toNat) u → (inPiece (phase (transTarg s.cs c.toNat)) = true →
        start < u.parser.token.index ∧ u.parser.token.index < 2147483648) →
      ((machine max blk).again u).Sat True (fun u => Onward start b u ∧ cursor u = cursor s + 1) (Left start b) := by
    intro u hph hu token
    rcases again_cases u with ⟨heq, -⟩ | heq <;> rw [heq]
    · exact .quiet hu.size_lt hu.tokenReady
    · have next : cursor { u with p := u.p + 1 } = cursor u + 1 := by
        unfold cursor
        ring
      rw [hu.cursor_eq] at next
      refine ⟨⟨hu.buffer_eq, hu.pe_eq, hu.cs_eq ▸ lt, by rw [hu.cs_eq]; exact hph, hu.size_lt, hu.tokenReady,
        .inl ?_, by rw [hu.cs_eq]; exact token⟩, next⟩
      rw [next]
      omega
  have within : ∀ as : List Action, (∀ a ∈ as, a ∈ dataActions) → start < cursor s →
      ∀ u, OnChunk start b (cursor s) (transTarg s.cs c.toNat) u →
      (machine max blk).ActsOk (fun a _ s => a = .chunkRead → SizeFits s) c as u →
      ((machine max blk).runActs c as u).Sat True (OnChunk start b (cursor s) (transTarg s.cs c.toNat))
        (Left start b) :=
    fun as has moved u hu ok => Machine.runActs_sat _
      (fun a ha t ht sized => within_left (has a ha) ht.toAtByte block nonneg moved inside ht.token sized) hu ok
  by_cases data : phase s.cs = .bodyData
  · obtain ⟨htarg, hacts⟩ := bodyData_agree h.state_lt hc data
    have hph : inChunks (phase (transTarg s.cs c.toNat)) = true := by rw [htarg]; rfl
    have moved : start < cursor s := h.moved.resolve_right (by rw [data]; simp)
    refine Machine.step_sat _ ?_ fun u hu => again u hph (OnChunk.toAtByte hu) fun _ => hu.token
    exact within _ (bodyDataActions_data _ hacts) moved _ ⟨first, h.token (by rw [data]; rfl)⟩ acts
  obtain ⟨htarg, -⟩ := tables_agree h.state_lt hc alive data
  have hacts := tables_agree_exact h.state_lt hc alive data (by
    constructor <;> intro hv <;> have chunks := h.chunks <;> rw [hv] at chunks <;> cases chunks)
  obtain ⟨hph, list⟩ := phaseStep_inChunks h.chunks data c.toNat
  rw [← htarg] at hph list
  rw [← hacts] at list
  rcases list with ⟨free, plain⟩ | ⟨as, byte, has⟩
  · refine Machine.step_sat (P := AtByte b (cursor s) (transTarg s.cs c.toNat)) _ ?_
      fun u hu => again u hph hu fun piece => by
        cases hp : phase (transTarg s.cs c.toNat) <;> rw [hp] at free piece <;>
          first | (cases piece; done) | cases free
    exact Machine.runActs_sat _ (fun a ha t ht _ => between_left (plain a ha) ht ahead inside block.capacity_lt)
      first acts
  · refine Machine.step_sat (P := OnChunk start b (cursor s) (transTarg s.cs c.toNat)) _ ?_
      fun u hu => again u hph hu.toAtByte fun _ => hu.token
    change ((machine max blk).runActs c (transActions s.cs c.toNat) _).Sat _ _ _
    change (machine max blk).ActsOk _ c (transActions s.cs c.toNat) { s with cs := transTarg s.cs c.toNat } at acts
    -- at the place where the call started no chunk goes on
    have moved : start < cursor s := by
      rcases h.moved with hm | ⟨-, hp⟩
      · exact hm
      · rcases hp with hp | hp <;> rw [hacts, hp] at byte <;> simp only [phaseStep] at byte <;> split at byte <;>
          simp [inPiece, phaseError] at byte
    rcases byte with byte | ⟨piece, byte⟩
    · rw [byte] at acts ⊢
      have capacity_lt := block.capacity_lt
      obtain ⟨started, index⟩ := body_index first (by omega) inside capacity_lt
      refine Machine.runActs_cons_sat (P := OnChunk start b (cursor s) (transTarg s.cs c.toNat)) _
        (fun _ => ⟨started, ?_⟩)
        (fun u hu ok => within as has moved u hu ok) acts
      change start < (body { s with cs := transTarg s.cs c.toNat }).parser.token.index ∧
        (body { s with cs := transTarg s.cs c.toNat }).parser.token.index < 2147483648
      rw [index]
      omega
    · rw [byte] at acts ⊢
      exact within as has moved _ ⟨first, h.token piece⟩ acts

end Steps

section Calls

variable {strict : Bool} {max memused : ℤ} {blk : NewBlock} {parser parser' : HshParserS}
  {buffer buffer' : HshBufferS} {token : HshTokenS} {calls : List ReadCall} {r : ReadReturn} {n : ℕ}

theorem atChunk_alive (next : AtChunk parser) : parser.state ≠ hshHttpError := by
  rcases next with h | h <;> rw [h] <;> decide

/-- A call that returns a token leaves the cursor further on. -/
theorem hshParserExec_onward (ready : Ready parser buffer) (ok : SizesFit max parser buffer blk)
    (hr : hshParserExec max blk parser buffer = some (token, parser', buffer')) (returned : token.type ≠ .none) :
    Ready parser' buffer' ∧ buffer.index < buffer'.index ∧ buffer'.index < 2147483648 := by
  obtain ⟨block, nonneg, size_lt, quiet, next⟩ := ready
  unfold hshParserExec at hr
  split at hr
  · cases hr
    exact absurd rfl returned
  rename_i calls
  have next := next.resolve_left fun done => calls (.inl done)
  have alive := atChunk_alive next
  obtain ⟨u, hu, hl⟩ := Option.map_eq_some_iff.1 hr
  unfold writeExec at hu
  rw [if_neg fun err => alive err.2] at hu
  have start : Onward buffer.index buffer (enter parser buffer) := by
    refine ⟨rfl, rfl, ?_, ?_, size_lt, quiet, .inr ⟨cursor_enter, ?_⟩, fun piece => ?_⟩
    · rcases next with h | h <;> change parser.state < 98 <;> rw [h] <;> decide
    · rcases next with h | h <;> change inChunks (phase parser.state) = true <;> rw [h] <;> decide
    · rcases next with h | h <;> change phase parser.state = _ ∨ phase parser.state = _ <;> rw [h] <;> decide
    · rcases next with h | h <;> change inPiece (phase parser.state) = true at piece <;> rw [h] at piece <;>
        exact absurd piece (by decide)
  have exit := Machine.scan_sat (machine max blk) (E := True)
    (I := fun bytes s => Onward buffer.index buffer s ∧ s.cs ≠ hshHttpError ∧ bytes = bytesFrom buffer s.p)
    (Q := Left buffer.index buffer) (fun _ _ _ => trivial)
    (fun _ s hs _ => Left.quiet hs.1.size_lt hs.1.tokenReady)
    (fun c bytes s hs _ _ hacts => by
      obtain ⟨on, alive, left⟩ := hs
      obtain ⟨-, hi, -, tail⟩ := bytesFrom_cons left.symm
      have inside : cursor s < buffer.capacity := by
        unfold cursor
        rw [on.buffer_eq]
        omega
      have step := step_onward on block nonneg alive inside hacts
      cases hst : (machine max blk).step c s with
      | fall t =>
        rw [hst] at step
        obtain ⟨on', next⟩ := step
        have moved : t.p = s.p + 1 := by
          unfold cursor at next
          rw [on.buffer_eq, on'.buffer_eq] at next
          omega
        exact ⟨on', step_alive hst, by rw [tail, moved]⟩
      | out t =>
        rw [hst] at step
        exact step
      | fault => trivial)
    (s := enter parser buffer) ⟨start, alive, rfl⟩ (ok ⟨calls, fun err => alive err.2⟩)
  change (machine max blk).scan (bytesFrom buffer (enter parser buffer).p) (enter parser buffer) = some u at hu
  rw [hu] at exit
  obtain ⟨size_lt, left⟩ := exit
  rcases leave_cases u with ⟨ready, leaves⟩ | ⟨-, leaves⟩
  · obtain ⟨same, moved, small, next⟩ := left ready
    rw [leaves] at hl
    cases hl
    have index : wrap32 (u.p - u.buffer.buf) = cursor u := wrap32_eq (by unfold cursor at *; omega) small
    have place : 0 ≤ wrap32 (u.p - u.buffer.buf) := by rw [index]; omega
    rw [← same] at block
    refine ⟨⟨⟨block.1, block.2, block.3⟩, place, size_lt, tokenReady_clear _, ?_⟩, ?_⟩
    · rw [done_clear_tokenReady]
      exact next.imp_right .inr
    · change buffer.index < wrap32 (u.p - u.buffer.buf) ∧ wrap32 (u.p - u.buffer.buf) < 2147483648
      rw [index]
      exact ⟨moved, small⟩
  · rw [leaves] at hl
    cases hl
    exact absurd rfl returned

theorem growFull_ready {b b' : HshBufferS} {memused' : ℤ} (max_ge : -2147483648 ≤ max) (max_lt : max < 2147483648)
    (hblk : BlockOk blk) (block : Block b) (hr : growFull max blk b memused = some (b', memused')) :
    Block b' ∧ b'.index = b.index := by
  unfold growFull at hr
  split at hr
  · dsimp only at hr
    split at hr
    · cases hr
    cases hr
    exact ⟨⟨hblk.1, hblk.2, (grownCapacity_bounds max_ge max_lt b.capacity).2⟩, rfl⟩
  · cases hr
    exact ⟨block, rfl⟩

theorem hsReadIntoBuffer_ready {b : HshBufferS} (max_ge : -2147483648 ≤ max) (max_lt : max < 2147483648)
    (hblk : ∀ call ∈ calls, BlockOk call.blk) (block : Block b)
    (hr : hsReadIntoBuffer max calls b memused = some r) : Block r.buffer ∧ r.buffer.index = b.index := by
  induction calls generalizing b memused with
  | nil => cases hr
  | cons call calls ih =>
    rw [hsReadIntoBuffer] at hr
    split at hr
    swap
    · cases hr
    dsimp only at hr
    have taken : ∀ b', b' = (if call.result.count > 0 then append b call.result.received else b) →
        Block b' ∧ b'.index = b.index := by
      rintro b' rfl
      split <;> exact ⟨⟨block.1, block.2, block.3⟩, rfl⟩
    obtain ⟨block, index⟩ := taken _ rfl
    split at hr
    · cases hr
    rename_i grown memused' hgrow
    obtain ⟨grown_block, grown_index⟩ := growFull_ready max_ge max_lt (hblk call List.mem_cons_self) block hgrow
    split at hr
    · obtain ⟨rest, rest_index⟩ := ih (fun call h => hblk call (List.mem_cons_of_mem _ h)) grown_block hr
      exact ⟨rest, rest_index.trans (grown_index.trans index)⟩
    split at hr
    · cases hr
      exact ⟨⟨grown_block.1, grown_block.2, grown_block.3⟩, grown_index.trans index⟩
    · cases hr

/-- Each call of a chain takes the cursor at least one byte further. -/
theorem Chain.onward (max_ge : -2147483648 ≤ max) (max_lt : max < 2147483648) (ready : Ready parser buffer)
    (chain : Chain max (SizesFit max) parser buffer n parser' buffer') :
    Ready parser' buffer' ∧ buffer.index + n ≤ buffer'.index ∧ (n ≠ 0 → buffer'.index < 2147483648) := by
  induction chain with
  | start => exact ⟨ready, by simp, fun h => absurd rfl h⟩
  | call _ _ ok hr returned ih =>
    obtain ⟨ready, further, -⟩ := ih
    obtain ⟨ready', moved, small⟩ := hshParserExec_onward ready ok hr returned
    refine ⟨ready', ?_, fun _ => small⟩
    push_cast
    omega
  | read _ hblk _ hr ih =>
    obtain ⟨ready, further, small⟩ := ih
    obtain ⟨block, index⟩ := hsReadIntoBuffer_ready max_ge max_lt hblk ready.block hr
    exact ⟨⟨block, by rw [index]; exact ready.index_nonneg, ready.size_lt, ready.tokenReady, ready.next⟩,
      by rw [index]; exact further, by rw [index]; exact small⟩

theorem ready_of_rest (rest : Rest strict max parser buffer) (next : AtChunk parser) : Ready parser buffer := by
  have placed : CursorOk (enter parser buffer) := by
    refine rest.inv.placed.resolve_right ?_
    rintro ⟨-, small⟩
    change phase parser.state = .small at small
    rcases next with h | h <;> rw [h] at small <;> exact absurd small (by decide)
  have ahi := placed.ahi_le
  rw [cursor_enter] at ahi
  exact ⟨⟨rest.inv.buffer.buf_pos, rest.inv.buffer.buf_lt, rest.inv.buffer.capacity_lt⟩,
    le_trans rest.inv.buffer.ahi_nonneg ahi, rest.inv.counters.length_lt, rest.tokenReady, .inr next⟩

theorem Chain.ends (max_ge : -2147483648 ≤ max) (max_lt : max < 2147483648) (ready : Ready parser buffer)
    (chain : Chain max (SizesFit max) parser buffer n parser' buffer') :
    (n : ℤ) < 2147483648 ∧ ∀ blk token parser₂ buffer₂, SizesFit max parser' buffer' blk →
      hshParserExec max blk parser' buffer' = some (token, parser₂, buffer₂) → token.type ≠ .none →
      buffer'.index < buffer₂.index := by
  obtain ⟨here, further, small⟩ := chain.onward max_ge max_lt ready
  have nonneg := ready.index_nonneg
  refine ⟨?_, fun blk token parser₂ buffer₂ ok hr returned => (hshParserExec_onward here ok hr returned).2.1⟩
  by_cases none : n = 0
  · omega
  · have := small none
    omega

/-- A chain of callbacks ends, whatever the bytes are: a call that returns a token leaves the cursor
    strictly further than the call before it, and no chain is longer than the buffer can be. -/
theorem chain_ends (max_ge : -2147483648 ≤ max) (max_lt : max < 2147483648) (ready : Ready parser buffer)
    (chain : Chain max (SizesFit max) parser buffer n parser' buffer') :
    (n : ℤ) < 2147483648 ∧ ∀ blk token parser₂ buffer₂, SizesFit max parser' buffer' blk →
      hshParserExec max blk parser' buffer' = some (token, parser₂, buffer₂) → token.type ≠ .none →
      buffer'.index < buffer₂.index :=
  chain.ends max_ge max_lt ready

/-- So it is for every chain that starts from a state of a run: there a chunk callback finds all that a
    chain needs. -/
theorem chain_ends_reached {initial : ℤ} {input : List UInt8} {tokens : List HshTokenS} (initial_ge : 0 ≤ initial)
    (initial_le : initial ≤ max) (max_lt : max < 2147483648)
    (run : ParserRuns.ParserRun (ParserRuns.CursorKept max) initial max input tokens parser buffer)
    (next : AtChunk parser) (chain : Chain max (SizesFit max) parser buffer n parser' buffer') :
    (n : ℤ) < 2147483648 ∧ ∀ blk token parser₂ buffer₂, SizesFit max parser' buffer' blk →
      hshParserExec max blk parser' buffer' = some (token, parser₂, buffer₂) → token.type ≠ .none →
      buffer'.index < buffer₂.index :=
  chain.ends (by omega) max_lt (ready_of_rest (ParserRuns.rest_kept initial_ge initial_le max_lt run) next)

end Calls

section Sessions

open ParserRuns

/-- The head of a request with a chunked body, and a first chunk of one byte -/
def firstChunk : List UInt8 := ascii "POST / HTTP/1.1\r\nTransfer-Encoding: chunked\r\n\r\n1\r\nx"

instance (parser : HshParserS) : Decidable (AtChunk parser) := inferInstanceAs (Decidable (_ ∨ _))

instance (b : HshBufferS) : Decidable (Block b) :=
  decidable_of_iff (0 < b.buf ∧ b.buf < 4611686018427387904 ∧ b.capacity < 2147483648)
    ⟨fun h => ⟨h.1, h.2.1, h.2.2⟩, fun h => ⟨h.1, h.2, h.3⟩⟩

instance (parser : HshParserS) (buffer : HshBufferS) : Decidable (Ready parser buffer) :=
  decidable_of_iff (Block buffer ∧ 0 ≤ buffer.index ∧ parser.contentLength < 9223372036854775808 ∧
      httpFlagCheck parser.flags flagTokenReady = false ∧
      (httpFlagCheck parser.flags flagDone = true ∨ AtChunk parser))
    ⟨fun h => ⟨h.1, h.2.1, h.2.2.1, h.2.2.2.1, h.2.2.2.2⟩, fun h => ⟨h.1, h.2, h.3, h.4, h.5⟩⟩

theorem chain_ends_second : ∃ input tokens parser buffer token parser₂ buffer₂,
    ParserRun (fun _ _ _ => True) 1024 8388608 input tokens parser buffer ∧ parser.state = hshHttpEnChunkEnd ∧
      hshParserExec 8388608 (block 4096) parser buffer = some (token, parser₂, buffer₂) ∧
      buffer.index < buffer₂.index := by
  have run : (session firstChunk (ascii "\r\n2\r\nyz\r\n0\r\n\r\n")).any (fun r =>
      decide (r.1.state = hshHttpEnChunkEnd ∧ Ready r.1 r.2 ∧ SizesFit 8388608 r.1 r.2 (block 4096)) &&
        (hshParserExec 8388608 (block 4096) r.1 r.2).any fun e => decide (e.1.type ≠ .none)) = true := by
    decide +kernel
  obtain ⟨⟨parser, buffer⟩, hs, hr⟩ := (Option.any_eq_true _ _).1 run
  rw [Bool.and_eq_true, decide_eq_true_eq] at hr
  obtain ⟨⟨at_end, ready, fits⟩, hcall⟩ := hr
  obtain ⟨⟨token, parser₂, buffer₂⟩, he, typed⟩ := (Option.any_eq_true _ _).1 hcall
  rw [decide_eq_true_eq] at typed
  obtain ⟨tokens, reached⟩ := session_run hs
  exact ⟨_, tokens, parser, buffer, token, parser₂, buffer₂, reached, at_end, he,
    (chain_ends (by norm_num) (by norm_num) ready .start).2 _ _ _ _ fits he typed⟩

/-- A size of minus twenty is as long as its line with the end of the chunk before it: every call returns
    a token and leaves the cursor where it was. -/
theorem cursor_returns : ∃ input tokens parser buffer token parser' buffer',
    ParserRun (fun _ _ _ => True) 1024 8388608 input tokens parser buffer ∧ parser.state = hshHttpEnChunkEnd ∧
      hshParserExec 8388608 (block 4096) parser buffer = some (token, parser', buffer') ∧ token.type = .body ∧
      buffer'.index = buffer.index ∧ parser'.state = hshHttpEnChunkEnd ∧ ¬ buffer.index < buffer'.index := by
  have run : (session firstChunk (ascii "\r\nFFFFFFFFFFFFFFEC\r\nz")).any (fun r =>
      (hshParserExec 8388608 (block 4096) r.1 r.2).any fun e =>
        decide (r.1.state = hshHttpEnChunkEnd ∧ e.1.type = .body ∧ e.2.2.index = r.2.index ∧
          e.2.1.state = hshHttpEnChunkEnd)) = true := by
    decide +kernel
  obtain ⟨⟨parser, buffer⟩, hs, hr⟩ := (Option.any_eq_true _ _).1 run
  obtain ⟨⟨token, parser', buffer'⟩, he, state⟩ := (Option.any_eq_true _ _).1 hr
  rw [decide_eq_true_eq] at state
  obtain ⟨at_end, typed, same, again⟩ := state
  obtain ⟨tokens, reached⟩ := session_run hs
  exact ⟨_, tokens, parser, buffer, token, parser', buffer', reached, at_end, he, typed, same, again, same.not_gt⟩

end Sessions

end HttpServer.ChunkChains
