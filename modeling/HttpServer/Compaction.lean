import HttpServer.KeptHeads
import HttpServer.ParserRuns

set_option autoImplicit false

/-!
# parser.rl: what `chunk_read` keeps of a chunk that it moves

The move starts at the scan position, and the chunk at its token.
-/
namespace HttpServer.Compaction
open MachineInt ParserTables HttpServer.Parser ReadBuffer ParserInvariant

/-- The action runs at a received byte behind the head. -/
structure AtByte (s : Exec) : Prop where
  ahi_nonneg : 0 ≤ s.buffer.afterHeadersIndex
  ahi_le : s.buffer.buf + s.buffer.afterHeadersIndex ≤ s.p
  p_lt : s.p < s.pe
  pe_le : s.pe ≤ s.buffer.buf + s.buffer.capacity
  capacity_lt : s.buffer.capacity < 2147483648
  index_nonneg : 0 ≤ s.parser.token.index
  length_ge : -9223372036854775808 ≤ s.parser.contentLength

/-- The bytes of the current chunk that were received. -/
def receivedChunk (s : Exec) : List UInt8 :=
  slice s.buffer.data s.parser.token.index (s.pe - (s.buffer.buf + s.parser.token.index)).toNat

/-- The bytes from the start of the token to the end of the buffer. -/
def keptChunk (s : Exec) : List UInt8 :=
  slice s.buffer.data s.parser.token.index (s.buffer.length - s.parser.token.index).toNat

/-- A move keeps the chunk, and there is none when the chunk fits where it is. -/
def KeepsChunk (max : ℤ) (s : Exec) : Prop :=
  (Compacts max s → ∃ t, chunkRead max s = .out t ∧ keptChunk t = receivedChunk s) ∧
    (s.parser.token.index + s.parser.contentLength ≤ max → ¬ Compacts max s)

section Move

variable {max : ℤ} {s t : Exec}

theorem atByte_of_mid {start : Exec} (h : Ready true max start) (hm : Mid start.buffer.afterHeadersIndex start s) : AtByte s := by
  have bounds := h.cursor_bounds
  have held := h.buffer.held rfl
  have ahi := h.ahi_le
  have lt := h.lt_length
  have pe := h.pe_eq
  have index := hm.token_ge
  obtain ⟨buffer_eq, p_eq, pe_eq, -, counters, -, -, -, -⟩ := hm
  have nonneg := h.buffer.ahi_nonneg
  unfold cursor at ahi lt
  constructor
  · rw [buffer_eq]
    exact nonneg
  · rw [buffer_eq, p_eq]
    omega
  · rw [p_eq, pe_eq]
    omega
  · rw [buffer_eq, pe_eq]
    omega
  · rw [buffer_eq]
    exact h.buffer.capacity_lt
  · omega
  · exact counters.length_ge

theorem chunkRead_moves (compacts : Compacts max s) {b : HshBufferS}
    (moved : s.buffer.memcpy s.buffer.afterHeadersIndex (s.p - s.buffer.buf) (s.pe - s.p) = some b) :
    chunkRead max s = .out { s with
      buffer := { b with length := wrap32 (s.buffer.afterHeadersIndex + s.pe - s.p) }
      p := s.buffer.buf + s.buffer.afterHeadersIndex - 1 + 1
      parser := { s.parser with
        token := { s.parser.token with index := s.buffer.afterHeadersIndex }
        sequenceId := s.buffer.sequenceId } } := by
  unfold chunkRead
  rw [if_neg (show ¬ s.pe ≥ addr64 (s.buffer.buf + s.parser.token.index + s.parser.contentLength - 1)
    from not_le.2 compacts.1), if_pos compacts.2]
  dsimp only
  rw [moved]
  rfl

theorem chunkRead_faults (compacts : Compacts max s)
    (overlap : s.buffer.memcpy s.buffer.afterHeadersIndex (s.p - s.buffer.buf) (s.pe - s.p) = none) :
    chunkRead max s = .fault := by
  unfold chunkRead
  rw [if_neg (show ¬ s.pe ≥ addr64 (s.buffer.buf + s.parser.token.index + s.parser.contentLength - 1)
    from not_le.2 compacts.1), if_pos compacts.2]
  dsimp only
  rw [overlap]

theorem keptChunk_eq (h : AtByte s) (compacts : Compacts max s) (hr : chunkRead max s = .out t) :
    MoveFits s ∧ keptChunk t = slice s.buffer.data (s.p - s.buffer.buf) (s.pe - s.p).toNat := by
  obtain ⟨ahi, ahi_le, lt, le, cap, -, -⟩ := h
  cases moved : s.buffer.memcpy s.buffer.afterHeadersIndex (s.p - s.buffer.buf) (s.pe - s.p) with
  | none =>
    rw [chunkRead_faults compacts moved] at hr
    cases hr
  | some b =>
    rw [chunkRead_moves compacts moved] at hr
    cases hr
    have apart : MoveFits s := by
      unfold HshBufferS.memcpy at moved
      split at moved
      · rename_i inside
        unfold MoveFits
        obtain ⟨-, -, -, -, -, empty | before | after⟩ := inside <;> omega
      · cases moved
    have count : ((s.pe - s.p).toNat : ℤ) = s.pe - s.p := by omega
    have data := memcpy_slice (n := (s.pe - s.p).toNat) (by rw [count]; exact moved)
    have length : wrap32 (s.buffer.afterHeadersIndex + s.pe - s.p) = s.buffer.afterHeadersIndex + (s.pe - s.p) := by
      rw [wrap32_eq (by omega) (by omega)]
      ring
    refine ⟨apart, ?_⟩
    unfold keptChunk
    dsimp only
    rw [length, add_sub_cancel_left]
    exact data

theorem moveFits_moves (h : AtByte s) (compacts : Compacts max s) (apart : MoveFits s) :
    ∃ t, chunkRead max s = .out t := by
  obtain ⟨ahi, ahi_le, lt, le, -, -, -⟩ := h
  have some : (s.buffer.memcpy s.buffer.afterHeadersIndex (s.p - s.buffer.buf) (s.pe - s.p)).isSome :=
    memcpy_some (by omega) ahi apart (by omega)
  obtain ⟨b, moved⟩ := Option.isSome_iff_exists.1 some
  exact ⟨_, chunkRead_moves compacts moved⟩

theorem AtByte.keepsChunk_iff (h : AtByte s) (max_lt : max < 2147483648) :
    KeepsChunk max s ↔
      (Compacts max s → s.p = s.buffer.buf + s.parser.token.index ∧ MoveFits s) := by
  obtain ⟨ahi, ahi_le, lt, le, cap, index, n⟩ := id h
  constructor
  · rintro ⟨keeps, -⟩ compacts
    obtain ⟨t, hr, same⟩ := keeps compacts
    obtain ⟨apart, kept⟩ := keptChunk_eq h compacts hr
    refine ⟨?_, apart⟩
    rw [kept] at same
    have lengths := congrArg List.length same
    unfold receivedChunk at lengths
    rw [slice_length, slice_length] at lengths
    omega
  · intro good
    refine ⟨fun compacts => ?_, fun fits compacts => ?_⟩
    · obtain ⟨start, apart⟩ := good compacts
      obtain ⟨t, hr⟩ := moveFits_moves h compacts apart
      refine ⟨t, hr, ?_⟩
      rw [(keptChunk_eq h compacts hr).2, receivedChunk, ← start, show s.p - s.buffer.buf = s.parser.token.index by omega]
    · have beyond := compacts.2
      rw [show s.p - s.buffer.buf + s.parser.contentLength = s.parser.token.index + s.parser.contentLength by
        have := (good compacts).1; omega, wrap64_eq (by omega) (by omega)] at beyond
      omega

/-- A move keeps the chunk exactly if it starts at its first byte and the regions are disjoint. -/
theorem chunkRead_keeps_chunk (h : AtByte s) (max_lt : max < 2147483648) :
    KeepsChunk max s ↔
      (Compacts max s → s.p = s.buffer.buf + s.parser.token.index ∧ MoveFits s) :=
  h.keepsChunk_iff max_lt

/-- A state of the scan loop with a chunk of `n` bytes at `index`, of which `length - index` were received. -/
def chunkAt (index n length p : ℤ) : Exec where
  parser := { token := { type := .body, index := index }, contentLength := n }
  buffer :=
    { buf := 4096
      data := fun i => if 50 ≤ i then 98 else 97
      capacity := 64
      length := length
      afterHeadersIndex := 46 }
  p := 4096 + p
  pe := 4096 + length
  cs := hshHttpEnChunkedBody

/-- One byte of a chunk that has to move was received. -/
theorem chunkRead_keeps_chunk_moved : KeepsChunk 64 (chunkAt 49 16 50 49) :=
  (chunkRead_keeps_chunk ⟨by decide, by decide, by decide, by decide, by decide, by decide, by decide⟩ (by decide)).2
    fun _ => ⟨by decide, by decide⟩

/-- Two bytes of a chunk that ends with the buffer were received: it moves at the second one, and the first is lost. -/
theorem chunkRead_loses_byte : AtByte (chunkAt 49 15 51 50) ∧ ¬ KeepsChunk 64 (chunkAt 49 15 51 50) ∧
    receivedChunk (chunkAt 49 15 51 50) = [97, 98] ∧
    ∀ t, chunkRead 64 (chunkAt 49 15 51 50) = .out t → keptChunk t = [98] := by
  have state : AtByte (chunkAt 49 15 51 50) :=
    ⟨by decide, by decide, by decide, by decide, by decide, by decide, by decide⟩
  have compacts : Compacts 64 (chunkAt 49 15 51 50) := by decide
  refine ⟨state, fun keeps => keeps.2 (by decide) compacts, by decide, fun t hr => ?_⟩
  rw [(keptChunk_eq state compacts hr).2]
  decide

end Move

section Runs

open Scanner ParserGrammar ParserRuns

variable {tokens : Bool} {max initial : ℤ} {blk : NewBlock} {s₀ s : Exec} {c : UInt8} {cs : List UInt8}

theorem chunkRead_data {state : ℕ} (lt : state < 98) (alive : state ≠ hshHttpError)
    (runs : Action.chunkRead ∈ transActions state c.toNat) : phase state = .dataFirst ∨ phase state = .data ∨
      phase state = .bodyDataFirst ∨ phase state = .bodyData := by
  by_cases data : phase state = .bodyData
  · exact .inr (.inr (.inr data))
  obtain ⟨-, pre, before, hacts⟩ := tables_agree lt c.toNat_lt alive data
  rw [hacts, List.mem_append] at runs
  have step : Action.chunkRead ∈ (phaseStep (phase state) c.toNat).2 := by
    refine runs.resolve_left ?_
    rcases before with rfl | ⟨-, rfl | rfl⟩ <;> decide
  cases body : readsBody (phase state) with
  | false =>
    rcases (phaseStep_outside body c.toNat).2 with heads | ⟨-, ends⟩ | ends
    · exact absurd (heads _ step) (by decide)
    all_goals
      rw [ends] at step
      exact absurd step (by decide)
  | true =>
    cases ph : phase state <;> rw [ph] at body step <;> first | (cases body; done) | (simp; done) | skip
    all_goals exact absurd step (by simp [phaseStep])

theorem actsOk_absent {P : Exec → Prop} {as : List Action} (absent : Action.chunkRead ∉ as) (s : Exec) :
    (machine max blk).ActsOk (fun a _ s => a = .chunkRead → P s) c as s := by
  refine Machine.actsOk_of_inv (machine max blk) (E := True) (P := fun _ => True) (Q := fun _ => True) ?_ trivial
    (Machine.actsOk_true (machine max blk) c as s)
  intro a ha t _ _
  refine ⟨fun read => absurd (read ▸ ha) absent, ?_⟩
  cases (machine max blk).act a c t <;> trivial

/-- In a run that keeps the cursor in the block `chunk_read` runs at a received byte behind the head. -/
theorem acts_atByte (h : Loop true max s₀ (c :: cs) s) (running : s.p ≠ s.pe)
    (ok : ParserInvariant.ActsOk tokens true max blk c s) :
    (machine max blk).ActsOk (fun a _ s => a = .chunkRead → AtByte s) c (transActions s.cs c.toNat)
      { s with cs := transTarg s.cs c.toNat } := by
  by_cases runs : Action.chunkRead ∈ transActions s.cs c.toNat
  swap
  · exact actsOk_absent runs _
  obtain ⟨ready, htarg, hacts⟩ := h.data_mid running (chunkRead_data h.inv.state_lt (h.live running) runs)
  have within : ∀ as : List Action, (∀ a ∈ as, a ∈ dataActions) → ∀ t,
      Mid s.buffer.afterHeadersIndex { s with cs := transTarg s.cs c.toNat } t →
      (machine max blk).ActsOk (fun a _ s => ActionOk tokens true max blk a s) c as t →
      (machine max blk).ActsOk (fun a _ s => a = .chunkRead → AtByte s) c as t :=
    fun as has t ht okt => Machine.actsOk_of_inv (machine max blk) (E := true = false)
      (Q := Exit tokens true max { s with cs := transTarg s.cs c.toNat }) (fun a ha t ht okt => ⟨fun _ => atByte_of_mid ready ht, dataAction_sat (has a ha) ready htarg ht okt⟩) ht okt
  rcases hacts with ⟨has, mid⟩ | ⟨has, mid⟩
  · exact within _ has _ mid ok
  · unfold ParserInvariant.ActsOk at ok
    rw [has] at ok ⊢
    exact ⟨fun read => absurd read (by decide), within [.chunkRead] (by decide) _ mid ok.2⟩

variable {input : List UInt8} {toks : List HshTokenS} {parser : HshParserS} {buffer : HshBufferS}

/-- Whenever `chunk_read` runs in a run that keeps the cursor in the block, a move keeps the chunk exactly
    if it starts at its first byte. -/
theorem chunkRead_keeps_chunk_reached (initial_ge : 0 ≤ initial) (initial_le : initial ≤ max)
    (max_lt : max < 2147483648) (run : ParserRun (CursorKept max) initial max input toks parser buffer)
    (hblk : BlockOk blk) (ok : CursorKept max parser buffer blk) :
    ExecOk (fun _ _ => True) (fun a _ s => a = .chunkRead →
      (KeepsChunk max s ↔ (Compacts max s → s.p = s.buffer.buf + s.parser.token.index ∧ MoveFits s)))
      max blk parser buffer := by
  have rest := rest_kept initial_ge initial_le max_lt run
  have placed : ExecOk (fun _ _ => True) (fun a _ s => a = .chunkRead → AtByte s) max blk parser buffer :=
    fun scans => Machine.scanOk_of_inv _ (I := Loop true max (enter parser buffer))
      (Q := Exit false true max (enter parser buffer)) (E := true = false)
      (fun c cs s hs running _ acts => by
        have moving : s.p ≠ s.pe := by simpa [machine] using running
        exact ⟨trivial, acts_atByte hs moving acts, step_sat hs moving acts (by omega) max_lt hblk⟩)
      (enter_loop rest scans) (ok.actionOk scans)
  exact placed.mono (fun _ _ h => h) fun _ _ _ placed read => (placed read).keepsChunk_iff max_lt

end Runs

end HttpServer.Compaction
