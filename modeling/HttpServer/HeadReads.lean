import HttpServer.HeadGrammar

set_option autoImplicit false

/-!
# Heads in growing reads

A head arrives in any runs of the read loop, which make the buffer grow, and each of them is followed by
calls of `hsh_parser_exec` until one returns `HSH_TOK_NONE` or the end of the head.
-/
namespace HttpServer.HeadReads
open MachineInt HttpServer.Parser ReadBuffer ParserInvariant ParserRuns HeadMachine HeadGrammar

/-- The bytes that were read and the tokens that were returned, until the end of the head. -/
inductive HeadFed (initial max : ℤ) (fuel : ℕ) :
    List UInt8 → List HshTokenS → HshParserS → HshBufferS → Prop where
  | init {blk : NewBlock} (memused : ℤ) (hblk : BlockOk blk) :
      HeadFed initial max fuel [] [] hshParserInit (hsBufferInit blk initial memused).1
  | read {input : List UInt8} {tokens more : List HshTokenS} {parser parser' : HshParserS}
      {buffer buffer' : HshBufferS} {calls : List ReadCall} {memused : ℤ} {r : ReadReturn} {blk : NewBlock}
      (fed : HeadFed initial max fuel input tokens parser buffer) (going : hasHeadersDone tokens = false)
      (hblk : ∀ call ∈ calls, BlockOk call.blk) (hr : hsReadIntoBuffer max calls buffer memused = some r)
      (hd : headTokens max blk fuel parser r.buffer = some (more, parser', buffer')) :
      HeadFed initial max fuel (input ++ received calls) (tokens ++ more) parser' buffer'

section Fed

variable {initial max memused : ℤ} {fuel : ℕ} {input w : List UInt8} {tokens : List HshTokenS} {shapes : List Shape}
  {parser : HshParserS} {buffer : HshBufferS} {calls : List ReadCall} {r : ReadReturn}

/-- The bytes that were read are a part of the head `w`, the rest of which gives the remaining tokens. -/
structure Partly (w : List UInt8) (shapes : List Shape) (max : ℤ) (input : List UInt8) (tokens : List HshTokenS)
    (parser : HshParserS) (buffer : HshBufferS) : Prop where
  ok : BufferOk true max buffer
  seen : parser.sequenceId = buffer.sequenceId
  length_eq : buffer.length = input.length
  room : buffer.length < buffer.capacity ∨ buffer.capacity = max
  plain : hasHeadersDone tokens = false
  goes : ∃ h h' rest coming, HeadRest parser buffer h ∧ h.offset = input.length ∧ isHead h.ph = true ∧
    input ++ rest = w ∧ headRun rest h = some (h', coming.map some) ∧ h'.ph = .headersDone ∧
    tokens.map shape ++ coming = shapes

/-- The head was read and its tokens were returned, or a part of it. -/
def Comes (w : List UInt8) (shapes : List Shape) (max : ℤ) (input : List UInt8) (tokens : List HshTokenS)
    (parser : HshParserS) (buffer : HshBufferS) : Prop :=
  w <+: input ∧ hasHeadersDone tokens = true ∧ tokens.map shape = shapes ∨ Partly w shapes max input tokens parser buffer

theorem partly_init {blk : NewBlock} {h' : HeadScan} (hblk : BlockOk blk) (pos : 0 < initial) (le : initial ≤ max)
    (max_lt : max < 2147483648) (run : Reads w {} shapes h') (last : h'.ph = .headersDone) :
    Partly w shapes max [] [] hshParserInit (hsBufferInit blk initial memused).1 :=
  ⟨⟨hblk.1, hblk.2, le_refl 0, le_refl 0, by norm_num [hsBufferInit], by dsimp only [hsBufferInit]; omega,
      fun _ => ⟨pos.le, le⟩⟩,
    rfl, rfl, .inl pos, rfl, {}, h', w, shapes, headRest_init, rfl, rfl, rfl, run, last, rfl⟩

theorem Partly.length_lt (h : Partly w shapes max input tokens parser buffer) : input.length < w.length := by
  obtain ⟨g, g', rest, coming, -, -, live, rfl, run, last, -⟩ := h.goes
  have more : rest ≠ [] := by
    rintro rfl
    obtain ⟨rfl, -⟩ := headRun_nil run
    rw [last] at live
    cases live
  have pos := List.length_pos_iff.2 more
  rw [List.length_append]
  omega

theorem Partly.not_whole (h : Partly w shapes max input tokens parser buffer) : ¬ w <+: input :=
  fun whole => absurd whole.length_le (not_le.2 h.length_lt)

theorem Partly.has_room (h : Partly w shapes max input tokens parser buffer) (fits : (w.length : ℤ) ≤ max) :
    buffer.length < buffer.capacity := by
  have length := h.length_eq
  have lt := h.length_lt
  rcases h.room with room | full
  · exact room
  · omega

theorem Partly.read (h : Partly w shapes max input tokens parser buffer) (max_ge : -2147483648 ≤ max)
    (max_lt : max < 2147483648) (hblk : ∀ call ∈ calls, BlockOk call.blk)
    (hr : hsReadIntoBuffer max calls buffer memused = some r)
    (comes : input ++ received calls <+: w ∨ w <+: input ++ received calls) (enough : w.length < fuel) (blk : NewBlock) :
    ∃ more parser' buffer', headTokens max blk fuel parser r.buffer = some (more, parser', buffer') ∧
      Comes w shapes max (input ++ received calls) (tokens ++ more) parser' buffer' := by
  obtain ⟨g, g', rest, coming, head, offset, live, rfl, run, last, spoken⟩ := h.goes
  obtain ⟨ok, app, sequence, -⟩ := hsReadIntoBuffer_spec max_ge max_lt hblk h.ok hr
  have room := hsReadIntoBuffer_room max_ge max_lt hblk h.ok hr
  have index := head.index_eq
  have length := h.length_eq
  have head' : HeadRest parser r.buffer g := head.of_appended app
  have fresh : parser.sequenceId ≠ r.buffer.sequenceId := by
    rw [h.seen, sequence]
    exact (wrap8_succ_ne _).symm
  have unread : unconsumed r.buffer = received calls := by
    rw [unconsumed_appended (by omega) (by omega) app, unconsumed, index, offset, length, sub_self]
    rfl
  rw [List.length_append] at enough
  rcases comes with part | whole
  · obtain ⟨later, rfl⟩ := (List.prefix_append_right_inj input).1 part
    rw [List.length_append] at enough
    obtain ⟨g₁, breaks, first⟩ : ∃ g₁ breaks, headRun (received calls) g = some (g₁, breaks) := by
      rw [headRun_append] at run
      cases hp : headRun (received calls) g with
      | none => rw [hp] at run; cases run
      | some r => exact ⟨r.1, r.2, rfl⟩
    obtain ⟨following, tail, eq⟩ := headRun_split run first
    obtain ⟨now, coming, rfl, rfl, rfl⟩ := List.map_eq_append_iff.1 eq.symm
    have next : isHead g₁.ph = true ∨ g₁.ph = .headersDone := by
      cases later with
      | nil =>
        obtain ⟨rfl, -⟩ := headRun_nil tail
        exact .inr last
      | cons c later => exact .inl (headRun_live tail)
    obtain ⟨more, parser', buffer', calls_eq, spec⟩ := headTokens_spec max blk ok head' live fresh
      (unread.trans (List.append_nil _).symm) (absurd rfl) first next (by omega : _ < fuel)
    refine ⟨more, parser', buffer', calls_eq, ?_⟩
    by_cases ended : g₁.ph = .headersDone
    · -- the read ends with the head
      obtain ⟨rfl, rfl, hnil⟩ := headRun_done ended tail
      rw [List.map_eq_nil_iff.1 hnil, List.append_nil] at spoken
      refine .inl ⟨by simp, ?_, ?_⟩
      · unfold hasHeadersDone
        rw [List.any_append]
        exact Bool.or_eq_true_iff.2 (.inr (spec.finished ended).1)
      · rw [List.map_append, spec.shapes_eq, spoken]
    · obtain ⟨plain, head₁, rfl, seen⟩ := spec.paused ended
      have consumed := headRun_offset first
      refine .inr ⟨bufferOk_index ok _, seen, ?_, room, ?_, g₁, g', later, coming, head₁, ?_, next.resolve_right ended,
        List.append_assoc _ _ _, tail, last, ?_⟩
      · rw [List.length_append, Nat.cast_add, ← length]
        exact app.length_eq
      · have before := h.plain
        unfold hasHeadersDone at before plain ⊢
        rw [List.any_append, before, plain]
        rfl
      · rw [List.length_append, Nat.cast_add, consumed, offset]
      · rw [List.map_append, spec.shapes_eq, List.append_assoc, spoken]
  · obtain ⟨left, eq⟩ := (List.prefix_append_right_inj input).1 whole
    obtain ⟨more, parser', buffer', calls_eq, spec⟩ := headTokens_spec max blk ok head' live fresh
      (unread.trans eq.symm) (fun _ => last) run (.inr last) (by omega : _ < fuel)
    refine ⟨more, parser', buffer', calls_eq, .inl ⟨whole, ?_, ?_⟩⟩
    · unfold hasHeadersDone
      rw [List.any_append]
      exact Bool.or_eq_true_iff.2 (.inr (spec.finished last).1)
    · rw [List.map_append, spec.shapes_eq, spoken]

/-- However a valid head is read, its tokens are returned when the last of its bytes was read. -/
theorem headFed_comes {head : RequestHead} (valid : head.Valid) (pos : 0 < initial) (le : initial ≤ max)
    (max_lt : max < 2147483648) (enough : head.bytes.length < fuel)
    (fed : HeadFed initial max fuel input tokens parser buffer) (comes : input <+: head.bytes ∨ head.bytes <+: input) :
    Comes head.bytes head.tokens max input tokens parser buffer := by
  induction fed with
  | init memused hblk =>
    obtain ⟨h', run, last⟩ := reads_head valid
    exact .inr (partly_init hblk pos le max_lt run last)
  | @read input _ _ _ _ _ _ calls _ _ _ _ going hblk hr hd ih =>
    have earlier : input <+: input ++ received calls := List.prefix_append _ _
    have before : input <+: head.bytes ∨ head.bytes <+: input := by
      rcases comes with part | whole
      · exact .inl (earlier.trans part)
      · exact List.prefix_or_prefix_of_prefix earlier whole
    rcases ih before with ⟨-, done, -⟩ | part
    · exact absurd (going.symm.trans done) (by decide)
    · obtain ⟨more, parser', buffer', eq, next⟩ := part.read (by omega) max_lt hblk hr comes enough _
      cases hd.symm.trans eq
      exact next

end Fed

end HttpServer.HeadReads
