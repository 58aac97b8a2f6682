import HttpServer.HeadRuns

set_option autoImplicit false

/-!
# What a head leaves in the parser

The state of the machine, `content_length` and the chunked flag are a fold over the bytes of the head. At
the end of the head they decide how the body is read.
-/
namespace HttpServer.HeadFields
open MachineInt Scanner ParserTables ParserGrammar HttpServer.Parser ReadBuffer ParserInvariant ParserRuns HeadMachine
  HeadGrammar HeadSoundness HeadRuns BodyPhases

/-- What the parser keeps of a head beside its tokens. -/
structure Fields where
  cs : ℕ
  contentLength : ℤ
  chunked : Bool

def Fields.step (f : Fields) (c : UInt8) : Fields where
  cs := transTarg f.cs c.toNat
  contentLength :=
    if .contentLengthDigit ∈ transActions f.cs c.toNat then
      wrap64 (wrap64 (f.contentLength * 10) + (c.toNat - 48))
    else f.contentLength
  chunked := f.chunked || decide (.transferEncoding ∈ transActions f.cs c.toNat)

def Fields.run (f : Fields) (w : List UInt8) : Fields := w.foldl Fields.step f

def Fields.start : Fields := ⟨hshHttpStart, 0, false⟩

theorem Fields.run_append (f : Fields) (as bs : List UInt8) : f.run (as ++ bs) = (f.run as).run bs :=
  List.foldl_append

/-- The flags of the token that ends a head. -/
def bodyMode (max ahi n : ℤ) (chunked : Bool) : BitVec 8 :=
  if chunked then httpFlagSet 0 hshTokFlagStreamedBody
  else if n = 0 then httpFlagSet 0 hshTokFlagNoBody
  else if n > wrap32 (max - ahi) then httpFlagSet 0 hshTokFlagStreamedBody
  else 0

section Bytes

variable {max : ℤ} {blk : NewBlock} {s t : Exec} {h : HeadScan} {f : Fields} {c : UInt8}

def chunkedFlag (parser : HshParserS) : Bool := httpFlagCheck parser.flags flagChunked

structure HasFields (s : Exec) (f : Fields) : Prop where
  cs_eq : s.cs = f.cs
  length_eq : s.parser.contentLength = f.contentLength
  chunked_eq : chunkedFlag s.parser = f.chunked

/-- The fields when the loop is left or goes on. -/
structure LeavesFields (max : ℤ) (f : Fields) (t : Exec) : Prop where
  length_eq : t.parser.contentLength = f.contentLength
  chunked_eq : chunkedFlag t.parser = f.chunked
  cs_eq : t.parser.token.type ≠ .headersDone → t.cs = f.cs
  mode : t.parser.token.type = .headersDone →
    t.parser.token.flags = bodyMode max t.buffer.afterHeadersIndex f.contentLength f.chunked

/-- Between two actions of a byte. -/
def MidFields (f : Fields) (t : Exec) : Prop := HasFields t f ∧ t.parser.token.type ≠ .headersDone

theorem MidFields.leaves (h : MidFields f t) : LeavesFields max f t :=
  ⟨h.1.length_eq, h.1.chunked_eq, fun _ => h.1.cs_eq, fun typed => absurd typed h.2⟩

theorem chunked_set_done (flags : BitVec 8) :
    httpFlagCheck (httpFlagSet flags flagDone) flagChunked = httpFlagCheck flags flagChunked := by
  revert flags
  decide

theorem chunked_set (flags : BitVec 8) : httpFlagCheck (httpFlagSet flags flagChunked) flagChunked = true := by
  revert flags
  decide

theorem doneHeaders_fields (h : MidFields f t) :
    (doneHeaders max blk t).Sat True (MidFields f) (LeavesFields max f) := by
  obtain ⟨⟨-, length, chunked⟩, -⟩ := h
  have length' : t.parser.contentLength = f.contentLength := length
  have kept : httpFlagCheck (httpFlagSet t.parser.flags flagTokenReady) flagChunked = f.chunked := by
    rw [chunked_set_tokenReady]
    exact chunked
  have mode : ∀ ahi, bodyMode max ahi f.contentLength f.chunked = bodyMode max ahi t.parser.contentLength
      (httpFlagCheck (httpFlagSet t.parser.flags flagTokenReady) flagChunked) := by
    intro ahi
    rw [kept, length']
  unfold doneHeaders
  dsimp only
  split
  · rename_i set
    have decided := (mode (wrap32 (t.p - t.buffer.buf + 1))).trans (if_pos set)
    exact ⟨length, kept, fun typed => absurd rfl typed, fun _ => decided.symm⟩
  rename_i clear
  split
  · rename_i zero
    have decided := (mode (wrap32 (t.p - t.buffer.buf + 1))).trans ((if_neg clear).trans (if_pos zero))
    exact ⟨length, kept, fun typed => absurd rfl typed, fun _ => decided.symm⟩
  rename_i pos
  split
  · rename_i large
    have decided := (mode (wrap32 (t.p - t.buffer.buf + 1))).trans
      ((if_neg clear).trans ((if_neg pos).trans (if_pos large)))
    exact ⟨length, kept, fun typed => absurd rfl typed, fun _ => decided.symm⟩
  · rename_i small
    have decided := (mode (wrap32 (t.p - t.buffer.buf + 1))).trans
      ((if_neg clear).trans ((if_neg pos).trans (if_neg small)))
    refine ⟨length, kept, fun typed => absurd rfl typed, fun _ => ?_⟩
    dsimp only
    split <;> exact decided.symm

theorem lineAct_fields {a : Action} (ha : a ∈ lineActions) (h : MidFields f t) :
    (runAction max blk c a t).Sat True (MidFields f) (LeavesFields max f) := by
  obtain ⟨fields, typed⟩ := id h
  obtain ⟨cs, length, chunked⟩ := fields
  have entered : ∀ {type : HshTokenE} {limit : ℤ}, type ≠ .headersDone → MidFields f (hshEnterToken type limit t) :=
    fun other => ⟨⟨cs, length, chunked⟩, other⟩
  simp only [lineActions, List.mem_cons, List.not_mem_nil, or_false] at ha
  rcases ha with rfl | rfl | rfl | rfl | rfl | rfl | rfl | rfl | rfl | rfl
  · exact entered (by decide)
  · exact entered (by decide)
  · exact entered (by decide)
  · exact entered (by decide)
  · exact entered (by decide)
  · exact ⟨⟨cs, length, chunked⟩, typed⟩
  · change (incCount t).Sat _ _ _
    unfold incCount
    dsimp only
    split
    · exact ⟨length, chunked, fun _ => cs, fun h => absurd h typed⟩
    · exact ⟨⟨cs, length, chunked⟩, typed⟩
  · refine ⟨length, ?_, fun _ => cs, fun h => absurd h typed⟩
    exact (chunked_set_tokenReady _).trans chunked
  · exact doneHeaders_fields h
  · exact ⟨length, chunked, fun _ => cs, fun h => absurd h typed⟩

theorem phaseStep_lines {ph : Phase} (live : isHead ph = true) (c : ℕ) : ∀ a ∈ (phaseStep ph c).2, a ∈ lineActions := by
  rcases phaseStep_head live c with herr | hdone | ⟨-, list⟩
  · rw [herr]
    decide
  · rw [hdone]
    decide
  · exact fun a ha => (list a ha).1

theorem lines_sides {as : List Action} (h : ∀ a ∈ as, a ∈ lineActions) :
    .contentLengthDigit ∉ as ∧ .transferEncoding ∉ as :=
  ⟨fun ha => absurd (h _ ha) (by decide), fun ha => absurd (h _ ha) (by decide)⟩

theorem step_fields (lt : s.cs < 98) (alive : s.cs ≠ hshHttpError) (live : isHead (phase s.cs) = true)
    (typed : s.parser.token.type ≠ .headersDone) (hf : HasFields s f) :
    ((machine max blk).step c s).Sat True (LeavesFields max (f.step c)) (LeavesFields max (f.step c)) := by
  have hc : c.toNat < 256 := c.toNat_lt
  have data : phase s.cs ≠ .bodyData := by
    intro hd
    rw [hd] at live
    cases live
  obtain ⟨-, pre, hpre, hacts⟩ := tables_agree lt hc alive data
  have lines := phaseStep_lines live c.toNat
  obtain ⟨noDigit, noChunked⟩ := lines_sides lines
  obtain ⟨cs, length, chunked⟩ := hf
  have acts : transActions f.cs c.toNat = pre ++ (phaseStep (phase s.cs) c.toNat).2 := cs ▸ hacts
  have targ : transTarg s.cs c.toNat = (f.step c).cs := congrArg (transTarg · c.toNat) cs
  -- the side action, if there is one
  have sides : ((machine max blk).runActs c pre { s with cs := transTarg s.cs c.toNat }).Sat True
      (MidFields (f.step c)) (LeavesFields max (f.step c)) := by
    rcases hpre with rfl | ⟨-, rfl | rfl⟩
    · refine ⟨⟨targ, ?_, ?_⟩, typed⟩
      · refine length.trans (if_neg ?_).symm
        rw [acts]
        exact noDigit
      · refine chunked.trans ?_
        simp [Fields.step, acts, noChunked]
    · refine ⟨⟨targ, ?_, ?_⟩, typed⟩
      · refine Eq.trans ?_ (if_pos ?_).symm
        · rw [← length]
          rfl
        · rw [acts]
          exact List.mem_cons_self
      · refine chunked.trans ?_
        simp [Fields.step, acts, noChunked]
    · refine ⟨⟨targ, ?_, ?_⟩, typed⟩
      · have none : .contentLengthDigit ∉ [Action.transferEncoding] ++ (phaseStep (phase s.cs) c.toNat).2 := by
          simpa using noDigit
        refine length.trans (if_neg ?_).symm
        rw [acts]
        exact none
      · refine (chunked_set _).trans ?_
        simp [Fields.step, acts]
  refine Machine.step_sat (P := MidFields (f.step c)) _ ?_ fun t ht => ?_
  · change ((machine max blk).runActs c (transActions s.cs c.toNat) { s with cs := transTarg s.cs c.toNat }).Sat _ _ _
    rw [hacts]
    refine Machine.runActs_append_sat (C := fun _ _ _ => True) _ (fun _ => sides) (fun t ht _ => ?_)
      (Machine.actsOk_true _ _ _ _)
    exact Machine.runActs_sat _ (C := fun _ _ _ => True) (fun a ha t ht _ => lineAct_fields (lines a ha) ht) ht
      (Machine.actsOk_true _ _ _ _)
  · change (if t.cs = hshHttpError then Flow.out t else .fall { t with p := t.p + 1 }).Sat _ _ _
    split
    · exact ht.leaves
    · exact (show MidFields (f.step c) { t with p := t.p + 1 } from ⟨⟨ht.1.cs_eq, ht.1.length_eq, ht.1.chunked_eq⟩, ht.2⟩).leaves

end Bytes

section Calls

variable {max : ℤ} {blk : NewBlock} {b buffer buffer' : HshBufferS} {q : ℤ} {s : Exec} {h : HeadScan} {f : Fields}
  {parser parser' : HshParserS} {token : HshTokenS}

/-- When the loop is left behind `n` bytes of a head. -/
structure ScannedFields (max : ℤ) (b : HshBufferS) (start : ℤ) (f : Fields) (n : ℕ) (t : Exec) : Prop where
  le : start + n ≤ b.length
  left : LeavesFields max (f.run (slice b.data start n)) t
  goes : t.parser.token.type ≠ .headersDone → t.buffer = b ∧ t.p = b.buf + (start + n)
  ended : t.parser.token.type = .headersDone → t.buffer.afterHeadersIndex = start + n ∧
    httpFlagCheck t.parser.flags flagTokenReady = true

variable (max blk) in
theorem scan_fields {m : ℤ} (hb : BufferOk true m b) (start : ℤ) (cs : List UInt8) (hcs : cs = bytesFrom b s.p)
    (hs : HeadSim b q s h) (silent : h.emitted = none) (inside : h.offset ≤ b.length) (live : isHead h.ph = true)
    (n : ℕ) (at_n : h.offset = start + n) (hf : HasFields s (f.run (slice b.data start n))) :
    ((machine max blk).scan cs s).elim True fun t => ∃ n, ScannedFields max b start f n t := by
  have held := hb.held rfl
  have nonneg := hs.index_nonneg
  have le := hs.index_le
  have sim_typed : ∀ {t : Exec} {g : HeadScan}, HeadSim b q t g → t.parser.token.type ≠ .headersDone := by
    intro t g sim typed
    have line := sim.typed
    rw [← sim.type_eq, typed] at line
    cases line
  induction cs generalizing s h n with
  | nil =>
    have past := bytesFrom_nil hcs.symm (by rw [hs.p_eq]; omega)
    have stop : s.p = s.pe := by
      rw [hs.p_eq] at past
      rw [hs.p_eq, hs.pe_eq]
      omega
    rw [Machine.scan_stop _ (by simpa [machine] using stop) _]
    exact ⟨n, by omega, MidFields.leaves ⟨hf, sim_typed hs⟩, fun _ => ⟨hs.buffer_eq, by rw [hs.p_eq, at_n]⟩,
      fun typed => absurd typed (sim_typed hs)⟩
  | cons c cs ih =>
    by_cases stop : s.p = s.pe
    · rw [Machine.scan_stop _ (by simpa [machine] using stop) _]
      exact ⟨n, by omega, MidFields.leaves ⟨hf, sim_typed hs⟩, fun _ => ⟨hs.buffer_eq, by rw [hs.p_eq, at_n]⟩,
        fun typed => absurd typed (sim_typed hs)⟩
    have inside' : h.offset < b.length := by
      rw [hs.p_eq, hs.pe_eq] at stop
      omega
    obtain ⟨-, -, hc, hrest⟩ := bytesFrom_cons hcs.symm
    rw [hs.p_eq, show b.buf + h.offset - b.buf = start + n by rw [at_n]; ring] at hc
    have rel := step_head max blk (c := c) hb.length_lt hs inside' live
    have pure := headStep_sat c live
    have live' : isHead (phase s.cs) = true := by
      rw [hs.phase_eq]
      exact live
    have alive : s.cs ≠ hshHttpError := by
      intro herr
      rw [herr] at live'
      cases live'
    have fields := @step_fields max blk s (f.run (slice b.data start n)) c hs.state_lt alive live' (sim_typed hs) hf
    have more : (f.run (slice b.data start n)).step c = f.run (slice b.data start (n + 1)) := by
      rw [slice_succ_right, Fields.run_append, ← hc]
      rfl
    rw [more] at fields
    rw [Machine.scan_cons _ (by simpa [machine] using stop)]
    cases hst : (machine max blk).step c s with
    | fault => trivial
    | fall u =>
      rw [hst] at fields
      cases ht : headMachine.step c h with
      | fault => rw [ht] at pure; exact pure.elim
      | out h' => rw [hst, ht] at rel; exact rel.elim
      | fall h' =>
        rw [hst, ht] at rel
        rw [ht] at pure
        obtain ⟨sim, silent'⟩ := rel
        obtain ⟨-, hoff, live''⟩ := pure
        have rest : cs = bytesFrom b u.p := by
          rw [hrest, hs.p_eq, sim.p_eq, hoff]
          congr 1
          ring
        have has : HasFields u (f.run (slice b.data start (n + 1))) :=
          ⟨fields.cs_eq (sim_typed sim), fields.length_eq, fields.chunked_eq⟩
        exact ih rest sim silent' (by omega) live'' (n + 1) (by push_cast; omega) has sim.index_nonneg sim.index_le
    | out u =>
      rw [hst] at fields
      cases ht : headMachine.step c h with
      | fault => rw [ht] at pure; exact pure.elim
      | fall h' => rw [hst, ht] at rel; exact rel.elim
      | out h' =>
        rw [hst, ht] at rel
        rw [ht] at pure
        have exit : HeadExit max blk b q u h' := rel
        obtain ⟨-, hoff⟩ := pure
        have goes : ∀ {t : Exec}, HeadSim b q t h' → t.buffer = b ∧ t.p = b.buf + (start + ↑(n + 1)) := by
          intro t sim
          refine ⟨sim.buffer_eq, ?_⟩
          rw [sim.p_eq, hoff, at_n]
          push_cast
          ring
        refine ⟨n + 1, by push_cast; omega, fields, fun typed => ?_, fun typed => ?_⟩
        · unfold HeadExit at exit
          cases emitted : h'.emitted with
          | none =>
            rw [emitted] at exit
            exact goes exit
          | some sh =>
            rw [emitted] at exit
            obtain ⟨-, hsh, -, line⟩ := exit
            by_cases done : h'.ph = .headersDone
            · have last := headStep_done live ht done emitted
              rw [last] at hsh
              exact absurd (congrArg Prod.fst hsh) typed
            · exact @goes (clearReady u) (line done)
        · unfold HeadExit at exit
          cases emitted : h'.emitted with
          | none =>
            rw [emitted] at exit
            exact absurd typed (sim_typed exit)
          | some sh =>
            rw [emitted] at exit
            obtain ⟨ready, -, ended, line⟩ := exit
            by_cases done : h'.ph = .headersDone
            · refine ⟨?_, ready⟩
              rw [(ended done).sized.ahi_eq, hoff, at_n]
              push_cast
              ring
            · exact absurd typed (@sim_typed (clearReady u) _ (line done))

/-- The fields after a call that took `n` bytes of a head. -/
structure TakenFields (max : ℤ) (buffer : HshBufferS) (f : Fields) (n : ℕ) (token : HshTokenS) (parser' : HshParserS)
    (buffer' : HshBufferS) : Prop where
  le : buffer.index + n ≤ buffer.length
  length_eq : parser'.contentLength = (f.run (slice buffer.data buffer.index n)).contentLength
  chunked_eq : chunkedFlag parser' = (f.run (slice buffer.data buffer.index n)).chunked
  goes : token.type ≠ .headersDone → parser'.state = (f.run (slice buffer.data buffer.index n)).cs ∧
    buffer'.index = buffer.index + n
  ended : token.type = .headersDone → buffer'.afterHeadersIndex = buffer.index + n ∧
    token.flags = bodyMode max buffer'.afterHeadersIndex parser'.contentLength (chunkedFlag parser')

theorem hshParserExec_fields {m : ℤ} (hb : BufferOk true m buffer) (hr : HeadRest parser buffer h)
    (live : isHead h.ph = true) (hf : HasFields (enter parser buffer) f)
    (hexec : hshParserExec max blk parser buffer = some (token, parser', buffer')) :
    ∃ n, TakenFields max buffer f n token parser' buffer' := by
  obtain ⟨sim, silent, inside⟩ := hr
  have index : buffer.index = h.offset := HeadRest.index_eq ⟨sim, silent, inside⟩
  have lt := hb.length_lt
  have nonneg := sim.index_nonneg.trans sim.index_le
  unfold hshParserExec at hexec
  split at hexec
  · cases hexec
    exact ⟨0, by simpa using index.trans_le inside, hf.length_eq, hf.chunked_eq, fun _ => ⟨hf.cs_eq, by simp⟩,
      fun typed => absurd typed (by decide)⟩
  obtain ⟨t, ht, heq⟩ := Option.map_eq_some_iff.1 hexec
  have alive : ¬ ((enter parser buffer).p ≠ (enter parser buffer).pe ∧ (enter parser buffer).cs = hshHttpError) := by
    rintro ⟨-, herr⟩
    have ph := sim.phase_eq
    rw [herr] at ph
    rw [← ph] at live
    cases live
  unfold writeExec at ht
  rw [if_neg alive] at ht
  have scanned := scan_fields max blk hb buffer.index (bytesFrom buffer (enter parser buffer).p) rfl sim silent inside
    live 0 (by simpa using index.symm) hf
  change (machine max blk).scan (bytesFrom buffer (enter parser buffer).p) (enter parser buffer) = some t at ht
  rw [ht] at scanned
  obtain ⟨n, le, left, goes, ended⟩ := scanned
  have stored : t.parser.token.type ≠ .headersDone → wrap32 (t.p - t.buffer.buf) = buffer.index + n := by
    intro typed
    obtain ⟨hbuf, hp⟩ := goes typed
    rw [hp, hbuf, show buffer.buf + (buffer.index + ↑n) - buffer.buf = buffer.index + n by ring]
    exact wrap32_eq (by omega) (by omega)
  rcases leave_cases t with ⟨ready, hl⟩ | ⟨quiet, hl⟩
  · rw [hl] at heq
    cases heq
    refine ⟨n, le, left.length_eq, ?_, fun typed => ⟨left.cs_eq typed, stored typed⟩, fun typed => ?_⟩
    · exact (chunked_clear_tokenReady _).trans left.chunked_eq
    · refine ⟨(ended typed).1, ?_⟩
      have chunked : chunkedFlag { t.parser with state := t.cs, flags := httpFlagClear t.parser.flags flagTokenReady } =
          (f.run (slice buffer.data buffer.index n)).chunked := (chunked_clear_tokenReady _).trans left.chunked_eq
      rw [chunked]
      exact (left.mode typed).trans (congrArg (bodyMode max _ · _) left.length_eq.symm)
  · rw [hl] at heq
    cases heq
    have typed : t.parser.token.type ≠ .headersDone := by
      intro typed
      exact absurd (quiet.symm.trans (ended typed).2) (by decide)
    exact ⟨n, le, left.length_eq, left.chunked_eq, fun _ => ⟨left.cs_eq typed, stored typed⟩,
      fun done => absurd done (by decide)⟩

end Calls

section Reached

variable {max : ℤ} {blk : NewBlock} {input : List UInt8} {tokens : List HshTokenS} {token : HshTokenS}
  {parser parser' : HshParserS} {buffer buffer' : HshBufferS}

/-- The bytes `w` of a head were read, and it goes on. -/
structure InHead (max : ℤ) (input : List UInt8) (tokens : List HshTokenS) (parser : HshParserS) (buffer : HshBufferS)
    (w : List UInt8) (h : HeadScan) : Prop where
  reached : HeadReached (fun _ _ => True) max input tokens parser buffer w h
  fields : HasFields (enter parser buffer) (Fields.start.run w)

/-- `token` ends the head `w`, and says how its body is read. -/
structure HeadEnd (max : ℤ) (input : List UInt8) (tokens : List HshTokenS) (token : HshTokenS) (parser : HshParserS)
    (buffer : HshBufferS) (w : List UInt8) : Prop where
  finished : HeadFinished (fun _ _ => True) max input tokens token parser buffer w
  length_eq : parser.contentLength = (Fields.start.run w).contentLength
  chunked_eq : chunkedFlag parser = (Fields.start.run w).chunked
  mode_eq : token.flags = bodyMode max buffer.afterHeadersIndex parser.contentLength (chunkedFlag parser)
  received : slice buffer.data 0 input.length = input

theorem inHead_init {initial memused : ℤ} (hblk : BlockOk blk) (nonneg : 0 ≤ initial) (le : initial ≤ max)
    (max_lt : max < 2147483648) :
    InHead max [] [] hshParserInit (hsBufferInit blk initial memused).1 [] {} :=
  ⟨headReached_init hblk nonneg le max_lt, rfl, rfl, show httpFlagCheck 0 flagChunked = false by decide⟩

theorem InHead.read {w : List UInt8} {h : HeadScan} {calls : List ReadCall} {memused : ℤ} {r : ReadReturn}
    (inHead : InHead max input tokens parser buffer w h) (max_ge : -2147483648 ≤ max) (max_lt : max < 2147483648)
    (hblk : ∀ call ∈ calls, BlockOk call.blk) (hr : hsReadIntoBuffer max calls buffer memused = some r) :
    InHead max (input ++ received calls) tokens parser r.buffer w h :=
  ⟨inHead.reached.read max_ge max_lt hblk hr, inHead.fields.cs_eq, inHead.fields.length_eq, inHead.fields.chunked_eq⟩

theorem taken_front {w w' left : List UInt8} {n : ℕ} (whole : w ++ unconsumed buffer = input) (start : w' ++ left = input)
    (length : (w'.length : ℤ) = w.length + n) (le : buffer.index + n ≤ buffer.length) :
    w' = w ++ slice buffer.data buffer.index n := by
  have split : unconsumed buffer = slice buffer.data buffer.index n ++
      slice buffer.data (buffer.index + n) ((buffer.length - buffer.index).toNat - n) := by
    rw [unconsumed, ← slice_add]
    congr 1
    omega
  rw [split, ← List.append_assoc] at whole
  refine (List.append_inj (start.trans whole.symm) ?_).1
  rw [List.length_append, slice_length]
  omega

theorem InHead.received {w : List UInt8} {h : HeadScan} (inHead : InHead max input tokens parser buffer w h) :
    slice buffer.data 0 input.length = input := by
  have index := inHead.reached.rest.index_eq
  have offset := inHead.reached.offset_eq
  have whole := inHead.reached.input_eq
  have total := congrArg List.length whole
  rw [List.length_append, unconsumed, slice_length] at total
  rw [← total, slice_add, inHead.reached.kept, zero_add, ← offset, ← index]
  exact whole

theorem hshParserExec_headData {h : HeadScan} (hb : BufferOk true max buffer) (hr : HeadRest parser buffer h)
    (live : isHead h.ph = true) (hblk : BlockOk blk) (max_lt : max < 2147483648)
    (hexec : hshParserExec max blk parser buffer = some (token, parser', buffer')) :
    ∀ i, 0 ≤ i → i < buffer.length → buffer'.data i = buffer.data i := by
  by_cases seen : parser.sequenceId = buffer.sequenceId
  · unfold hshParserExec at hexec
    rw [if_pos (.inr seen)] at hexec
    cases hexec
    exact fun _ _ _ => rfl
  obtain ⟨consumed, h₁, token₁, parser₁, buffer₁, heq, exec, -⟩ := hshParserExec_head max blk hb hr live seen
  rw [heq] at hexec
  cases hexec
  cases exec with
  | none => exact fun _ _ _ => rfl
  | token => exact fun _ _ _ => rfl
  | done rest first ph last finished mode sized =>
    have index := hr.index_eq
    have nonneg := hr.sim.index_nonneg.trans hr.sim.index_le
    have inside := hr.inside
    have length := congrArg List.length rest
    rw [unconsumed, slice_length, List.length_append] at length
    have offset := headRun_offset first
    exact (sized.ok hb hblk max_lt (by omega) (by omega)).2

theorem InHead.exec {w : List UInt8} {h : HeadScan} (inHead : InHead max input tokens parser buffer w h)
    (hblk : BlockOk blk) (max_lt : max < 2147483648)
    (hr : hshParserExec max blk parser buffer = some (token, parser', buffer')) :
    (∃ w' h', InHead max input (tokens ++ emitted token) parser' buffer' w' h' ∧
        (token = noneToken ∨ isLine token.type = true)) ∨
      (NoBody parser' ∧ phase parser'.state = .error ∧ token = noneToken) ∨
      ∃ w', HeadEnd max input tokens token parser' buffer' w' := by
  obtain ⟨n, le, length, chunked, goes, ended⟩ := hshParserExec_fields inHead.reached.ok inHead.reached.rest
    inHead.reached.live inHead.fields hr
  have index := inHead.reached.rest.index_eq
  have offset := inHead.reached.offset_eq
  rcases inHead.reached.exec hblk max_lt execOk_any hr with ⟨w', h', reached, typed⟩ | error | ⟨w', finished⟩
  · refine .inl ⟨w', h', ⟨reached, ?_⟩, typed⟩
    have other : token.type ≠ .headersDone := by
      rcases typed with rfl | line
      · decide
      · intro done
        rw [done] at line
        cases line
    obtain ⟨state, next⟩ := goes other
    have index' := reached.rest.index_eq
    have offset' := reached.offset_eq
    rw [taken_front inHead.reached.input_eq reached.input_eq (by omega) le, Fields.run_append]
    exact ⟨state, length, chunked⟩
  · exact .inr (.inl error)
  · obtain ⟨ahi, mode⟩ := ended (congrArg Prod.fst finished.last)
    obtain ⟨left, prefix_eq⟩ := finished.prefix_eq
    have ahi' := finished.ahi_eq
    have same := taken_front inHead.reached.input_eq prefix_eq (by omega) le
    have data := hshParserExec_headData inHead.reached.ok inHead.reached.rest inHead.reached.live hblk max_lt hr
    have length_eq := finished.length_eq
    have total := congrArg List.length inHead.reached.input_eq
    rw [List.length_append, unconsumed, slice_length] at total
    refine .inr (.inr ⟨w', finished, ?_, ?_, mode, ?_⟩)
    · rw [same, Fields.run_append]
      exact length
    · rw [same, Fields.run_append]
      exact chunked
    · exact (slice_congr fun i lo hi => data i lo (by omega)).trans inHead.received

end Reached

end HttpServer.HeadFields
