import HttpServer.BodyPhases

set_option autoImplicit false

/-!
# What a call of `hsh_parser_exec` leaves, whatever came before

Nothing is assumed of the bytes, of their cuts or of the lengths a client sends. Inside a chunk or a
small body the cursor may be anywhere; in a head and in a large body it is where it should be, and no
call ever returns `HSH_TOK_ERR`.
-/
namespace HttpServer.ParserCalls
open MachineInt Scanner ParserTables ParserGrammar HttpServer.Parser ReadBuffer ParserInvariant
  HeadMachine BodyPhases

/-- The phases of a head, and the one after a head without a body. -/
def inHead (ph : Phase) : Bool := isHead ph || ph = .headersDone

def inLarge : Phase → Bool
  | .large | .largeRest => true
  | _ => false

def inSmall : Phase → Bool
  | .small | .smallRest => true
  | _ => false

/-- The phases between and inside chunks, and the error. -/
def inChunks (ph : Phase) : Bool := isStream ph && !inLarge ph

/-- What the current token is in a phase. -/
def tokenFits (ph : Phase) (token : HshTokenS) : Prop :=
  match ph with
  | .data | .bodyData | .largeRest => token.type = .body ∧ token.flags = 0
  | .smallRest => token.type = .body
  | ph => inHead ph = true → token.type ≠ .body ∧ token.type ≠ .none ∧ token.type ≠ .err

/-- A token as a call returns it: a piece that ends a large body leaves the cursor before its bytes,
    and the machine at its end. -/
def TokenLeft (token : HshTokenS) (done : Bool) (room : Prop) : Prop :=
  token.type ≠ .none ∧ token.type ≠ .err ∧
    (token.type = .body → httpFlagCheck token.flags hshTokFlagSmallBody = false →
      httpFlagCheck token.flags hshTokFlagBodyFinal = true → done = true ∧ (token.len > 0 → room))

/-- The cursor is where its phase says. -/
structure CursorAt (ph : Phase) (cursor : ℤ) (b : HshBufferS) : Prop where
  inside : inHead ph = true ∨ inLarge ph = true → 0 ≤ cursor ∧ cursor ≤ b.length
  atBody : inLarge ph = true → cursor = b.afterHeadersIndex

structure CallInv (s : Exec) : Prop where
  state_lt : s.cs < 98
  tokenReady : httpFlagCheck s.parser.flags flagTokenReady = false
  done : httpFlagCheck s.parser.flags flagDone = false
  pe_eq : s.pe = s.buffer.buf + s.buffer.length
  length_ge : -2147483648 ≤ s.buffer.length
  length_lt : s.buffer.length < 2147483648
  capacity_lt : s.buffer.capacity < 2147483648
  buf_pos : 0 < s.buffer.buf
  place : CursorAt (phase s.cs) (cursor s) s.buffer
  fits : tokenFits (phase s.cs) s.parser.token

structure CallExit (s : Exec) : Prop where
  state_lt : s.cs < 98
  length_ge : -2147483648 ≤ s.buffer.length
  length_lt : s.buffer.length < 2147483648
  capacity_lt : s.buffer.capacity < 2147483648
  buf_pos : 0 < s.buffer.buf
  place : CursorAt (phase s.cs) (cursor s) s.buffer
  fits : httpFlagCheck s.parser.flags flagDone = false → tokenFits (phase s.cs) s.parser.token
  left : httpFlagCheck s.parser.flags flagTokenReady = true →
    TokenLeft s.parser.token (httpFlagCheck s.parser.flags flagDone)
      (0 ≤ cursor s ∧ cursor s < s.buffer.length)

section Steps

variable {max : ℤ} {blk : NewBlock} {s t : Exec} {c : UInt8} {ph : Phase}

theorem CallInv.exit (h : CallInv s) : CallExit s :=
  ⟨h.state_lt, h.length_ge, h.length_lt, h.capacity_lt, h.buf_pos, h.place, fun _ => h.fits,
    fun ready => absurd (h.tokenReady.symm.trans ready) (by decide)⟩

theorem cursorAt_free {cursor : ℤ} {b : HshBufferS} (head : inHead ph = false) (large : inLarge ph = false) :
    CursorAt ph cursor b :=
  ⟨fun h => by simp [head, large] at h, fun h => by simp [large] at h⟩

/-- A byte of the current phase, before its actions and between them. -/
structure CallMid (s t : Exec) : Prop where
  buffer_eq : t.buffer = s.buffer
  p_eq : t.p = s.p
  pe_eq : t.pe = s.pe
  cs_eq : t.cs = s.cs
  tokenReady : httpFlagCheck t.parser.flags flagTokenReady = false
  done : httpFlagCheck t.parser.flags flagDone = false

theorem CallInv.lt_length (h : CallInv s) (running : s.p ≠ s.pe)
    (bound : inHead (phase s.cs) = true ∨ inLarge (phase s.cs) = true) :
    0 ≤ cursor s ∧ cursor s < s.buffer.length := by
  obtain ⟨lo, hi⟩ := h.place.inside bound
  refine ⟨lo, lt_of_le_of_ne hi ?_⟩
  intro heq
  apply running
  rw [h.pe_eq]
  unfold cursor at heq
  omega

theorem tokenFits_free {token : HshTokenS} (head : inHead ph = false) (data : ph ≠ .data ∧ ph ≠ .bodyData)
    (small : ph ≠ .smallRest) (large : ph ≠ .largeRest) : tokenFits ph token := by
  unfold tokenFits
  split
  · exact absurd rfl data.1
  · exact absurd rfl data.2
  · exact absurd rfl large
  · exact absurd rfl small
  · intro h
    rw [head] at h
    cases h

theorem tokenFits_head {token : HshTokenS} (head : inHead ph = true) :
    tokenFits ph token ↔ token.type ≠ .body ∧ token.type ≠ .none ∧ token.type ≠ .err := by
  cases ph <;> first | (simp [inHead, isHead] at head; done) | simp [tokenFits, inHead, isHead]

/-- The actions of a head and what they leave of the token. -/
def headLine : List Action :=
  [.method, .target, .version, .headerKey, .headerValue, .contentLengthDigit, .transferEncoding,
    .resetCount, .incCount, .emitToken, .error]

theorem phaseStep_inHead {ph : Phase} (head : inHead ph = true) (c : ℕ) :
    (phaseStep ph c).1 = .error ∧ (phaseStep ph c).2 = [.error] ∨
      phaseStep ph c = (.headersDone, [.incCount, .doneHeaders]) ∨
      inHead (phaseStep ph c).1 = true ∧ ∀ a ∈ (phaseStep ph c).2, a ∈ headLine := by
  cases ph <;> simp only [inHead, isHead, Bool.false_or, Bool.true_or, decide_eq_true_eq, reduceCtorEq] at head <;>
    simp only [phaseStep, keyStep, phaseError, headLine] <;> (repeat' split) <;> simp [inHead, isHead]

def HeadToken (t : Exec) : Prop :=
  t.parser.token.type ≠ .body ∧ t.parser.token.type ≠ .none ∧ t.parser.token.type ≠ .err

theorem headLine_sat {a : Action} (ha : a ∈ headLine) (hm : CallMid s t) (ht : HeadToken t) :
    ((machine max blk).act a c t).Sat True (fun u => CallMid s u ∧ HeadToken u)
      (fun u => u.buffer = s.buffer ∧ u.p = s.p + 1 ∧ u.cs = s.cs ∧ HeadToken u) := by
  obtain ⟨hb, hp, hpe, hcs, hr, hd⟩ := hm
  simp only [headLine, List.mem_cons, List.not_mem_nil, or_false] at ha
  have typed : ∀ (type : HshTokenE) (limit : ℤ), type ≠ .body ∧ type ≠ .none ∧ type ≠ .err →
      CallMid s (hshEnterToken type limit t) ∧ HeadToken (hshEnterToken type limit t) :=
    fun type limit h => ⟨⟨hb, hp, hpe, hcs, hr, hd⟩, h⟩
  have leaves : ∀ u : Exec, u.buffer = t.buffer → u.p = t.p → u.cs = t.cs → HeadToken u →
      (fbreak u).Sat True (fun u => CallMid s u ∧ HeadToken u)
        (fun u => u.buffer = s.buffer ∧ u.p = s.p + 1 ∧ u.cs = s.cs ∧ HeadToken u) :=
    fun u hub hup hucs hut => ⟨hub.trans hb, by rw [← hp, ← hup], hucs.trans hcs, hut⟩
  rcases ha with rfl | rfl | rfl | rfl | rfl | rfl | rfl | rfl | rfl | rfl | rfl
  · exact typed .method 32 (by decide)
  · exact typed .target 1024 (by decide)
  · exact typed .version 16 (by decide)
  · exact typed .headerKey 256 (by decide)
  · exact typed .headerValue 4096 (by decide)
  · exact ⟨⟨hb, hp, hpe, hcs, hr, hd⟩, ht⟩
  · exact ⟨⟨hb, hp, hpe, hcs, (tokenReady_set_chunked _).trans hr, (done_set_chunked _).trans hd⟩, ht⟩
  · exact ⟨⟨hb, hp, hpe, hcs, hr, hd⟩, ht⟩
  · change (incCount t).Sat _ _ _
    unfold incCount
    dsimp only
    split
    · exact leaves _ rfl rfl rfl ht
    · exact ⟨⟨hb, hp, hpe, hcs, hr, hd⟩, ht⟩
  · exact leaves _ rfl rfl rfl ht
  · exact leaves _ rfl rfl rfl ht

/-- The phases that ask nothing of the cursor and the token. -/
def isFree (ph : Phase) : Bool :=
  !inHead ph && !inLarge ph && ph ≠ .data && ph ≠ .bodyData && ph ≠ .smallRest

theorem CallExit.of_free (cs : ℕ) (hcs : t.cs = cs) (lt : cs < 98) (free : isFree (phase cs) = true)
    (length_ge : -2147483648 ≤ t.buffer.length) (length_lt : t.buffer.length < 2147483648)
    (capacity_lt : t.buffer.capacity < 2147483648) (buf_pos : 0 < t.buffer.buf)
    (left : httpFlagCheck t.parser.flags flagTokenReady = true →
      TokenLeft t.parser.token (httpFlagCheck t.parser.flags flagDone)
        (0 ≤ cursor t ∧ cursor t < t.buffer.length)) :
    CallExit t := by
  simp only [isFree, Bool.and_eq_true, Bool.not_eq_true', decide_eq_true_eq, ne_eq] at free
  obtain ⟨⟨⟨⟨head, large⟩, data⟩, bodyData⟩, smallRest⟩ := free
  have notRest : phase cs ≠ .largeRest := by
    intro h
    rw [h] at large
    cases large
  rw [← hcs] at lt head large data bodyData smallRest notRest
  exact ⟨lt, length_ge, length_lt, capacity_lt, buf_pos, cursorAt_free head large,
    fun _ => tokenFits_free head ⟨data, bodyData⟩ smallRest notRest, left⟩

theorem doneHeaders_exit (max : ℤ) (h : CallInv s) (hm : CallMid { s with cs := transTarg s.cs c.toNat } t)
    (lo : 0 ≤ cursor s) (lt : cursor s < s.buffer.length) (hblk : BlockOk blk)
    (done : phase t.cs = .headersDone) :
    (doneHeaders max blk t).Sat True (fun _ => False) CallExit := by
  obtain ⟨hb, hp, -, hcs, -, -⟩ := hm
  have length_lt := h.length_lt
  have cur : t.p - t.buffer.buf = cursor s := by rw [hp, hb]; rfl
  have ahi : wrap32 (t.p - t.buffer.buf + 1) = cursor s + 1 := by
    rw [cur]
    exact wrap32_eq (by omega) (by omega)
  have next : t.p + 1 - t.buffer.buf = cursor s + 1 := by omega
  have hlen : t.buffer.length = s.buffer.length := by rw [hb]
  have hcap : t.buffer.capacity = s.buffer.capacity := by rw [hb]
  have hbuf : t.buffer.buf = s.buffer.buf := by rw [hb]
  have left : ∀ (flags : BitVec 8) (d : Bool) (room : Prop), TokenLeft
      { type := .headersDone, flags := flags } d room :=
    fun flags d room => ⟨by simp, by simp, fun h => by simp at h⟩
  have ge := h.length_ge
  have cap := h.capacity_lt
  have pos := h.buf_pos
  have inside : 0 ≤ cursor s + 1 ∧ cursor s + 1 ≤ s.buffer.length := by omega
  unfold doneHeaders
  dsimp only
  split
  · -- a chunked body
    exact .of_free hshHttpEnChunkedBody rfl (by decide) (by decide) (ge.trans_eq hlen.symm)
      (hlen.trans_lt length_lt) (hcap.trans_lt cap) (pos.trans_eq hbuf.symm) fun _ => left _ _ _
  split
  · -- no body
    refine ⟨by change t.cs < 98; rw [hcs]; exact transTarg_lt _ _, ge.trans_eq hlen.symm,
      hlen.trans_lt length_lt, hcap.trans_lt cap, pos.trans_eq hbuf.symm, ?_, ?_, fun _ => left _ _ _⟩
    · refine ⟨fun _ => ?_, fun hl => ?_⟩
      · change 0 ≤ t.p + 1 - t.buffer.buf ∧ t.p + 1 - t.buffer.buf ≤ t.buffer.length
        rw [next, hlen]
        exact inside
      · change inLarge (phase t.cs) = true at hl
        rw [done] at hl
        cases hl
    · intro _
      change tokenFits (phase t.cs) _
      rw [done]
      intro _
      have typed : HshTokenE.headersDone ≠ .body ∧ HshTokenE.headersDone ≠ .none ∧
          HshTokenE.headersDone ≠ .err := by decide
      exact typed
  split
  · -- a large body
    refine ⟨show hshHttpEnLargeBody < 98 by decide, ge.trans_eq hlen.symm, hlen.trans_lt length_lt,
      hcap.trans_lt cap, pos.trans_eq hbuf.symm, ⟨fun _ => ?_, fun _ => ?_⟩,
      fun _ => show tokenFits (phase hshHttpEnLargeBody) _ from nofun,
      fun _ => left _ _ _⟩
    · change 0 ≤ t.p + 1 - t.buffer.buf ∧ t.p + 1 - t.buffer.buf ≤ t.buffer.length
      rw [next, hlen]
      exact inside
    · change t.p + 1 - t.buffer.buf = wrap32 (t.p - t.buffer.buf + 1)
      rw [next, ahi]
  · -- a small body, possibly in a new block
    split
    · exact .of_free hshHttpEnSmallBody rfl (by decide) (by decide) (ge.trans_eq hlen.symm)
        (hlen.trans_lt length_lt) (wrap32_bounds _).2 hblk.1 fun _ => left _ _ _
    · exact .of_free hshHttpEnSmallBody rfl (by decide) (by decide) (ge.trans_eq hlen.symm)
        (hlen.trans_lt length_lt) (hcap.trans_lt cap) (pos.trans_eq hbuf.symm) fun _ => left _ _ _

theorem again_cases (u : Exec) : (machine max blk).again u = .out u ∧ u.cs = hshHttpError ∨
    (machine max blk).again u = .fall { u with p := u.p + 1 } := by
  change (if u.cs = hshHttpError then Flow.out u else .fall { u with p := u.p + 1 }) = _ ∧ _ ∨ _
  by_cases err : u.cs = hshHttpError
  · exact .inl ⟨if_pos err, err⟩
  · exact .inr (if_neg err)

theorem phase_error_free : isFree .error = true := by decide

theorem head_step (h : CallInv s) (running : s.p ≠ s.pe) (alive : s.cs ≠ hshHttpError)
    (head : inHead (phase s.cs) = true) (hblk : BlockOk blk) :
    ((machine max blk).step c s).Sat True CallInv CallExit := by
  have hc : c.toNat < 256 := c.toNat_lt
  have data : phase s.cs ≠ .bodyData := by
    intro hd
    rw [hd] at head
    cases head
  obtain ⟨htarg, pre, hpre, hacts⟩ := tables_agree h.state_lt hc alive data
  obtain ⟨lo, lt⟩ := h.lt_length running (.inl head)
  have token : HeadToken s := (tokenFits_head head).1 h.fits
  have lt98 := transTarg_lt s.cs c.toNat
  have start : CallMid { s with cs := transTarg s.cs c.toNat } { s with cs := transTarg s.cs c.toNat } :=
    ⟨rfl, rfl, rfl, rfl, h.tokenReady, h.done⟩
  have sides : ∀ a ∈ pre, a ∈ headLine := by
    rcases hpre with rfl | ⟨-, rfl | rfl⟩ <;> decide
  -- what a head action leaves when it leaves the loop
  have exits : ∀ u : Exec, (inHead (phase (transTarg s.cs c.toNat)) = true ∨
        phase (transTarg s.cs c.toNat) = .error) → u.buffer = s.buffer → u.p = s.p + 1 →
      u.cs = transTarg s.cs c.toNat → HeadToken u → CallExit u := by
    intro u hph hb hp hcs ht
    have cur : cursor u = cursor s + 1 := by
      unfold cursor
      rw [hp, hb]
      ring
    have left : httpFlagCheck u.parser.flags flagTokenReady = true →
        TokenLeft u.parser.token (httpFlagCheck u.parser.flags flagDone)
          (0 ≤ cursor u ∧ cursor u < u.buffer.length) :=
      fun _ => ⟨ht.2.1, ht.2.2, fun hbody => absurd hbody ht.1⟩
    rcases hph with hph | hph
    · refine ⟨hcs ▸ lt98, by rw [hb]; exact h.length_ge, by rw [hb]; exact h.length_lt,
        by rw [hb]; exact h.capacity_lt, by rw [hb]; exact h.buf_pos, ⟨fun _ => ?_, fun hl => ?_⟩, fun _ => ?_, left⟩
      · rw [cur, hb]
        omega
      · rw [hcs] at hl
        cases hph' : phase (transTarg s.cs c.toNat) <;> rw [hph'] at hl hph <;> cases hl <;> cases hph
      · rw [hcs]
        exact (tokenFits_head hph).2 ht
    · exact .of_free (transTarg s.cs c.toNat) hcs lt98 (by rw [hph]; exact phase_error_free)
        (by rw [hb]; exact h.length_ge) (by rw [hb]; exact h.length_lt) (by rw [hb]; exact h.capacity_lt)
        (by rw [hb]; exact h.buf_pos) left
  have lines : ∀ as : List Action, (∀ a ∈ as, a ∈ headLine) → ∀ u,
      CallMid { s with cs := transTarg s.cs c.toNat } u ∧ HeadToken u →
      ((machine max blk).runActs c as u).Sat True
        (fun u => CallMid { s with cs := transTarg s.cs c.toNat } u ∧ HeadToken u)
        (fun u => u.buffer = s.buffer ∧ u.p = s.p + 1 ∧ u.cs = transTarg s.cs c.toNat ∧ HeadToken u) :=
    fun as has u hu => Machine.runActs_sat _ (C := fun _ _ _ => True)
      (fun a ha t ht _ => headLine_sat (has a ha) ht.1 ht.2) hu (Machine.actsOk_true _ _ _ _)
  have again : ∀ u, (inHead (phase (transTarg s.cs c.toNat)) = true ∨
        phase (transTarg s.cs c.toNat) = .error) →
      CallMid { s with cs := transTarg s.cs c.toNat } u ∧ HeadToken u →
      ((machine max blk).again u).Sat True CallInv CallExit := by
    rintro u hph ⟨⟨hb, hp, hpe, hcs, hr, hd⟩, ht⟩
    rcases again_cases u with ⟨heq, err⟩ | heq
    · rw [heq]
      have ph : phase u.cs = .error := by rw [err]; rfl
      exact .of_free u.cs rfl (hcs ▸ lt98) (by rw [ph]; exact phase_error_free) (by rw [hb]; exact h.length_ge)
        (by rw [hb]; exact h.length_lt) (by rw [hb]; exact h.capacity_lt) (by rw [hb]; exact h.buf_pos)
        fun ready => absurd (hr.symm.trans ready) (by decide)
    · rw [heq]
      have exit := exits { u with p := u.p + 1 } hph hb (by rw [← hp]) hcs ht
      exact ⟨exit.state_lt, hr, hd, by rw [hpe, hb]; exact h.pe_eq, exit.length_ge, exit.length_lt,
        exit.capacity_lt, exit.buf_pos, exit.place, exit.fits hd⟩
  rcases phaseStep_inHead head c.toNat with ⟨hph, list⟩ | done | ⟨hph, list⟩
  · rw [← htarg] at hph
    refine Machine.step_sat _ ?_ (again · (.inr hph))
    change ((machine max blk).runActs c (transActions s.cs c.toNat) _).Sat _ _ _
    rw [hacts, list]
    exact (lines _ (by
      intro a ha
      rcases List.mem_append.1 ha with ha | ha
      · exact sides a ha
      · rw [List.mem_singleton.1 ha]
        decide) _ ⟨start, token⟩).mono (fun _ h => h) (fun u hu => exits u (.inr hph) hu.1 hu.2.1 hu.2.2.1 hu.2.2.2)
  · rw [done] at htarg hacts
    have hph : inHead (phase (transTarg s.cs c.toNat)) = true := by rw [htarg]; rfl
    refine Machine.step_sat (P := fun _ => False) _ ?_ fun _ hf => hf.elim
    change ((machine max blk).runActs c (transActions s.cs c.toNat) _).Sat _ _ _
    rw [hacts, show pre ++ [Action.incCount, .doneHeaders] = (pre ++ [.incCount]) ++ [.doneHeaders] by simp]
    refine Machine.runActs_append_sat (C := fun _ _ _ => True) _ (fun _ => ?_) (fun u hu _ => ?_)
      (Machine.actsOk_true _ _ _ _)
      (P := fun u => CallMid { s with cs := transTarg s.cs c.toNat } u ∧ HeadToken u)
    · exact (lines _ (by
        intro a ha
        rcases List.mem_append.1 ha with ha | ha
        · exact sides a ha
        · rw [List.mem_singleton.1 ha]
          decide) _ ⟨start, token⟩).mono (fun _ h => h) (fun u hu => exits u (.inl hph) hu.1 hu.2.1 hu.2.2.1 hu.2.2.2)
    · have sat := doneHeaders_exit max h hu.1 lo lt hblk (by rw [hu.1.cs_eq]; exact htarg)
      exact Machine.runActs_cons_sat (C := fun _ _ _ => True) (P := fun _ => False) _ (fun _ => sat)
        (fun _ hf _ => hf.elim) (Machine.actsOk_true _ _ _ _)
  · rw [← htarg] at hph
    refine Machine.step_sat _ ?_ (again · (.inl hph))
    change ((machine max blk).runActs c (transActions s.cs c.toNat) _).Sat _ _ _
    rw [hacts]
    exact (lines _ (by
      intro a ha
      rcases List.mem_append.1 ha with ha | ha
      · exact sides a ha
      · exact list a ha) _ ⟨start, token⟩).mono (fun _ h => h)
        (fun u hu => exits u (.inl hph) hu.1 hu.2.1 hu.2.2.1 hu.2.2.2)

/-- The token inside a piece of a streamed body. -/
def PieceToken (t : Exec) : Prop := t.parser.token.type = .body ∧ t.parser.token.flags = 0

theorem phaseStep_inChunks {ph : Phase} (chunks : inChunks ph = true) (data : ph ≠ .bodyData) (c : ℕ) :
    inChunks (phaseStep ph c).1 = true ∧
      (isFree (phaseStep ph c).1 = true ∧
          (∀ a ∈ (phaseStep ph c).2, a ∈ [Action.chunkStart, .chunkSize, .endStream, .error]) ∨
        ∃ as, ((phaseStep ph c).2 = .body :: as ∨ inPiece ph = true ∧ (phaseStep ph c).2 = as) ∧
          ∀ a ∈ as, a ∈ dataActions) := by
  cases ph <;> simp only [inChunks, isStream, inLarge, Bool.false_and, Bool.true_and, Bool.not_false,
    Bool.not_true, Bool.false_eq_true, ne_eq, not_true] at chunks data <;>
    simp only [phaseStep, phaseError, dataActions] <;> (repeat' split) <;>
    simp [isStream, inPiece, inChunks, inLarge, isFree, inHead, isHead]

theorem inChunks_place {cursor : ℤ} {b : HshBufferS} (chunks : inChunks ph = true) :
    CursorAt ph cursor b := by
  refine cursorAt_free ?_ ?_ <;> cases ph <;> first | rfl | cases chunks

theorem inChunks_fits {token : HshTokenS} (chunks : inChunks ph = true)
    (piece : inPiece ph = true → token.type = .body ∧ token.flags = 0) : tokenFits ph token := by
  cases ph <;> first | (cases chunks; done) | exact piece rfl | nofun

theorem CallMid.exit_chunks {u : Exec} (h : CallInv s) (cs : ℕ) (hcs : u.cs = cs) (lt : cs < 98)
    (chunks : inChunks (phase cs) = true) (buf_eq : u.buffer.buf = s.buffer.buf)
    (capacity_eq : u.buffer.capacity = s.buffer.capacity)
    (length : -2147483648 ≤ u.buffer.length ∧ u.buffer.length < 2147483648)
    (piece : httpFlagCheck u.parser.flags flagDone = false → inPiece (phase cs) = true → PieceToken u)
    (left : httpFlagCheck u.parser.flags flagTokenReady = true →
      TokenLeft u.parser.token (httpFlagCheck u.parser.flags flagDone)
          (0 ≤ cursor u ∧ cursor u < u.buffer.length)) :
    CallExit u := by
  refine ⟨hcs ▸ lt, length.1, length.2, by rw [capacity_eq]; exact h.capacity_lt,
    by rw [buf_eq]; exact h.buf_pos, ?_, fun running => ?_, left⟩
  · rw [hcs]
    exact inChunks_place chunks
  · rw [hcs]
    exact inChunks_fits chunks (piece running)

theorem pieceToken_left {u : Exec} (piece : PieceToken u) (d : Bool) (room : Prop) :
    TokenLeft u.parser.token d room := by
  refine ⟨by rw [piece.1]; decide, by rw [piece.1]; decide, fun _ _ final => ?_⟩
  rw [piece.2] at final
  exact absurd final (by decide)

theorem endStream_exit (h : CallInv s) (hm : CallMid s t) (chunks : inChunks (phase s.cs) = true) :
    (endStream t).Sat True (fun _ => False) CallExit := by
  have length : t.buffer.length = s.buffer.length := by rw [hm.buffer_eq]
  exact CallMid.exit_chunks h s.cs hm.cs_eq h.state_lt chunks (by rw [← hm.buffer_eq]; rfl)
    (by rw [← hm.buffer_eq]; rfl) ⟨h.length_ge.trans_eq length.symm, length.trans_lt h.length_lt⟩
    (fun running => absurd ((done_set _).symm.trans running) (by decide))
    fun _ => ⟨(by decide : HshTokenE.body ≠ .none), (by decide : HshTokenE.body ≠ .err),
      fun _ _ _ => ⟨done_set _, fun len => absurd len (lt_irrefl 0)⟩⟩

theorem between_act {a : Action} (ha : a ∈ [Action.chunkStart, .chunkSize, .endStream, .error])
    (h : CallInv s) (hm : CallMid { s with cs := transTarg s.cs c.toNat } t)
    (chunks : inChunks (phase (transTarg s.cs c.toNat)) = true)
    (free : isFree (phase (transTarg s.cs c.toNat)) = true) :
    ((machine max blk).act a c t).Sat True (CallMid { s with cs := transTarg s.cs c.toNat }) CallExit := by
  obtain ⟨hb, hp, hpe, hcs, hr, hd⟩ := hm
  simp only [List.mem_cons, List.not_mem_nil, or_false] at ha
  rcases ha with rfl | rfl | rfl | rfl
  · exact ⟨hb, hp, hpe, hcs, hr, hd⟩
  · change CallMid _ (chunkSize c t)
    obtain ⟨n, hn⟩ := chunkSize_cases c t
    rw [hn]
    exact ⟨hb, hp, hpe, hcs, hr, hd⟩
  · have sat := endStream_exit (s := { s with cs := transTarg s.cs c.toNat }) (t := t)
      ⟨transTarg_lt _ _, h.tokenReady, h.done, h.pe_eq, h.length_ge, h.length_lt, h.capacity_lt, h.buf_pos,
        inChunks_place chunks, ?_⟩ ⟨hb, hp, hpe, hcs, hr, hd⟩ chunks
    · exact sat.mono (fun _ hf => hf.elim) fun _ hq => hq
    · exact inChunks_fits chunks fun piece => by
        cases hph : phase (transTarg s.cs c.toNat) <;> rw [hph] at free piece <;>
          first | (cases piece; done) | cases free
  · change CallExit { t with p := t.p + 1 }
    exact .of_free (transTarg s.cs c.toNat) hcs (transTarg_lt _ _) free (by rw [hb]; exact h.length_ge)
      (by rw [hb]; exact h.length_lt) (by rw [hb]; exact h.capacity_lt) (by rw [hb]; exact h.buf_pos)
      fun ready => absurd (hr.symm.trans ready) (by decide)

/-- Inside a piece, between two actions of a byte. -/
def PieceMid (s t : Exec) : Prop := CallMid s t ∧ PieceToken t

theorem chunkRead_sat (h : CallInv s) (hm : PieceMid { s with cs := transTarg s.cs c.toNat } t)
    (chunks : inChunks (phase (transTarg s.cs c.toNat)) = true) :
    (chunkRead max t).Sat True (PieceMid { s with cs := transTarg s.cs c.toNat }) CallExit := by
  obtain ⟨⟨hb, hp, hpe, hcs, hr, hd⟩, token⟩ := hm
  have length : t.buffer.length = s.buffer.length := by rw [hb]
  have bounds : -2147483648 ≤ t.buffer.length ∧ t.buffer.length < 2147483648 :=
    ⟨h.length_ge.trans_eq length.symm, length.trans_lt h.length_lt⟩
  unfold chunkRead
  dsimp only
  split
  · refine CallMid.exit_chunks h hshHttpEnChunkEnd rfl (by decide) (by decide) (by rw [← hb]; rfl)
      (by rw [← hb]; rfl) bounds (fun _ piece => absurd piece (by decide)) fun _ => ?_
    exact pieceToken_left (u := t.setToken { t.parser.token with len := wrap32 t.parser.contentLength }) token _ _
  split
  · split
    · trivial
    · rename_i b hcopy
      obtain ⟨buf_eq, capacity_eq⟩ : b.buf = t.buffer.buf ∧ b.capacity = t.buffer.capacity := by
        unfold HshBufferS.memcpy at hcopy
        split at hcopy
        · cases hcopy
          exact ⟨rfl, rfl⟩
        · cases hcopy
      exact CallMid.exit_chunks h (transTarg s.cs c.toNat) hcs (transTarg_lt _ _) chunks
        (buf_eq.trans (by rw [hb])) (capacity_eq.trans (by rw [hb])) (wrap32_bounds _) (fun _ _ => token)
        fun ready => absurd (hr.symm.trans ready) (by decide)
  · exact ⟨⟨hb, hp, hpe, hcs, hr, hd⟩, token⟩

theorem within_act {a : Action} (ha : a ∈ dataActions) (h : CallInv s)
    (hm : PieceMid { s with cs := transTarg s.cs c.toNat } t)
    (chunks : inChunks (phase (transTarg s.cs c.toNat)) = true) :
    ((machine max blk).act a c t).Sat True (PieceMid { s with cs := transTarg s.cs c.toNat }) CallExit := by
  have full := hm
  obtain ⟨⟨hb, hp, hpe, hcs, hr, hd⟩, token⟩ := hm
  simp only [dataActions, List.mem_cons, List.not_mem_nil, or_false] at ha
  rcases ha with rfl | rfl | rfl | rfl | rfl
  · exact ⟨⟨hb, hp, hpe, hcs, hr, hd⟩, rfl, rfl⟩
  · exact ⟨⟨hb, hp, hpe, hcs, hr, hd⟩, token⟩
  · change PieceMid _ (chunkSize c t)
    obtain ⟨n, hn⟩ := chunkSize_cases c t
    rw [hn]
    exact ⟨⟨hb, hp, hpe, hcs, hr, hd⟩, token⟩
  · exact chunkRead_sat h full chunks
  · have sat := endStream_exit (s := { s with cs := transTarg s.cs c.toNat, parser := t.parser }) (t := t)
      ⟨transTarg_lt _ _, hr, hd, h.pe_eq, h.length_ge, h.length_lt, h.capacity_lt, h.buf_pos,
        inChunks_place chunks, inChunks_fits chunks fun _ => token⟩ ⟨hb, hp, hpe, hcs, hr, hd⟩ chunks
    exact sat.mono (fun _ hf => hf.elim) fun _ hq => hq

theorem chunks_step (h : CallInv s) (alive : s.cs ≠ hshHttpError) (chunks : inChunks (phase s.cs) = true) :
    ((machine max blk).step c s).Sat True CallInv CallExit := by
  have hc : c.toNat < 256 := c.toNat_lt
  have lt := transTarg_lt s.cs c.toNat
  have start : CallMid { s with cs := transTarg s.cs c.toNat } { s with cs := transTarg s.cs c.toNat } :=
    ⟨rfl, rfl, rfl, rfl, h.tokenReady, h.done⟩
  -- going on after a byte
  have again : ∀ u, inChunks (phase (transTarg s.cs c.toNat)) = true →
      CallMid { s with cs := transTarg s.cs c.toNat } u →
      (inPiece (phase (transTarg s.cs c.toNat)) = true → PieceToken u) →
      ((machine max blk).again u).Sat True CallInv CallExit := by
    rintro u hph ⟨hb, hp, hpe, hcs, hr, hd⟩ piece
    have inv : CallInv { u with p := u.p + 1 } :=
      ⟨hcs ▸ lt, hr, hd, by rw [hpe, hb]; exact h.pe_eq, by rw [hb]; exact h.length_ge,
        by rw [hb]; exact h.length_lt, by rw [hb]; exact h.capacity_lt, by rw [hb]; exact h.buf_pos,
        by rw [hcs]; exact inChunks_place hph, by rw [hcs]; exact inChunks_fits hph piece⟩
    rcases again_cases u with ⟨heq, -⟩ | heq
    · rw [heq]
      exact CallInv.exit ⟨inv.state_lt, hr, hd, inv.pe_eq, inv.length_ge, inv.length_lt, inv.capacity_lt,
        inv.buf_pos, by rw [hcs]; exact inChunks_place hph, inv.fits⟩
    · rw [heq]
      exact inv
  have within : ∀ as : List Action, (∀ a ∈ as, a ∈ dataActions) →
      inChunks (phase (transTarg s.cs c.toNat)) = true → ∀ u,
      PieceMid { s with cs := transTarg s.cs c.toNat } u →
      ((machine max blk).runActs c as u).Sat True (PieceMid { s with cs := transTarg s.cs c.toNat }) CallExit :=
    fun as has hph u hu => Machine.runActs_sat _ (C := fun _ _ _ => True)
      (fun a ha t ht _ => within_act (has a ha) h ht hph) hu (Machine.actsOk_true _ _ _ _)
  by_cases data : phase s.cs = .bodyData
  · obtain ⟨htarg, hacts⟩ := bodyData_agree h.state_lt hc data
    have token : PieceToken s := by
      have fits := h.fits
      rw [data] at fits
      exact fits
    have hph : inChunks (phase (transTarg s.cs c.toNat)) = true := by rw [htarg]; rfl
    refine Machine.step_sat (P := PieceMid { s with cs := transTarg s.cs c.toNat }) _ ?_
      fun u hu => again u hph hu.1 fun _ => hu.2
    exact within _ (bodyDataActions_data _ hacts) hph _ ⟨start, token⟩
  obtain ⟨htarg, -⟩ := tables_agree h.state_lt hc alive data
  have hacts := tables_agree_exact h.state_lt hc alive data (by
    constructor <;> intro hv <;> rw [hv] at chunks <;> cases chunks)
  obtain ⟨hph, list⟩ := phaseStep_inChunks chunks data c.toNat
  rw [← htarg] at hph list
  rw [← hacts] at list
  rcases list with ⟨free, plain⟩ | ⟨as, first, has⟩
  · refine Machine.step_sat (P := CallMid { s with cs := transTarg s.cs c.toNat }) _ ?_
      fun u hu => again u hph hu fun piece => by
        cases hp : phase (transTarg s.cs c.toNat) <;> rw [hp] at free piece <;>
          first | (cases piece; done) | cases free
    exact Machine.runActs_sat _ (C := fun _ _ _ => True)
      (fun a ha t ht _ => between_act (plain a ha) h ht hph free) start (Machine.actsOk_true _ _ _ _)
  · refine Machine.step_sat (P := PieceMid { s with cs := transTarg s.cs c.toNat }) _ ?_
      fun u hu => again u hph hu.1 fun _ => hu.2
    change ((machine max blk).runActs c (transActions s.cs c.toNat) _).Sat _ _ _
    rcases first with first | ⟨piece, first⟩
    · rw [first, Machine.runActs_fall _ (t := body { s with cs := transTarg s.cs c.toNat }) rfl]
      exact within as has hph _ ⟨⟨rfl, rfl, rfl, rfl, h.tokenReady, h.done⟩, rfl, rfl⟩
    · have token : PieceToken s := by
        have fits := h.fits
        cases hp : phase s.cs <;> rw [hp] at piece fits chunks <;>
          first | (cases piece; done) | (cases chunks; done) | exact fits
      rw [first]
      exact within as has hph _ ⟨start, token⟩

theorem small_set (f : BitVec 8) : httpFlagCheck (httpFlagSet f hshTokFlagSmallBody) hshTokFlagSmallBody = true := by
  revert f
  decide

theorem smallBodyRead_exit (h : CallInv s) (hb : t.buffer = s.buffer) (lt : t.cs < 98)
    (rest : phase t.cs = .smallRest) (typed : t.parser.token.type = .body)
    (quiet : httpFlagCheck t.parser.flags flagTokenReady = false) :
    (smallBodyRead t).Sat True (fun _ => False) CallExit := by
  have length : t.buffer.length = s.buffer.length := by rw [hb]
  have place : ∀ cursor, CursorAt (phase t.cs) cursor t.buffer := fun _ =>
    cursorAt_free (by rw [rest]; rfl) (by rw [rest]; rfl)
  have fits : ∀ token : HshTokenS, token.type = .body → tokenFits (phase t.cs) token := by
    intro token h
    rw [rest]
    exact h
  have ge := h.length_ge.trans_eq length.symm
  have lt' := length.trans_lt h.length_lt
  have cap : t.buffer.capacity < 2147483648 := by rw [hb]; exact h.capacity_lt
  have pos : 0 < t.buffer.buf := by rw [hb]; exact h.buf_pos
  unfold smallBodyRead
  dsimp only
  split
  · refine ⟨lt, ge, lt', cap, pos, place _, fun _ => fits _ typed, fun _ => ⟨?_, ?_, fun _ small => ?_⟩⟩
    · exact (by rw [show _ = HshTokenE.body from typed]; decide : t.parser.token.type ≠ .none)
    · exact (by rw [show _ = HshTokenE.body from typed]; decide : t.parser.token.type ≠ .err)
    · exact absurd ((small_set _).symm.trans small) (by decide)
  · exact ⟨lt, ge, lt', cap, pos, place _, fun _ => fits _ typed,
      fun ready => absurd (quiet.symm.trans ready) (by decide)⟩

theorem largeBodyRead_exit (h : CallInv s) (hb : t.buffer = s.buffer) (hp : t.p = s.p) (lt : t.cs < 98)
    (rest : phase t.cs = .largeRest) (token : PieceToken t) (inside : 0 ≤ cursor s ∧ cursor s < s.buffer.length)
    (at_body : cursor s = s.buffer.afterHeadersIndex) :
    (largeBodyRead t).Sat True (fun _ => False) CallExit := by
  have length : t.buffer.length = s.buffer.length := by rw [hb]
  have ahi : t.buffer.afterHeadersIndex = cursor s := by rw [hb, at_body]
  have cap : t.buffer.capacity < 2147483648 := by rw [hb]; exact h.capacity_lt
  have pos : 0 < t.buffer.buf := by rw [hb]; exact h.buf_pos
  have bound := h.length_lt
  have typed : t.parser.token.type ≠ .none ∧ t.parser.token.type ≠ .err := by
    rw [token.1]
    decide
  have cur : t.p - 1 + 1 - t.buffer.buf = cursor s := by
    rw [hp, hb]
    unfold cursor
    ring
  unfold largeBodyRead
  dsimp only
  split
  · refine ⟨lt, h.length_ge.trans_eq length.symm, length.trans_lt h.length_lt, cap, pos,
      ⟨fun _ => ?_, fun _ => ?_⟩, fun running => ?_, fun _ => ⟨typed.1, typed.2, fun _ _ _ => ⟨done_set _, fun _ => ?_⟩⟩⟩
    · change 0 ≤ t.p - 1 + 1 - t.buffer.buf ∧ t.p - 1 + 1 - t.buffer.buf ≤ t.buffer.length
      omega
    · exact cur.trans ahi.symm
    · exact absurd ((done_set _).symm.trans running) (by decide)
    · change 0 ≤ t.p - 1 + 1 - t.buffer.buf ∧ t.p - 1 + 1 - t.buffer.buf < t.buffer.length
      omega
  · have place : t.buffer.buf + t.buffer.afterHeadersIndex - 1 + 1 - t.buffer.buf = cursor s := by omega
    refine ⟨lt, ?_, ?_, cap, pos, ⟨fun _ => ?_, fun _ => ?_⟩, fun _ => ?_, fun _ => ⟨typed.1, typed.2, fun _ _ final => ?_⟩⟩
    · change -2147483648 ≤ t.buffer.afterHeadersIndex
      omega
    · change t.buffer.afterHeadersIndex < 2147483648
      omega
    · change 0 ≤ t.buffer.buf + t.buffer.afterHeadersIndex - 1 + 1 - t.buffer.buf ∧
        t.buffer.buf + t.buffer.afterHeadersIndex - 1 + 1 - t.buffer.buf ≤ t.buffer.afterHeadersIndex
      omega
    · exact place.trans ahi.symm
    · change tokenFits (phase t.cs) _
      rw [rest]
      exact token
    · change httpFlagCheck t.parser.token.flags hshTokFlagBodyFinal = true at final
      rw [token.2] at final
      exact absurd final (by decide)

theorem body_step (h : CallInv s) (running : s.p ≠ s.pe) (alive : s.cs ≠ hshHttpError)
    (bound : inSmall (phase s.cs) = true ∨ inLarge (phase s.cs) = true) :
    ((machine max blk).step c s).Sat True CallInv CallExit := by
  have hc : c.toNat < 256 := c.toNat_lt
  have lt := transTarg_lt s.cs c.toNat
  have plain : phase s.cs ≠ .bodyData ∧ phase s.cs ≠ .ows ∧ phase s.cs ≠ .value := by
    cases hp : phase s.cs <;> rw [hp] at bound <;> first | decide | (rcases bound with h | h <;> cases h)
  obtain ⟨htarg, -⟩ := tables_agree h.state_lt hc alive plain.1
  have hacts := tables_agree_exact h.state_lt hc alive plain.1 plain.2
  refine Machine.step_sat (P := fun _ => False) _ ?_ fun _ hf => hf.elim
  change ((machine max blk).runActs c (transActions s.cs c.toNat)
    { s with cs := transTarg s.cs c.toNat }).Sat _ _ _
  have small : ∀ t : Exec, t.buffer = s.buffer → t.cs = transTarg s.cs c.toNat →
      phase (transTarg s.cs c.toNat) = .smallRest → t.parser.token.type = .body →
      httpFlagCheck t.parser.flags flagTokenReady = false →
      ((machine max blk).runActs c [.smallBodyRead] t).Sat True (fun _ => False) CallExit := by
    intro t hb hcs rest typed quiet
    have sat := smallBodyRead_exit h hb (hcs ▸ lt) (hcs ▸ rest) typed quiet
    exact Machine.runActs_cons_sat (C := fun _ _ _ => True) (P := fun _ => False) _ (fun _ => sat)
      (fun _ hf _ => hf.elim) (Machine.actsOk_true _ _ _ _)
  have large : ∀ t : Exec, t.buffer = s.buffer → t.p = s.p → t.cs = transTarg s.cs c.toNat →
      phase (transTarg s.cs c.toNat) = .largeRest → PieceToken t → inLarge (phase s.cs) = true →
      ((machine max blk).runActs c [.largeBodyRead] t).Sat True (fun _ => False) CallExit := by
    intro t hb hp hcs rest token hl
    have sat := largeBodyRead_exit h hb hp (hcs ▸ lt) (hcs ▸ rest) token
      (h.lt_length running (.inr hl)) (h.place.atBody hl)
    exact Machine.runActs_cons_sat (C := fun _ _ _ => True) (P := fun _ => False) _ (fun _ => sat)
      (fun _ hf _ => hf.elim) (Machine.actsOk_true _ _ _ _)
  have fits := h.fits
  cases hp : phase s.cs <;> rw [hp] at bound fits htarg hacts <;>
    first | (rcases bound with h | h <;> cases h; done) | rw [hacts]
  · change ((machine max blk).runActs c [.body, .smallBodyRead] _).Sat _ _ _
    rw [Machine.runActs_fall _ (t := body { s with cs := transTarg s.cs c.toNat }) rfl]
    exact small _ rfl rfl htarg rfl h.tokenReady
  · exact small _ rfl rfl htarg fits h.tokenReady
  · change ((machine max blk).runActs c [.body, .largeBodyRead] _).Sat _ _ _
    rw [Machine.runActs_fall _ (t := body { s with cs := transTarg s.cs c.toNat }) rfl]
    exact large _ rfl rfl rfl htarg ⟨rfl, rfl⟩ (by rw [hp]; rfl)
  · exact large _ rfl rfl rfl htarg fits (by rw [hp]; rfl)

theorem call_step (h : CallInv s) (running : s.p ≠ s.pe) (alive : s.cs ≠ hshHttpError)
    (hblk : BlockOk blk) : ((machine max blk).step c s).Sat True CallInv CallExit := by
  by_cases head : inHead (phase s.cs) = true
  · exact head_step h running alive head hblk
  by_cases chunks : inChunks (phase s.cs) = true
  · exact chunks_step h alive chunks
  refine body_step h running alive ?_
  cases hp : phase s.cs <;> rw [hp] at head chunks <;> first | exact .inl rfl | exact .inr rfl | skip
  all_goals first | exact absurd rfl head | exact absurd rfl chunks

end Steps

section Calls

variable {max : ℤ} {blk : NewBlock} {parser parser' : HshParserS} {buffer buffer' : HshBufferS}
  {token : HshTokenS}

structure CallRest (parser : HshParserS) (buffer : HshBufferS) : Prop where
  exit : CallExit (enter parser buffer)
  tokenReady : httpFlagCheck parser.flags flagTokenReady = false

theorem CallRest.inv (h : CallRest parser buffer) (running : httpFlagCheck parser.flags flagDone = false) :
    CallInv (enter parser buffer) :=
  ⟨h.exit.state_lt, h.tokenReady, running, rfl, h.exit.length_ge, h.exit.length_lt, h.exit.capacity_lt,
    h.exit.buf_pos, h.exit.place, h.exit.fits running⟩

theorem CallExit.rest {t : Exec} (exit : CallExit t) {flags : BitVec 8} {q : ℤ}
    (done : httpFlagCheck flags flagDone = httpFlagCheck t.parser.flags flagDone)
    (quiet : httpFlagCheck flags flagTokenReady = false) :
    CallRest { t.parser with state := t.cs, flags := flags, sequenceId := q }
      { t.buffer with index := wrap32 (t.p - t.buffer.buf) } := by
  have lt := exit.length_lt
  have cur : cursor (enter { t.parser with state := t.cs, flags := flags, sequenceId := q }
      { t.buffer with index := wrap32 (t.p - t.buffer.buf) }) = wrap32 (t.p - t.buffer.buf) := cursor_enter
  have same : inHead (phase t.cs) = true ∨ inLarge (phase t.cs) = true →
      wrap32 (t.p - t.buffer.buf) = cursor t := by
    intro bound
    obtain ⟨lo, hi⟩ := exit.place.inside bound
    unfold cursor at lo hi ⊢
    exact wrap32_eq (by omega) (by omega)
  refine ⟨⟨exit.state_lt, exit.length_ge, lt, exit.capacity_lt, exit.buf_pos, ⟨fun bound => ?_, fun large => ?_⟩,
    fun running => exit.fits (done ▸ running), fun ready => absurd (quiet.symm.trans ready) (by decide)⟩, quiet⟩
  · rw [cur, same bound]
    exact exit.place.inside bound
  · rw [cur, same (.inr large)]
    exact exit.place.atBody large

/-- Whatever the bytes are, a call keeps this and returns a token as it should be, or none. -/
theorem hshParserExec_call (h : CallRest parser buffer) (hblk : BlockOk blk)
    (hr : hshParserExec max blk parser buffer = some (token, parser', buffer')) :
    CallRest parser' buffer' ∧ (token = noneToken ∨ httpFlagCheck parser.flags flagDone = false ∧
      TokenLeft token (httpFlagCheck parser'.flags flagDone)
        (0 ≤ buffer'.index ∧ buffer'.index < buffer'.length)) := by
  by_cases finished : httpFlagCheck parser.flags flagDone = true
  · unfold hshParserExec at hr
    rw [if_pos (.inl finished)] at hr
    cases hr
    exact ⟨h, .inl rfl⟩
  have running := eq_false_of_ne_true finished
  rcases hshParserExec_sat (I := CallInv) (Q := CallExit) (h.inv running) (fun _ hs => hs.exit)
    (fun _ _ hs moving alive _ => call_step hs moving alive hblk) execOk_any hr with heq | ⟨t, exit, heq⟩
  · obtain ⟨rfl, rfl, rfl⟩ : token = noneToken ∧ parser' = parser ∧ buffer' = buffer := by
      simpa using heq
    exact ⟨h, .inl rfl⟩
  rcases leave_cases t with ⟨ready, hl⟩ | ⟨quiet, hl⟩
  · rw [hl] at heq
    cases heq
    have left := exit.left ready
    refine ⟨exit.rest (done_clear_tokenReady _) (tokenReady_clear _), .inr ⟨running, left.1, left.2.1, ?_⟩⟩
    intro body small final
    obtain ⟨done, room⟩ := left.2.2 body small final
    refine ⟨(done_clear_tokenReady _).trans done, fun len => ?_⟩
    obtain ⟨lo, hi⟩ := room len
    have lt := exit.length_lt
    unfold cursor at lo hi
    have index : wrap32 (t.p - t.buffer.buf) = t.p - t.buffer.buf := wrap32_eq (by omega) (by omega)
    dsimp only
    rw [index]
    exact ⟨lo, hi⟩
  · rw [hl] at heq
    cases heq
    exact ⟨exit.rest rfl quiet, .inl rfl⟩

theorem callRest_init {blk : NewBlock} (hblk : BlockOk blk) {initial memused : ℤ}
    (lt : initial < 2147483648) : CallRest hshParserInit (hsBufferInit blk initial memused).1 := by
  refine ⟨⟨show hshHttpStart < 98 by decide, by norm_num [hsBufferInit, enter], by norm_num [hsBufferInit, enter],
    lt, hblk.1, ?_, ?_, ?_⟩, by decide⟩
  · rw [cursor_enter]
    exact ⟨fun _ => ⟨le_refl 0, le_refl 0⟩, fun _ => rfl⟩
  · intro _
    change tokenFits (phase hshHttpStart) {}
    exact (tokenFits_head (by decide)).2 (by decide)
  · intro ready
    change httpFlagCheck 0 flagTokenReady = true at ready
    exact absurd ready (by decide)

theorem runAction_block (a : Action) (c : UInt8) (s : Exec) :
    (runAction max blk c a s).Sat True
      (fun t => t.buffer.buf = s.buffer.buf ∧ t.buffer.capacity = s.buffer.capacity)
      (fun t => t.buffer.buf = s.buffer.buf ∧ t.buffer.capacity = s.buffer.capacity ∨
        a = .doneHeaders ∧ Resizes max s ∧ t.buffer.buf = blk.addr) := by
  cases a with
  | chunkSize =>
    obtain ⟨n, hn⟩ := chunkSize_cases c s
    change (Flow.fall (chunkSize c s)).Sat _ _ _
    rw [hn]
    exact ⟨rfl, rfl⟩
  | incCount =>
    change (incCount s).Sat _ _ _
    unfold incCount
    dsimp only
    split
    · exact .inl ⟨rfl, rfl⟩
    · exact ⟨rfl, rfl⟩
  | doneHeaders =>
    change (doneHeaders max blk s).Sat _ _ _
    unfold doneHeaders
    dsimp only
    split
    · exact .inl ⟨rfl, rfl⟩
    rename_i chunked
    split
    · exact .inl ⟨rfl, rfl⟩
    rename_i body
    split
    · exact .inl ⟨rfl, rfl⟩
    rename_i small
    split
    · rename_i beyond
      refine .inr ⟨rfl, ⟨?_, body, not_lt.1 small, beyond⟩, rfl⟩
      exact eq_false_of_ne_true fun h => chunked ((chunked_set_tokenReady _).trans h)
    · exact .inl ⟨rfl, rfl⟩
  | chunkRead =>
    change (chunkRead max s).Sat _ _ _
    unfold chunkRead
    dsimp only
    split
    · exact .inl ⟨rfl, rfl⟩
    split
    · split
      · trivial
      · rename_i b hb
        rw [memcpy_fields hb]
        exact .inl ⟨rfl, rfl⟩
    · exact ⟨rfl, rfl⟩
  | smallBodyRead =>
    change (smallBodyRead s).Sat _ _ _
    unfold smallBodyRead
    dsimp only
    split <;> exact .inl ⟨rfl, rfl⟩
  | largeBodyRead =>
    change (largeBodyRead s).Sat _ _ _
    unfold largeBodyRead
    dsimp only
    split <;> exact .inl ⟨rfl, rfl⟩
  | emitToken => exact .inl ⟨rfl, rfl⟩
  | endStream => exact .inl ⟨rfl, rfl⟩
  | error => exact .inl ⟨rfl, rfl⟩
  | _ => exact ⟨rfl, rfl⟩

structure SameBlock (b : HshBufferS) (s : Exec) : Prop where
  buf_eq : s.buffer.buf = b.buf
  capacity_eq : s.buffer.capacity = b.capacity

theorem hshParserExec_block {r : HshTokenS × HshParserS × HshBufferS}
    (ok : ExecOk (fun _ _ => True) (fun a _ s => a = .doneHeaders → ¬ Resizes max s) max blk parser buffer)
    (hr : hshParserExec max blk parser buffer = some r) :
    r.2.2.buf = buffer.buf ∧ r.2.2.capacity = buffer.capacity := by
  have act : ∀ a c s, SameBlock buffer s → (a = .doneHeaders → ¬ Resizes max s) →
      (runAction max blk c a s).Sat True (SameBlock buffer) (SameBlock buffer) := by
    intro a c s hs keeps
    refine (runAction_block a c s).mono
      (fun t ht => ⟨ht.1.trans hs.buf_eq, ht.2.trans hs.capacity_eq⟩) fun t ht => ?_
    rcases ht with ht | ⟨ha, resizes, -⟩
    · exact ⟨ht.1.trans hs.buf_eq, ht.2.trans hs.capacity_eq⟩
    · exact absurd resizes (keeps ha)
  rcases hshParserExec_acts (I := SameBlock buffer) ⟨rfl, rfl⟩ (fun _ _ _ h => ⟨h.1, h.2⟩) act ok hr with rfl | ⟨t, ht, rfl⟩
  · exact ⟨rfl, rfl⟩
  · rcases leave_cases t with ⟨-, hl⟩ | ⟨-, hl⟩ <;> rw [hl] <;> exact ⟨ht.buf_eq, ht.capacity_eq⟩

def HasBlock (s : Exec) : Prop := s.buffer.buf ≠ 0

theorem hshParserExec_buf {r : HshTokenS × HshParserS × HshBufferS} (hblk : BlockOk blk)
    (hr : hshParserExec max blk parser buffer = some r) (block : buffer.buf ≠ 0) : r.2.2.buf ≠ 0 := by
  have act : ∀ a c s, HasBlock s → True → (runAction max blk c a s).Sat True HasBlock HasBlock := by
    intro a c s hs _
    refine (runAction_block a c s).mono (fun t ht => ?_) fun t ht => ?_
    · exact ht.1.trans_ne hs
    rcases ht with ht | ⟨-, -, ht⟩
    · exact ht.1.trans_ne hs
    · exact ht.trans_ne hblk.1.ne'
  rcases hshParserExec_acts (I := HasBlock) block (fun _ _ _ h => h) act execOk_any hr with rfl | ⟨t, ht, rfl⟩
  · exact block
  · rcases leave_cases t with ⟨-, hl⟩ | ⟨-, hl⟩ <;> rw [hl] <;> exact ht

theorem CallRest.read {calls : List ReadCall} {memused : ℤ} {r : ReadReturn} (h : CallRest parser buffer)
    (max_ge : -2147483648 ≤ max) (max_lt : max < 2147483648) (hblk : ∀ call ∈ calls, BlockOk call.blk)
    (hr : hsReadIntoBuffer max calls buffer memused = some r) :
    CallRest parser r.buffer ∧ Filled buffer memused r.buffer r.serverMemused := by
  have exit := h.exit
  have filled := hsReadIntoBuffer_filled max_ge max_lt hblk exit.buf_pos exit.capacity_lt exit.length_ge
    exit.length_lt hr
  have length := filled.length_le
  have ge : -2147483648 ≤ buffer.length := exit.length_ge
  have place := exit.place
  rw [cursor_enter] at place
  refine ⟨⟨⟨exit.state_lt, ge.trans length, filled.length_lt, filled.capacity_lt, filled.buf_pos, ?_, exit.fits,
    fun ready => absurd (h.tokenReady.symm.trans ready) (by decide)⟩, h.tokenReady⟩, filled⟩
  rw [cursor_enter, filled.index_eq]
  refine ⟨fun bound => ?_, fun large => ?_⟩
  · obtain ⟨lo, hi⟩ := place.inside bound
    exact ⟨lo, hi.trans length⟩
  · rw [show (enter parser r.buffer).buffer.afterHeadersIndex = buffer.afterHeadersIndex from filled.ahi_eq]
    exact place.atBody large

end Calls

end HttpServer.ParserCalls
