import HttpServer.ParserGrammar
import HttpServer.ReadBuffer

set_option autoImplicit false

/-!
# What every call of `hsh_parser_exec` keeps

The bounds of the cursor, of the current token and of the buffer. They hold as long as every
action of a scan meets `ActionOk`, which names the states in which an action goes wrong. With
`strict` the cursor stays in the current block and every byte examined was received; without
it the block may move while the cursor stays behind, as the resize for a small body lets it.
-/
namespace HttpServer.ParserInvariant
open MachineInt Scanner ParserTables ParserGrammar HttpServer.Parser ReadBuffer

/-- The address of the last byte of a body of length `n` that starts at offset `index`. -/
def lastBodyByte (s : Exec) (index n : ℤ) : ℤ := addr64 (s.buffer.buf + index + n - 1)

/-- The body is complete only if all of it was read and its length is one. -/
def BodyFits (s : Exec) (index n : ℤ) : Prop :=
  lastBodyByte s index n ≤ s.pe → 0 ≤ n ∧ lastBodyByte s index n ≠ s.pe

/-- `done_headers` gives the buffer a new block. -/
def Resizes (max : ℤ) (s : Exec) : Prop :=
  let ahi := wrap32 (s.p - s.buffer.buf + 1)
  let n := s.parser.contentLength
  httpFlagCheck s.parser.flags flagChunked = false ∧ n ≠ 0 ∧ n ≤ wrap32 (max - ahi) ∧
    s.buffer.capacity < wrap64 (n + ahi)

/-- `chunk_read` moves the rest of the buffer to just after the headers. -/
def Compacts (max : ℤ) (s : Exec) : Prop :=
  s.pe < lastBodyByte s s.parser.token.index s.parser.contentLength ∧
    max < wrap64 (s.p - s.buffer.buf + s.parser.contentLength)

/-- The two regions of that move are disjoint. -/
def MoveFits (s : Exec) : Prop :=
  s.buffer.afterHeadersIndex + (s.pe - s.p) ≤ s.p - s.buffer.buf

/-- A complete chunk ends at or after the cursor. -/
def EndsAhead (s : Exec) : Prop :=
  lastBodyByte s s.parser.token.index s.parser.contentLength ≤ s.pe →
    s.p ≤ lastBodyByte s s.parser.token.index s.parser.contentLength + 1

instance (s : Exec) (index n : ℤ) : Decidable (BodyFits s index n) :=
  inferInstanceAs (Decidable (_ → _))
instance (max : ℤ) (s : Exec) : Decidable (Resizes max s) :=
  inferInstanceAs (Decidable (_ ∧ _))
instance (max : ℤ) (s : Exec) : Decidable (Compacts max s) :=
  inferInstanceAs (Decidable (_ ∧ _))
instance (s : Exec) : Decidable (MoveFits s) := inferInstanceAs (Decidable (_ ≤ _))
instance (s : Exec) : Decidable (EndsAhead s) := inferInstanceAs (Decidable (_ → _))

/-- A body that an action ends was received and has its true length. -/
def BodyOk (a : Action) (s : Exec) : Prop :=
  match a with
  | .smallBodyRead => BodyFits s s.buffer.afterHeadersIndex s.parser.contentLength
  | .largeBodyRead => BodyFits s s.buffer.afterHeadersIndex s.parser.contentRemaining
  | _ => True

/-- The same for a chunk, whose end is also the place of the cursor. -/
def ChunkOk (a : Action) (s : Exec) : Prop :=
  match a with
  | .chunkRead => BodyFits s s.parser.token.index s.parser.contentLength
  | _ => True

/-- The cursor stays in the block, and no byte under it is lost or read again. -/
def PlaceOk (max : ℤ) (blk : NewBlock) (a : Action) (s : Exec) : Prop :=
  match a with
  | .chunkRead => EndsAhead s ∧ (Compacts max s → MoveFits s)
  | .doneHeaders => Resizes max s → blk.addr = s.buffer.buf
  | _ => True

/-- The condition on the state in which an action starts. -/
def ActionOk (tokens strict : Bool) (max : ℤ) (blk : NewBlock) (a : Action) (s : Exec) : Prop :=
  ChunkOk a s ∧ (strict = true → PlaceOk max blk a s) ∧ (tokens = true → BodyOk a s)

instance (a : Action) (s : Exec) : Decidable (BodyOk a s) := by
  cases a <;> unfold BodyOk <;> infer_instance
instance (a : Action) (s : Exec) : Decidable (ChunkOk a s) := by
  cases a <;> unfold ChunkOk <;> infer_instance
instance (max : ℤ) (blk : NewBlock) (a : Action) (s : Exec) : Decidable (PlaceOk max blk a s) := by
  cases a <;> unfold PlaceOk <;> infer_instance
instance (tokens strict : Bool) (max : ℤ) (blk : NewBlock) (a : Action) (s : Exec) :
    Decidable (ActionOk tokens strict max blk a s) :=
  inferInstanceAs (Decidable (_ ∧ (_ → _) ∧ (_ → _)))

/-- The offset of the cursor from the start of the current block. -/
def cursor (s : Exec) : ℤ := s.p - s.buffer.buf

/-- The received bytes from the cursor on. -/
def unread (s : Exec) : List UInt8 :=
  slice s.buffer.data (cursor s) (s.buffer.length - cursor s).toNat

structure CursorOk (s : Exec) : Prop where
  ahi_le : s.buffer.afterHeadersIndex ≤ cursor s
  le_length : cursor s ≤ s.buffer.length
  token_nonneg : 0 ≤ s.parser.token.index
  token_le : s.parser.token.index ≤ cursor s

structure CountersOk (s : Exec) : Prop where
  length_ge : -9223372036854775808 ≤ s.parser.contentLength
  length_lt : s.parser.contentLength < 9223372036854775808
  remaining_lt : s.parser.contentRemaining < 9223372036854775808

/-- What holds whenever the scan loop is entered or left. -/
structure Inv (strict : Bool) (max : ℤ) (s : Exec) : Prop where
  buffer : BufferOk strict max s.buffer
  state_lt : s.cs < 98
  counters : CountersOk s
  placed : CursorOk s ∨ strict = false ∧ phase s.cs = .small
  data : httpFlagCheck s.parser.flags flagDone = false →
    phase s.cs = .data ∨ phase s.cs = .bodyData →
      s.buffer.afterHeadersIndex ≤ s.parser.token.index
  large : httpFlagCheck s.parser.flags flagDone = false →
    phase s.cs = .large ∨ phase s.cs = .largeRest → cursor s = s.buffer.afterHeadersIndex

def TokenOk (length : ℤ) (token : HshTokenS) : Prop :=
  0 ≤ token.index ∧ 0 ≤ token.len ∧ token.index + token.len ≤ length

/-- What holds when the loop that started in `s₀` is left. -/
structure Exit (tokens strict : Bool) (max : ℤ) (s₀ t : Exec) : Prop where
  inv : Inv strict max t
  token : tokens = true → httpFlagCheck t.parser.flags flagTokenReady = true →
    TokenOk s₀.buffer.length t.parser.token
  unread : strict = true → ∃ k, unread t = (unread s₀).drop k

/-- The state in which the actions of a byte start, for a byte in the received part. -/
structure Ready (strict : Bool) (max : ℤ) (s : Exec) : Prop where
  buffer : BufferOk strict max s.buffer
  state_lt : s.cs < 98
  pe_eq : s.pe = s.buffer.buf + s.buffer.length
  ahi_le : s.buffer.afterHeadersIndex ≤ cursor s
  lt_length : cursor s < s.buffer.length

/-- Between two actions of a byte only the parser has changed; `lo` bounds the token. -/
structure Mid (lo : ℤ) (s t : Exec) : Prop where
  buffer_eq : t.buffer = s.buffer
  p_eq : t.p = s.p
  pe_eq : t.pe = s.pe
  cs_eq : t.cs = s.cs
  counters : CountersOk t
  token_ge : lo ≤ t.parser.token.index
  token_le : t.parser.token.index ≤ cursor s
  tokenReady : httpFlagCheck t.parser.flags flagTokenReady = false
  done : httpFlagCheck t.parser.flags flagDone = false

/-- The phases that put a condition on the cursor or the token. -/
def isBody : Phase → Bool
  | .data | .bodyData | .small | .smallRest | .large | .largeRest => true
  | _ => false

/-- The actions that only change the parser and always fall through. -/
def plainActions : List Action :=
  [.method, .target, .version, .headerKey, .headerValue, .body, .contentLengthDigit,
    .transferEncoding, .resetCount, .chunkStart, .chunkSize]

/-- The actions before and between bodies that may leave the loop. -/
def headActions : List Action := .emitToken :: .incCount :: .error :: plainActions

section HeadActions

variable {tokens strict : Bool} {max lo : ℤ} {blk : NewBlock} {c : UInt8} {s t : Exec}

theorem cursor_step : cursor { s with p := s.p + 1 } = cursor s + 1 := by
  unfold cursor
  ring

theorem unread_step (h : Ready strict max s) :
    unread { s with p := s.p + 1 } = (unread s).drop 1 := by
  have lt := h.lt_length
  unfold unread cursor at *
  dsimp only
  rw [slice_drop _ _ _ _ (by omega)]
  congr 1
  · push_cast
    ring
  · omega

theorem Ready.cursor_bounds (h : Ready strict max s) :
    0 ≤ cursor s ∧ cursor s < 2147483647 := by
  have := h.buffer.ahi_nonneg
  have := h.ahi_le
  have := h.lt_length
  have := h.buffer.length_lt
  omega

theorem wrap32_cursor (h : Ready strict max s) (hm : Mid lo s t) :
    wrap32 (t.p - t.buffer.buf) = cursor s := by
  have bounds := h.cursor_bounds
  rw [hm.p_eq, hm.buffer_eq]
  exact wrap32_eq (by unfold cursor at bounds; omega) (by unfold cursor at bounds; omega)

theorem Mid.exit (h : Ready strict max s) (hb : isBody (phase s.cs) = false ∨
      httpFlagCheck t.parser.flags flagDone = true) (hbuf : t.buffer = s.buffer) (hp : t.p = s.p)
    (hcs : t.cs = s.cs) (hc : CountersOk t) (nonneg : 0 ≤ t.parser.token.index)
    (le : t.parser.token.index ≤ cursor s)
    (token : httpFlagCheck t.parser.flags flagTokenReady = true →
      TokenOk s.buffer.length t.parser.token) :
    Exit tokens strict max s { t with p := t.p + 1 } := by
  have lt := h.lt_length
  have ahi := h.ahi_le
  have quiet : ∀ P : Phase → Prop, (∀ ph, P ph → isBody ph = true) →
      httpFlagCheck t.parser.flags flagDone = false → ¬ P (phase t.cs) := by
    intro P hP hd hph
    rw [hcs] at hph
    obtain hq | hd' := hb
    · rw [hP _ hph] at hq
      cases hq
    · rw [hd] at hd'
      cases hd'
  refine ⟨⟨by rw [hbuf]; exact h.buffer, by rw [hcs]; exact h.state_lt, ⟨hc.1, hc.2, hc.3⟩, .inl ?_, ?_, ?_⟩,
    fun _ => token, ?_⟩
  · unfold cursor at *
    refine ⟨?_, ?_, nonneg, ?_⟩
    all_goals
      dsimp only [cursor]
      rw [hp, hbuf]
      omega
  · intro hd hph
    exact absurd hph (quiet (fun ph => ph = .data ∨ ph = .bodyData)
      (by rintro ph (rfl | rfl) <;> rfl) hd)
  · intro hd hph
    exact absurd hph (quiet (fun ph => ph = .large ∨ ph = .largeRest)
      (by rintro ph (rfl | rfl) <;> rfl) hd)
  · intro _
    refine ⟨1, ?_⟩
    rw [← unread_step h]
    unfold unread cursor
    dsimp only
    rw [hp, hbuf]

theorem hshEnterToken_mid (h : Ready strict max s) (hlo : lo ≤ cursor s) (hm : Mid lo s t)
    (tokType : HshTokenE) (maxLen : ℤ) : Mid lo s (hshEnterToken tokType maxLen t) := by
  have index := wrap32_cursor h hm
  exact ⟨hm.buffer_eq, hm.p_eq, hm.pe_eq, hm.cs_eq, ⟨hm.counters.1, hm.counters.2, hm.counters.3⟩,
    hlo.trans_eq index.symm, index.le, hm.tokenReady, hm.done⟩

theorem setContentLength_mid (hm : Mid lo s t) {n : ℤ}
    (bounds : -9223372036854775808 ≤ n ∧ n < 9223372036854775808) :
    Mid lo s (t.setContentLength n) :=
  ⟨hm.buffer_eq, hm.p_eq, hm.pe_eq, hm.cs_eq, ⟨bounds.1, bounds.2, hm.counters.3⟩, hm.token_ge,
    hm.token_le, hm.tokenReady, hm.done⟩

theorem chunkSize_mid (hm : Mid lo s t) : Mid lo s (chunkSize c t) := by
  unfold chunkSize
  dsimp only
  split
  · exact setContentLength_mid hm (wrap64_bounds _)
  split
  · exact setContentLength_mid hm (wrap64_bounds _)
  split
  · exact setContentLength_mid hm (wrap64_bounds _)
  · exact hm

theorem plainAction_sat {E : Prop} {Q : Exec → Prop} (h : Ready strict max s)
    (hlo : lo ≤ cursor s) (hm : Mid lo s t) {a : Action} (ha : a ∈ plainActions) :
    (runAction max blk c a t).Sat E (Mid lo s) Q := by
  simp only [plainActions, List.mem_cons, List.not_mem_nil, or_false] at ha
  rcases ha with rfl | rfl | rfl | rfl | rfl | rfl | rfl | rfl | rfl | rfl | rfl
  iterate 5 exact hshEnterToken_mid h hlo hm _ _
  case inr.inr.inr.inr.inr.inl =>
    have index := wrap32_cursor h hm
    exact ⟨hm.buffer_eq, hm.p_eq, hm.pe_eq, hm.cs_eq, ⟨hm.counters.1, hm.counters.2, hm.counters.3⟩,
      hlo.trans_eq index.symm, index.le, hm.tokenReady, hm.done⟩
  · exact setContentLength_mid hm (wrap64_bounds _)
  · exact ⟨hm.buffer_eq, hm.p_eq, hm.pe_eq, hm.cs_eq, ⟨hm.counters.1, hm.counters.2, hm.counters.3⟩,
      hm.token_ge, hm.token_le, (tokenReady_set_chunked _).trans hm.tokenReady,
      (done_set_chunked _).trans hm.done⟩
  · exact ⟨hm.buffer_eq, hm.p_eq, hm.pe_eq, hm.cs_eq, ⟨hm.counters.1, hm.counters.2, hm.counters.3⟩,
      hm.token_ge, hm.token_le, hm.tokenReady, hm.done⟩
  · exact setContentLength_mid hm ⟨by norm_num, by norm_num⟩
  · exact chunkSize_mid hm

theorem emitToken_sat {E : Prop} {F : Exec → Prop} (h : Ready strict max s)
    (hb : isBody (phase s.cs) = false) (hlo : 0 ≤ lo) (hm : Mid lo s t) :
    (emitToken t).Sat E F (Exit tokens strict max s) := by
  have bounds := h.cursor_bounds
  have ge := hm.token_ge
  have le := hm.token_le
  have lt := h.lt_length
  have len : wrap32 (t.p - (t.buffer.buf + t.parser.token.index)) =
      cursor s - t.parser.token.index := by
    rw [hm.p_eq, hm.buffer_eq, show s.p - (s.buffer.buf + t.parser.token.index) =
      cursor s - t.parser.token.index by unfold cursor; ring]
    exact wrap32_eq (by omega) (by omega)
  refine Mid.exit h (.inl hb) hm.buffer_eq hm.p_eq hm.cs_eq ⟨hm.counters.1, hm.counters.2, hm.counters.3⟩
    (hlo.trans ge) le ?_
  intro _
  refine ⟨hlo.trans ge, ?_, ?_⟩
  · change 0 ≤ wrap32 (t.p - (t.buffer.buf + t.parser.token.index))
    omega
  · change t.parser.token.index + wrap32 (t.p - (t.buffer.buf + t.parser.token.index)) ≤ _
    omega

theorem silent_exit (h : Ready strict max s) (hb : isBody (phase s.cs) = false) (hlo : 0 ≤ lo)
    (hm : Mid lo s t) : Exit tokens strict max s { t with p := t.p + 1 } := by
  refine Mid.exit h (.inl hb) hm.buffer_eq hm.p_eq hm.cs_eq hm.counters (hlo.trans hm.token_ge)
    hm.token_le ?_
  intro ready
  rw [hm.tokenReady] at ready
  cases ready

theorem headAction_sat {E : Prop} (h : Ready strict max s) (hb : isBody (phase s.cs) = false)
    (hm : Mid 0 s t) {a : Action} (ha : a ∈ headActions) :
    (runAction max blk c a t).Sat E (Mid 0 s) (Exit tokens strict max s) := by
  simp only [headActions, List.mem_cons] at ha
  rcases ha with rfl | rfl | rfl | ha
  · exact emitToken_sat h hb (le_refl 0) hm
  · have hm' : Mid 0 s { t with parser := { t.parser with limitCount := wrap16 (t.parser.limitCount + 1) } } :=
      ⟨hm.buffer_eq, hm.p_eq, hm.pe_eq, hm.cs_eq, ⟨hm.counters.1, hm.counters.2, hm.counters.3⟩, hm.token_ge,
        hm.token_le, hm.tokenReady, hm.done⟩
    simp only [runAction, incCount]
    split
    · exact silent_exit h hb (le_refl 0) hm'
    · exact hm'
  · exact silent_exit h hb (le_refl 0) hm
  · exact plainAction_sat h h.cursor_bounds.1 hm ha

theorem endStream_sat {E : Prop} {F : Exec → Prop} (h : Ready strict max s) (hm : Mid lo s t) :
    (endStream t).Sat E F (Exit tokens strict max s) := by
  have bounds := h.cursor_bounds
  have length := h.lt_length
  refine Mid.exit h (.inr (done_set _)) hm.buffer_eq hm.p_eq hm.cs_eq
    ⟨hm.counters.1, hm.counters.2, hm.counters.3⟩ (le_refl 0) bounds.1 ?_
  intro _
  refine ⟨le_refl 0, le_refl 0, ?_⟩
  change 0 + 0 ≤ _
  omega

end HeadActions

section DoneHeaders

variable {tokens strict : Bool} {max : ℤ} {blk : NewBlock} {s t u : Exec}

/-- The states that `done_headers` can leave in keep the block or go on to a small body. -/
theorem headers_exit (h : Ready strict max s) (hm : Mid 0 s t) (cs : ℕ) (hu : u.cs = cs)
    (hcs : cs < 98) (hph : phase cs ≠ .data ∧ phase cs ≠ .bodyData)
    (hbuf : u.buffer = { s.buffer with afterHeadersIndex := cursor s + 1 }) (hp : u.p = s.p + 1)
    (hlen : u.parser.contentLength = t.parser.contentLength)
    (hrem : u.parser.contentRemaining = t.parser.contentLength)
    (hindex : u.parser.token.index = 0) (htoken : u.parser.token.len = 0) :
    Exit tokens strict max s u := by
  have bounds := h.cursor_bounds
  have lt := h.lt_length
  have ok := h.buffer
  have hcur : cursor u = cursor s + 1 := by
    unfold cursor
    rw [hp, hbuf]
    ring
  refine ⟨⟨?_, hu ▸ hcs, ⟨?_, ?_, ?_⟩, .inl ⟨?_, ?_, ?_, ?_⟩, ?_, ?_⟩, ?_, ?_⟩
  · rw [hbuf]
    exact ⟨ok.buf_pos, ok.buf_lt, by dsimp only; omega, by dsimp only; omega, ok.length_lt,
      ok.capacity_lt, ok.held⟩
  · rw [hlen]
    exact hm.counters.1
  · rw [hlen]
    exact hm.counters.2
  · rw [hrem]
    exact hm.counters.2
  · rw [hcur, hbuf]
  · rw [hcur, hbuf]
    exact lt
  · rw [hindex]
  · rw [hindex, hcur]
    omega
  · intro _ hd
    rw [hu] at hd
    rcases hd with hd | hd
    · exact absurd hd hph.1
    · exact absurd hd hph.2
  · intro _ _
    rw [hcur, hbuf]
  · intro _ _
    refine ⟨hindex.ge, htoken.ge, ?_⟩
    rw [hindex, htoken]
    omega
  · intro _
    refine ⟨1, ?_⟩
    rw [← unread_step h]
    unfold unread cursor
    dsimp only
    rw [hp, hbuf]

theorem resize_exit (max_ge : -2147483648 ≤ max) (max_lt : max < 2147483648) (hblk : BlockOk blk)
    (h : Ready strict max s) (hm : Mid 0 s t)
    (hn : t.parser.contentLength ≤ wrap32 (max - (cursor s + 1)))
    (hcap : s.buffer.capacity < wrap64 (t.parser.contentLength + (cursor s + 1)))
    (place : strict = true → blk.addr = s.buffer.buf) (hcs : u.cs = hshHttpEnSmallBody)
    (hbuf : u.buffer = { ({ s.buffer with afterHeadersIndex := cursor s + 1 } : HshBufferS).realloc
        blk (t.parser.contentLength + (cursor s + 1)) with
      capacity := wrap32 (t.parser.contentLength + (cursor s + 1)) }) (hp : u.p = s.p + 1)
    (hlen : u.parser.contentLength = t.parser.contentLength)
    (hrem : u.parser.contentRemaining = t.parser.contentLength)
    (hindex : u.parser.token.index = 0) (htoken : u.parser.token.len = 0) :
    Exit tokens strict max s u := by
  have bounds := h.cursor_bounds
  have lt := h.lt_length
  have ok := h.buffer
  have wrapped := wrap32_bounds (t.parser.contentLength + (cursor s + 1))
  have small := wrap32_bounds (max - (cursor s + 1))
  have ge := hm.counters.1
  rw [wrap64_eq (by omega) (by omega)] at hcap
  -- with `strict` the new capacity is between the old one and `max`
  have grown : strict = true → wrap32 (t.parser.contentLength + (cursor s + 1)) =
      t.parser.contentLength + (cursor s + 1) ∧
        t.parser.contentLength + (cursor s + 1) ≤ max := by
    intro hs
    have held := ok.held hs
    have hmax : wrap32 (max - (cursor s + 1)) = max - (cursor s + 1) :=
      wrap32_eq (by omega) (by omega)
    exact ⟨wrap32_eq (by omega) (by omega), by omega⟩
  have hphase : phase u.cs = .small := by
    rw [hcs]
    decide
  have hcur : strict = true → cursor u = cursor s + 1 := by
    intro hs
    unfold cursor
    rw [hp, hbuf]
    simp only [HshBufferS.realloc]
    rw [place hs]
    ring
  refine ⟨⟨?_, by rw [hcs]; decide, ⟨?_, ?_, ?_⟩, ?_, ?_, ?_⟩, ?_, ?_⟩
  · rw [hbuf]
    refine ⟨hblk.1, hblk.2, ?_, ?_, ok.length_lt, wrapped.2, ?_⟩
    · simp only [HshBufferS.realloc]
      omega
    · simp only [HshBufferS.realloc]
      omega
    · intro hs
      have held := ok.held hs
      have new := grown hs
      simp only [HshBufferS.realloc]
      omega
  · rw [hlen]
    exact ge
  · rw [hlen]
    exact hm.counters.2
  · rw [hrem]
    exact hm.counters.2
  · cases hs : strict with
    | false => exact .inr ⟨rfl, hphase⟩
    | true =>
      have hcur := hcur hs
      refine .inl ⟨?_, ?_, hindex.ge, ?_⟩
      · rw [hcur, hbuf]
        exact le_refl _
      · rw [hcur, hbuf]
        exact lt
      · rw [hindex, hcur]
        omega
  · intro _ hd
    rw [hphase] at hd
    rcases hd with hd | hd <;> cases hd
  · intro _ hd
    rw [hphase] at hd
    rcases hd with hd | hd <;> cases hd
  · intro _ _
    refine ⟨hindex.ge, htoken.ge, ?_⟩
    rw [hindex, htoken]
    omega
  · intro hs
    have held := ok.held hs
    refine ⟨1, ?_⟩
    rw [← unread_step h]
    unfold unread
    rw [hcur hs, hbuf]
    rw [cursor_step]
    apply slice_congr
    intro i lo hi
    simp only [HshBufferS.realloc] at hi ⊢
    rw [if_pos (by omega)]

theorem doneHeaders_sat {E : Prop} {F : Exec → Prop} (max_ge : -2147483648 ≤ max)
    (max_lt : max < 2147483648) (hblk : BlockOk blk) (h : Ready strict max s)
    (hph : phase s.cs = .headersDone) (hm : Mid 0 s t)
    (ok : ActionOk tokens strict max blk .doneHeaders t) :
    (doneHeaders max blk t).Sat E F (Exit tokens strict max s) := by
  have bounds := h.cursor_bounds
  have ahi : wrap32 (t.p - t.buffer.buf + 1) = cursor s + 1 := by
    rw [hm.p_eq, hm.buffer_eq]
    exact wrap32_eq (by unfold cursor at bounds; omega) (by unfold cursor at bounds; omega)
  have chunked : httpFlagCheck (httpFlagSet t.parser.flags flagTokenReady) flagChunked =
      httpFlagCheck t.parser.flags flagChunked := chunked_set_tokenReady _
  unfold doneHeaders
  simp only [ahi, Exec.setFlags, Exec.setToken, chunked]
  split
  · exact headers_exit h hm hshHttpEnChunkedBody rfl (by decide) (by decide) (by simp only [hm.buffer_eq])
      (by simp only [hm.p_eq]) rfl rfl rfl rfl
  split
  · exact headers_exit h hm s.cs hm.cs_eq h.state_lt (by rw [hph]; decide) (by simp only [hm.buffer_eq])
      (by simp only [hm.p_eq]) rfl rfl rfl rfl
  split
  · exact headers_exit h hm hshHttpEnLargeBody rfl (by decide) (by decide) (by simp only [hm.buffer_eq])
      (by simp only [hm.p_eq]) rfl rfl rfl rfl
  rename_i notChunked nonzero notLarge
  by_cases grows : s.buffer.capacity < wrap64 (t.parser.contentLength + (cursor s + 1))
  · refine resize_exit max_ge max_lt hblk h hm (not_lt.1 notLarge) grows ?_ rfl ?_
      (by simp only [hm.p_eq]) rfl rfl rfl rfl
    · intro hs
      rw [← hm.buffer_eq]
      refine ok.2.1 hs ⟨by simpa using notChunked, nonzero, ?_, ?_⟩
      · rw [ahi]
        exact not_lt.1 notLarge
      · rw [ahi, hm.buffer_eq]
        exact grows
    · simp only [hm.buffer_eq, gt_iff_lt, grows, if_true]
  · refine headers_exit h hm hshHttpEnSmallBody rfl (by decide) (by decide) ?_
      (by simp only [hm.p_eq]) rfl rfl rfl rfl
    simp only [hm.buffer_eq, gt_iff_lt, grows, if_false]

end DoneHeaders

section Bodies

variable {tokens strict : Bool} {max lo : ℤ} {blk : NewBlock} {s t : Exec}

theorem bodyFits_end {u : Exec} {index n : ℤ} (hbuf : BufferOk strict max u.buffer)
    (hpe : u.pe = u.buffer.buf + u.buffer.length) (lo : 0 ≤ index) (hi : index ≤ u.buffer.length)
    (lt : n < 9223372036854775808) (ok : BodyFits u index n) (read : lastBodyByte u index n ≤ u.pe) :
    lastBodyByte u index n = u.buffer.buf + index + n - 1 ∧ 0 ≤ n ∧ index + n ≤ u.buffer.length := by
  obtain ⟨nonneg, ne⟩ := ok read
  obtain ⟨h1, h2, h3, h4, h5, h6, -⟩ := hbuf
  have eq : lastBodyByte u index n = u.buffer.buf + index + n - 1 := by
    unfold lastBodyByte
    exact addr64_eq (by omega) (by omega)
  refine ⟨eq, nonneg, ?_⟩
  rw [eq] at read ne
  omega

theorem drop_eq_unread {u : Exec} (hbuf : u.buffer = s.buffer) (ahead : cursor s ≤ cursor u)
    (inside : cursor u ≤ s.buffer.length) : ∃ k, unread u = (unread s).drop k := by
  refine ⟨(cursor u - cursor s).toNat, ?_⟩
  unfold unread
  rw [slice_drop _ _ _ _ (by omega), hbuf]
  congr 1
  · omega
  · omega

theorem memcpy_slice {b b' : HshBufferS} {dst src : ℤ} {n : ℕ}
    (h : b.memcpy dst src n = some b') : slice b'.data dst n = slice b.data src n := by
  unfold HshBufferS.memcpy at h
  split at h
  case isFalse => cases h
  case isTrue =>
    cases h
    apply List.ext_getElem
    · rw [slice_length, slice_length]
    · intro i h1 _
      rw [slice_length] at h1
      rw [slice_getElem, slice_getElem]
      dsimp only
      rw [if_pos (by omega)]
      congr 1
      omega

theorem memcpy_fields {b b' : HshBufferS} {dst src n : ℤ} (h : b.memcpy dst src n = some b') :
    b' = { b with data := b'.data } := by
  unfold HshBufferS.memcpy at h
  split at h
  · cases h
    rfl
  · cases h

theorem memcpy_some {b : HshBufferS} {dst src n : ℤ} (hn : 0 ≤ n) (hd : 0 ≤ dst)
    (apart : dst + n ≤ src) (fits : src + n ≤ b.capacity) : (b.memcpy dst src n).isSome := by
  unfold HshBufferS.memcpy
  rw [if_pos ⟨hn, hd, by omega, by omega, fits, .inr (.inl apart)⟩]
  rfl

theorem chunkRead_complete (h : Ready strict max s) (hm : Mid s.buffer.afterHeadersIndex s t)
    (ok : ActionOk tokens strict max blk .chunkRead t)
    (read : lastBodyByte t t.parser.token.index t.parser.contentLength ≤ t.pe) :
    (chunkRead max t).Sat (strict = false) (Mid s.buffer.afterHeadersIndex s)
      (Exit tokens strict max s) := by
  have bounds := h.cursor_bounds
  have length := h.lt_length
  have ahi := h.buffer.ahi_nonneg
  have ge := hm.token_ge
  have le := hm.token_le
  have lengthLt := h.buffer.length_lt
  obtain ⟨eq, nonneg, fits⟩ := bodyFits_end (hm.buffer_eq ▸ h.buffer)
    (by rw [hm.pe_eq, hm.buffer_eq, h.pe_eq]) (by omega) (by rw [hm.buffer_eq]; omega)
    hm.counters.2 ok.1 read
  rw [hm.buffer_eq] at eq fits
  have short : wrap32 t.parser.contentLength = t.parser.contentLength :=
    wrap32_eq (by omega) (by omega)
  unfold chunkRead
  rw [if_pos (show t.pe ≥ addr64 (t.buffer.buf + t.parser.token.index + t.parser.contentLength - 1)
    from read)]
  change Exit tokens strict max s { Exec.setFlags (Exec.setToken
      { t with p := lastBodyByte t t.parser.token.index t.parser.contentLength }
      { t.parser.token with len := wrap32 t.parser.contentLength }) flagTokenReady with
    cs := hshHttpEnChunkEnd, p := lastBodyByte t t.parser.token.index t.parser.contentLength + 1 }
  rw [eq, short]
  have cur : s.buffer.buf + t.parser.token.index + t.parser.contentLength - 1 + 1 - s.buffer.buf =
      t.parser.token.index + t.parser.contentLength := by ring
  refine ⟨⟨?_, show hshHttpEnChunkEnd < 98 by decide,
    ⟨hm.counters.1, hm.counters.2, hm.counters.3⟩, .inl ⟨?_, ?_, ?_, ?_⟩, ?_, ?_⟩,
    ?_, ?_⟩
  · exact (hm.buffer_eq ▸ h.buffer : BufferOk strict max t.buffer)
  iterate 4
    simp only [cursor, Exec.setFlags, Exec.setToken, hm.buffer_eq, cur]
    omega
  · intro _ hd
    rcases hd with hd | hd <;> cases hd
  · intro _ hd
    rcases hd with hd | hd <;> cases hd
  · intro _ _
    refine ⟨?_, ?_, ?_⟩
    all_goals
      simp only [Exec.setFlags, Exec.setToken]
      omega
  · intro hs
    have ahead := (ok.2.1 hs).1 read
    rw [eq, hm.p_eq] at ahead
    refine drop_eq_unread hm.buffer_eq ?_ ?_
    all_goals
      simp only [cursor, Exec.setFlags, Exec.setToken, hm.buffer_eq, cur]
      unfold cursor at *
      omega

theorem chunkRead_compact (h : Ready strict max s)
    (hph : phase s.cs = .data ∨ phase s.cs = .bodyData) (hm : Mid s.buffer.afterHeadersIndex s t)
    (ok : ActionOk tokens strict max blk .chunkRead t) (compacts : Compacts max t) :
    (chunkRead max t).Sat (strict = false) (Mid s.buffer.afterHeadersIndex s)
      (Exit tokens strict max s) := by
  have bounds := h.cursor_bounds
  have length := h.lt_length
  have hb := h.buffer
  have ahi := hb.ahi_nonneg
  have ahiLe := h.ahi_le
  have lengthLt := hb.length_lt
  have hpe : t.pe - t.p = s.buffer.length - cursor s := by
    rw [hm.pe_eq, hm.p_eq, h.pe_eq]
    unfold cursor
    ring
  have hcur : t.p - t.buffer.buf = cursor s := by rw [hm.p_eq, hm.buffer_eq, cursor]
  unfold chunkRead
  rw [if_neg (show ¬ t.pe ≥ addr64 (t.buffer.buf + t.parser.token.index + t.parser.contentLength - 1)
    from not_le.2 compacts.1), if_pos compacts.2, hcur, hpe]
  dsimp only
  cases hc : t.buffer.memcpy t.buffer.afterHeadersIndex (cursor s) (s.buffer.length - cursor s) with
  | none =>
    change strict = false
    by_contra hs
    rw [Bool.not_eq_false] at hs
    have apart := (ok.2.1 hs).2 compacts
    unfold MoveFits at apart
    rw [hpe, hcur, hm.buffer_eq] at apart
    have some : (t.buffer.memcpy t.buffer.afterHeadersIndex (cursor s)
        (s.buffer.length - cursor s)).isSome := memcpy_some (by omega) (by rw [hm.buffer_eq]; exact ahi)
      (by rw [hm.buffer_eq]; exact apart) (by have := hb.held hs; rw [hm.buffer_eq]; omega)
    rw [hc] at some
    cases some
  | some b =>
    have moved : (s.buffer.length - cursor s).toNat = s.buffer.length - cursor s := by omega
    have data := memcpy_slice (n := (s.buffer.length - cursor s).toNat) (by rw [moved]; exact hc)
    have fields := memcpy_fields hc
    have newLength : wrap32 (t.buffer.afterHeadersIndex + t.pe - t.p) =
        s.buffer.afterHeadersIndex + (s.buffer.length - cursor s) := by
      rw [hm.buffer_eq, show s.buffer.afterHeadersIndex + t.pe - t.p =
        s.buffer.afterHeadersIndex + (t.pe - t.p) by ring, hpe]
      exact wrap32_eq (by omega) (by omega)
    rw [hm.buffer_eq] at fields data
    dsimp only
    rw [newLength, fields, hm.buffer_eq]
    have cur : s.buffer.buf + s.buffer.afterHeadersIndex - 1 + 1 - s.buffer.buf =
        s.buffer.afterHeadersIndex := by ring
    refine ⟨⟨⟨hb.buf_pos, hb.buf_lt, ahi, ?_, ?_, hb.capacity_lt, ?_⟩, ?_,
      ⟨hm.counters.1, hm.counters.2, hm.counters.3⟩, .inl ⟨?_, ?_, ?_, ?_⟩, ?_, ?_⟩, ?_, ?_⟩
    · dsimp only [fhold]
      omega
    · dsimp only [fhold]
      omega
    · intro hs
      have held := hb.held hs
      dsimp only [fhold]
      omega
    · exact hm.cs_eq ▸ h.state_lt
    iterate 4
      simp only [cursor, fhold, cur] at length ⊢
      omega
    · intro _ _
      exact le_refl _
    · intro _ hd
      change phase t.cs = _ ∨ phase t.cs = _ at hd
      rw [hm.cs_eq] at hd
      rcases hph with hph | hph <;> rw [hph] at hd <;> rcases hd with hd | hd <;> cases hd
    · intro _ ready
      have clear := hm.tokenReady
      simp only [fhold] at ready
      rw [clear] at ready
      cases ready
    · intro _
      refine ⟨0, ?_⟩
      rw [List.drop_zero, unread, unread]
      simp only [cursor, fhold, cur]
      rw [show s.buffer.afterHeadersIndex + (s.buffer.length - (s.p - s.buffer.buf)) -
        s.buffer.afterHeadersIndex = s.buffer.length - (s.p - s.buffer.buf) by ring]
      exact data

theorem chunkRead_sat (h : Ready strict max s)
    (hph : phase s.cs = .data ∨ phase s.cs = .bodyData) (hm : Mid s.buffer.afterHeadersIndex s t)
    (ok : ActionOk tokens strict max blk .chunkRead t) :
    (chunkRead max t).Sat (strict = false) (Mid s.buffer.afterHeadersIndex s)
      (Exit tokens strict max s) := by
  by_cases read : lastBodyByte t t.parser.token.index t.parser.contentLength ≤ t.pe
  · exact chunkRead_complete h hm ok read
  by_cases compacts : Compacts max t
  · exact chunkRead_compact h hph hm ok compacts
  · unfold chunkRead
    rw [if_neg (show ¬ t.pe ≥
      addr64 (t.buffer.buf + t.parser.token.index + t.parser.contentLength - 1) from read),
      if_neg (fun big => compacts ⟨not_le.1 read, big⟩)]
    exact hm

theorem smallBodyRead_sat {E : Prop} {F : Exec → Prop}
    (ok : ActionOk tokens strict max blk .smallBodyRead t) (hb : BufferOk strict max s.buffer)
    (hph : phase t.cs = .smallRest) (hcs : t.cs < 98) (hc : CountersOk t)
    (hbuf : t.buffer = s.buffer) (hpe : t.pe = s.buffer.buf + s.buffer.length)
    (tokenReady : httpFlagCheck t.parser.flags flagTokenReady = false) :
    (smallBodyRead t).Sat E F (Exit tokens strict max s) := by
  obtain ⟨token, flags, exit⟩ : ∃ token flags, smallBodyRead t = .out { t with
      p := t.pe - 1 + 1
      parser := { t.parser with token := token, flags := flags } } ∧
      token.index = t.buffer.afterHeadersIndex ∧ token.len = wrap32 t.parser.contentLength ∧
      (lastBodyByte t t.buffer.afterHeadersIndex t.parser.contentLength ≤ t.pe ∨
        httpFlagCheck flags flagTokenReady = false) := by
    unfold smallBodyRead
    dsimp only
    split
    · rename_i read
      exact ⟨_, _, rfl, rfl, rfl, .inl read⟩
    · exact ⟨_, _, rfl, rfl, rfl, .inr tokenReady⟩
  obtain ⟨exit, hindex, hlen, complete⟩ := exit
  rw [exit]
  have ahi := hb.ahi_nonneg
  have ahiLe := hb.ahi_le
  have lengthLt := hb.length_lt
  have cur : cursor { t with p := t.pe - 1 + 1, parser := { t.parser with token := token, flags := flags } } =
      s.buffer.length := by
    unfold cursor
    dsimp only
    rw [hbuf, hpe]
    ring
  refine ⟨⟨(by rw [hbuf]; exact hb), hcs, ⟨hc.1, hc.2, hc.3⟩, .inl ⟨?_, ?_, ?_, ?_⟩, ?_, ?_⟩, ?_, ?_⟩
  · rw [cur, hbuf]
    exact ahiLe
  · rw [cur, hbuf]
  · rw [hindex, hbuf]
    exact ahi
  · rw [cur, hindex, hbuf]
    exact ahiLe
  · intro _ hd
    rw [hph] at hd
    rcases hd with hd | hd <;> cases hd
  · intro _ hd
    rw [hph] at hd
    rcases hd with hd | hd <;> cases hd
  · intro htokens ready
    obtain read | clear := complete
    · obtain ⟨-, nonneg, fits⟩ := bodyFits_end (hbuf ▸ hb) (by rw [hbuf, hpe]) (by rw [hbuf]; exact ahi)
        (by rw [hbuf]; exact ahiLe) hc.2 (ok.2.2 htokens) read
      rw [hbuf] at fits
      have short : wrap32 t.parser.contentLength = t.parser.contentLength :=
        wrap32_eq (by omega) (by omega)
      refine ⟨?_, ?_, ?_⟩
      · rw [hindex, hbuf]
        exact ahi
      · rw [hlen, short]
        exact nonneg
      · rw [hindex, hlen, short, hbuf]
        exact fits
    · rw [clear] at ready
      cases ready
  · intro _
    refine ⟨(unread s).length, ?_⟩
    rw [List.drop_length, unread, cur, hbuf, Int.sub_self]
    rfl

theorem largeBodyRead_cases (t : Exec) : ∃ parser : HshParserS,
    parser.token.index = t.buffer.afterHeadersIndex ∧
      parser.contentLength = t.parser.contentLength ∧
      (lastBodyByte t t.buffer.afterHeadersIndex t.parser.contentRemaining ≤ t.pe ∧
          largeBodyRead t = .out { t with p := t.p - 1 + 1, parser := parser } ∧
          parser.token.len = wrap32 t.parser.contentRemaining ∧ parser.contentRemaining = 0 ∧
          httpFlagCheck parser.flags flagDone = true ∨
        t.pe < lastBodyByte t t.buffer.afterHeadersIndex t.parser.contentRemaining ∧
          largeBodyRead t = .out { t with
            p := t.buffer.buf + t.buffer.afterHeadersIndex - 1 + 1
            buffer := { t.buffer with length := t.buffer.afterHeadersIndex }
            parser := parser } ∧
          parser.token.len = wrap32 (t.pe - t.p) ∧
          parser.contentRemaining = wrap64 (t.parser.contentRemaining - wrap32 (t.pe - t.p))) := by
  by_cases read : lastBodyByte t t.buffer.afterHeadersIndex t.parser.contentRemaining ≤ t.pe
  · refine ⟨{ t.parser with
        token := { t.parser.token with
          index := t.buffer.afterHeadersIndex, flags := hshTokFlagBodyFinal
          len := wrap32 t.parser.contentRemaining }
        contentRemaining := 0
        flags := httpFlagSet (httpFlagSet t.parser.flags flagTokenReady) flagDone },
      rfl, rfl, .inl ⟨read, ?_, rfl, rfl, done_set _⟩⟩
    unfold largeBodyRead
    exact if_pos read
  · refine ⟨{ t.parser with
        token := { t.parser.token with
          index := t.buffer.afterHeadersIndex, len := wrap32 (t.pe - t.p) }
        contentRemaining := wrap64 (t.parser.contentRemaining - wrap32 (t.pe - t.p))
        flags := httpFlagSet t.parser.flags flagTokenReady
        sequenceId := t.buffer.sequenceId },
      rfl, rfl, .inr ⟨not_le.1 read, ?_, rfl, rfl⟩⟩
    unfold largeBodyRead
    exact if_neg read

theorem largeBodyRead_sat {E : Prop} {F : Exec → Prop} (h : Ready strict max s)
    (hcur : cursor s = s.buffer.afterHeadersIndex)
    (hph : phase s.cs = .largeRest) (hm : Mid lo s t)
    (ok : ActionOk tokens strict max blk .largeBodyRead t) :
    (largeBodyRead t).Sat E F (Exit tokens strict max s) := by
  have bounds := h.cursor_bounds
  have length := h.lt_length
  have hb := h.buffer
  have lengthLt := hb.length_lt
  have noData : ∀ cs, cs = t.cs → ¬ (phase cs = .data ∨ phase cs = .bodyData) := by
    rintro cs rfl hd
    rw [hm.cs_eq, hph] at hd
    rcases hd with hd | hd <;> cases hd
  obtain ⟨parser, hindex, hlength, ⟨read, exit, hlen, hrem, hdone⟩ | ⟨-, exit, hlen, hrem⟩⟩ :=
    largeBodyRead_cases t
  · rw [exit]
    rw [hm.buffer_eq] at hindex
    have cur : cursor { t with p := t.p - 1 + 1, parser := parser } = cursor s := by
      unfold cursor
      dsimp only
      rw [hm.p_eq, hm.buffer_eq]
      ring
    refine ⟨⟨(hm.buffer_eq ▸ hb : BufferOk strict max t.buffer), hm.cs_eq ▸ h.state_lt,
      ⟨hlength ▸ hm.counters.1, hlength ▸ hm.counters.2, by rw [hrem]; norm_num⟩,
      .inl ⟨?_, ?_, ?_, ?_⟩, fun _ hd => absurd hd (noData _ rfl), ?_⟩, ?_, ?_⟩
    · rw [cur, hm.buffer_eq, hcur]
    · rw [cur, hm.buffer_eq]
      exact length.le
    · rw [hindex]
      exact hb.ahi_nonneg
    · rw [cur, hindex, hcur]
    · intro running
      rw [hdone] at running
      cases running
    · intro htokens _
      obtain ⟨-, nonneg, fits⟩ := bodyFits_end (hm.buffer_eq ▸ hb)
        (by rw [hm.pe_eq, hm.buffer_eq, h.pe_eq]) (by rw [hm.buffer_eq]; omega)
        (by rw [hm.buffer_eq]; omega) hm.counters.3 (ok.2.2 htokens) read
      rw [hm.buffer_eq] at fits
      rw [wrap32_eq (by omega) (by omega)] at hlen
      refine ⟨?_, ?_, ?_⟩
      · rw [hindex]
        exact hb.ahi_nonneg
      · rw [hlen]
        exact nonneg
      · rw [hindex, hlen]
        exact fits
    · intro _
      exact drop_eq_unread hm.buffer_eq cur.ge (cur.trans_le length.le)
  · rw [exit]
    have piece : t.pe - t.p = s.buffer.length - cursor s := by
      rw [hm.pe_eq, hm.p_eq, h.pe_eq]
      unfold cursor
      ring
    rw [piece, wrap32_eq (by omega) (by omega)] at hlen
    rw [hm.buffer_eq] at hindex
    have cur : cursor { t with
        p := t.buffer.buf + t.buffer.afterHeadersIndex - 1 + 1
        buffer := { t.buffer with length := t.buffer.afterHeadersIndex }
        parser := parser } = s.buffer.afterHeadersIndex := by
      unfold cursor
      dsimp only
      rw [hm.buffer_eq]
      ring
    have ahi := hb.ahi_nonneg
    have ahiLe := hb.ahi_le
    refine ⟨⟨?_, hm.cs_eq ▸ h.state_lt,
      ⟨hlength ▸ hm.counters.1, hlength ▸ hm.counters.2, by rw [hrem]; exact (wrap64_bounds _).2⟩,
      .inl ⟨?_, ?_, ?_, ?_⟩, fun _ hd => absurd hd (noData _ rfl), ?_⟩, ?_, ?_⟩
    · rw [hm.buffer_eq]
      refine ⟨hb.buf_pos, hb.buf_lt, ahi, le_refl _, ?_, hb.capacity_lt, ?_⟩
      · dsimp only
        omega
      · intro hs
        have held := hb.held hs
        dsimp only
        omega
    · rw [cur, hm.buffer_eq]
    · rw [cur, hm.buffer_eq]
    · rw [hindex]
      exact ahi
    · rw [cur, hindex]
    · intro _ _
      rw [cur, hm.buffer_eq]
    · intro _ _
      refine ⟨?_, ?_, ?_⟩
      · rw [hindex]
        exact ahi
      · rw [hlen]
        omega
      · rw [hindex, hlen]
        omega
    · intro _
      refine ⟨(unread s).length, ?_⟩
      rw [List.drop_length, unread, cur, hm.buffer_eq, Int.sub_self]
      rfl

end Bodies

section Step

variable {tokens strict : Bool} {max : ℤ} {blk : NewBlock}

/-- The phases whose bytes belong to a body. -/
def readsBody : Phase → Bool
  | .dataFirst | .data | .bodyDataFirst | .bodyData | .small | .smallRest | .large | .largeRest => true
  | _ => false

theorem phaseStep_outside {ph : Phase} (h : readsBody ph = false) (c : ℕ) :
    isBody (phaseStep ph c).1 = false ∧
      ((∀ a ∈ (phaseStep ph c).2, a ∈ headActions) ∨
        (phaseStep ph c).1 = .headersDone ∧ (phaseStep ph c).2 = [.incCount, .doneHeaders] ∨
        (phaseStep ph c).2 = [.endStream]) := by
  cases ph <;> simp only [readsBody, Bool.true_eq_false] at h <;>
    simp only [phaseStep, keyStep, phaseError, headActions, plainActions] <;> (repeat' split) <;>
    simp [isBody]

/-- What holds when the bytes `cs` are left to the loop that started in `s₀`. -/
structure Loop (strict : Bool) (max : ℤ) (s₀ : Exec) (cs : List UInt8) (s : Exec) : Prop where
  inv : Inv strict max s
  pe_eq : s.pe = s.buffer.buf + s.buffer.length
  length_eq : s.buffer.length = s₀.buffer.length
  tokenReady : httpFlagCheck s.parser.flags flagTokenReady = false
  done : httpFlagCheck s.parser.flags flagDone = false
  live : s.p ≠ s.pe → s.cs ≠ hshHttpError
  unread : strict = true → ∃ k, unread s = (unread s₀).drop k
  bytes : cs = bytesFrom s.buffer s.p

variable {s₀ s t u : Exec} {c : UInt8} {cs : List UInt8} {lo : ℤ}

theorem Exit.trans (h : Exit tokens strict max s u) (length : s.buffer.length = s₀.buffer.length)
    (rest : strict = true → ∃ k, ParserInvariant.unread s = (ParserInvariant.unread s₀).drop k) :
    Exit tokens strict max s₀ u := by
  refine ⟨h.inv, fun htokens ready => length ▸ h.token htokens ready, ?_⟩
  intro hs
  obtain ⟨j, hj⟩ := h.unread hs
  obtain ⟨k, hk⟩ := rest hs
  exact ⟨k + j, by rw [hj, hk, List.drop_drop]⟩

theorem Loop.ready (h : Loop strict max s₀ cs s) (placed : CursorOk s) (running : s.p ≠ s.pe)
    {cs' : ℕ} (lt : cs' < 98) : Ready strict max { s with cs := cs' } := by
  have le := placed.le_length
  have pe := h.pe_eq
  refine ⟨h.inv.buffer, lt, pe, placed.ahi_le, ?_⟩
  unfold cursor at *
  dsimp only
  omega

theorem Loop.mid (h : Loop strict max s₀ cs s) (placed : CursorOk s)
    (le : lo ≤ s.parser.token.index) {cs' : ℕ} :
    Mid lo { s with cs := cs' } { s with cs := cs' } :=
  ⟨rfl, rfl, rfl, rfl, ⟨h.inv.counters.1, h.inv.counters.2, h.inv.counters.3⟩, le, placed.token_le,
    h.tokenReady, h.done⟩

theorem again_sat {E : Prop} (h : Loop strict max s₀ (c :: cs) u) (hready : Ready strict max s)
    (hbuf : s.buffer = u.buffer) (hp : s.p = u.p) (hm : Mid lo s t) (hlo : 0 ≤ lo)
    (hdata : phase s.cs = .data ∨ phase s.cs = .bodyData → s.buffer.afterHeadersIndex ≤ lo)
    (hlarge : phase s.cs ≠ .large ∧ phase s.cs ≠ .largeRest) :
    ((machine max blk).again t).Sat E (Loop strict max s₀ cs) (Exit tokens strict max s₀) := by
  have bounds := hready.cursor_bounds
  have lt := hready.lt_length
  have ahi := hready.ahi_le
  have tokenGe := hm.token_ge
  have tokenLe := hm.token_le
  have cur : cursor { t with p := t.p + 1 } = cursor s + 1 := by
    unfold cursor
    dsimp only
    rw [hm.p_eq, hm.buffer_eq]
    ring
  have still : cursor t = cursor s := by rw [cursor, hm.p_eq, hm.buffer_eq, cursor]
  have same : unread s = unread u := by
    unfold unread cursor
    rw [hbuf, hp]
  have noLarge : ¬ (phase t.cs = .large ∨ phase t.cs = .largeRest) := by
    rw [hm.cs_eq]
    rintro (hd | hd)
    · exact hlarge.1 hd
    · exact hlarge.2 hd
  have inside : phase t.cs = .data ∨ phase t.cs = .bodyData →
      t.buffer.afterHeadersIndex ≤ t.parser.token.index := by
    intro hd
    rw [hm.cs_eq] at hd
    rw [hm.buffer_eq]
    exact (hdata hd).trans tokenGe
  have hbufOk : BufferOk strict max t.buffer := hm.buffer_eq ▸ hready.buffer
  have hlt : t.cs < 98 := hm.cs_eq ▸ hready.state_lt
  by_cases herr : t.cs = hshHttpError
  · have stop : (machine max blk).again t = .out t := if_pos herr
    rw [stop]
    refine ⟨⟨hbufOk, hlt, hm.counters, .inl ⟨?_, ?_, by omega, ?_⟩, fun _ => inside,
      fun _ hd => absurd hd noLarge⟩, ?_, ?_⟩
    · rw [still, hm.buffer_eq]
      exact ahi
    · rw [still, hm.buffer_eq]
      exact lt.le
    · rw [still]
      exact tokenLe
    · intro _ ready
      rw [hm.tokenReady] at ready
      cases ready
    · intro hs
      obtain ⟨k, hk⟩ := h.unread hs
      refine ⟨k, ?_⟩
      rw [← hk, ← same]
      unfold unread
      rw [still, hm.buffer_eq]
  · have next : (machine max blk).again t = .fall { t with p := t.p + 1 } := if_neg herr
    rw [next]
    refine ⟨⟨hbufOk, hlt, ⟨hm.counters.1, hm.counters.2, hm.counters.3⟩, .inl ⟨?_, ?_, ?_, ?_⟩,
      fun _ => inside, fun _ hd => absurd hd noLarge⟩, ?_, ?_, hm.tokenReady, hm.done, fun _ => herr,
      ?_, ?_⟩
    · rw [cur, hm.buffer_eq]
      omega
    · rw [cur, hm.buffer_eq]
      omega
    · dsimp only
      omega
    · rw [cur]
      dsimp only
      omega
    · dsimp only
      rw [hm.pe_eq, hm.buffer_eq]
      exact hready.pe_eq
    · dsimp only
      rw [hm.buffer_eq, hbuf]
      exact h.length_eq
    · intro hs
      obtain ⟨k, hk⟩ := h.unread hs
      refine ⟨k + 1, ?_⟩
      rw [← List.drop_drop, ← hk, ← same, ← unread_step hready]
      unfold unread
      rw [cur, cursor_step, hm.buffer_eq]
    · obtain ⟨-, -, -, rest⟩ := bytesFrom_cons h.bytes.symm
      rw [rest, hm.buffer_eq, hm.p_eq, hbuf, hp]

/-- The condition of `ActionOk` on every action of a byte. -/
def ActsOk (tokens strict : Bool) (max : ℤ) (blk : NewBlock) (c : UInt8) (s : Exec) : Prop :=
  (machine max blk).ActsOk (fun a _ t => ActionOk tokens strict max blk a t) c
    (transActions s.cs c.toNat) { s with cs := transTarg s.cs c.toNat }

theorem Loop.placed (h : Loop strict max s₀ cs s) (hph : phase s.cs ≠ .small) : CursorOk s := by
  obtain placed | ⟨-, small⟩ := h.inv.placed
  · exact placed
  · exact absurd small hph

theorem step_outside (h : Loop strict max s₀ (c :: cs) s) (running : s.p ≠ s.pe)
    (hph : readsBody (phase s.cs) = false) (ok : ActsOk tokens strict max blk c s)
    (max_ge : -2147483648 ≤ max) (max_lt : max < 2147483648) (hblk : BlockOk blk) :
    ((machine max blk).step c s).Sat (strict = false) (Loop strict max s₀ cs)
      (Exit tokens strict max s₀) := by
  have hc : c.toNat < 256 := c.toNat_lt
  have placed : CursorOk s := h.placed (by intro hs; rw [hs] at hph; cases hph)
  have ready := h.ready placed running (transTarg_lt s.cs c.toNat)
  have mid : Mid 0 { s with cs := transTarg s.cs c.toNat } { s with cs := transTarg s.cs c.toNat } :=
    h.mid placed placed.token_nonneg
  obtain ⟨htarg, pre, hpre, hacts⟩ := tables_agree h.inv.state_lt hc (h.live running)
    (by intro hb; rw [hb] at hph; cases hph)
  obtain ⟨hbody, hlist⟩ := phaseStep_outside hph c.toNat
  rw [← htarg] at hbody
  have exits : ∀ u, Exit tokens strict max { s with cs := transTarg s.cs c.toNat } u →
      Exit tokens strict max s₀ u := fun u hu => hu.trans h.length_eq h.unread
  have heads : ∀ as : List Action, (∀ a ∈ as, a ∈ headActions) → ∀ t,
      Mid 0 { s with cs := transTarg s.cs c.toNat } t →
      (machine max blk).ActsOk (fun a _ t => ActionOk tokens strict max blk a t) c as t →
      ((machine max blk).runActs c as t).Sat (strict = false)
        (Mid 0 { s with cs := transTarg s.cs c.toNat }) (Exit tokens strict max s₀) := by
    intro as has t ht okt
    refine Machine.runActs_sat _ (fun a ha t ht _ => ?_) ht okt
    exact (headAction_sat ready hbody ht (has a ha)).mono (fun _ h => h) exits
  have prefixHead : ∀ a ∈ pre, a ∈ headActions := by
    rcases hpre with rfl | ⟨-, rfl | rfl⟩ <;> decide
  refine Machine.step_sat _ (P := Mid 0 { s with cs := transTarg s.cs c.toNat }) ?_ ?_
  · change ((machine max blk).runActs c (transActions s.cs c.toNat) _).Sat _ _ _
    unfold ActsOk at ok
    rw [hacts] at ok ⊢
    rcases hlist with hheads | ⟨hdone, hlist⟩ | hlist
    · exact heads _ (by simpa [or_imp, forall_and] using ⟨prefixHead, hheads⟩) _ mid ok
    · rw [hlist] at ok ⊢
      refine Machine.runActs_append_sat _ (heads pre prefixHead _ mid) ?_ ok
      intro t ht okt
      refine Machine.runActs_cons_sat (P := Mid 0 { s with cs := transTarg s.cs c.toNat }) _
        (fun _ => ?_) ?_ okt
      · have counted : (runAction max blk c .incCount t).Sat (strict = false)
            (Mid 0 { s with cs := transTarg s.cs c.toNat })
            (Exit tokens strict max { s with cs := transTarg s.cs c.toNat }) :=
          headAction_sat ready hbody ht (by decide)
        exact counted.mono (fun _ h => h) exits
      intro u hu oku
      refine Machine.runActs_cons_sat _ (fun hok => ?_) (fun v hv _ => hv) oku
      exact (doneHeaders_sat max_ge max_lt hblk ready (htarg.trans hdone) hu hok).mono
        (fun _ h => h) exits
    · rw [hlist] at ok ⊢
      refine Machine.runActs_append_sat _ (heads pre prefixHead _ mid) ?_ ok
      intro t ht okt
      refine Machine.runActs_cons_sat _ (fun _ => ?_) (fun v hv _ => hv) okt
      exact (endStream_sat ready ht).mono (fun _ h => h) exits
  · intro t ht
    refine again_sat h ready rfl rfl ht (le_refl 0) ?_ ?_
    · intro hd
      exfalso
      rcases hd with hd | hd <;> rw [hd] at hbody <;> cases hbody
    · constructor <;> intro hd <;> rw [hd] at hbody <;> cases hbody

/-- The actions on the bytes of a chunk. -/
def dataActions : List Action := [.body, .chunkStart, .chunkSize, .chunkRead, .endStream]

theorem bodyDataActions_data : ∀ as ∈ bodyDataActions, ∀ a ∈ as, a ∈ dataActions := by decide

theorem dataAction_sat {a : Action} (ha : a ∈ dataActions) (ready : Ready strict max s)
    (hph : phase s.cs = .data ∨ phase s.cs = .bodyData) (ht : Mid s.buffer.afterHeadersIndex s t)
    (ok : ActionOk tokens strict max blk a t) :
    (runAction max blk c a t).Sat (strict = false) (Mid s.buffer.afterHeadersIndex s)
      (Exit tokens strict max s) := by
  have plain : ∀ a ∈ plainActions, (runAction max blk c a t).Sat (strict = false)
      (Mid s.buffer.afterHeadersIndex s) (Exit tokens strict max s) :=
    fun a ha => plainAction_sat ready ready.ahi_le ht ha
  simp only [dataActions, List.mem_cons, List.not_mem_nil, or_false] at ha
  rcases ha with rfl | rfl | rfl | rfl | rfl
  · exact plain .body (by decide)
  · exact plain .chunkStart (by decide)
  · exact plain .chunkSize (by decide)
  · exact chunkRead_sat ready hph ht ok
  · exact endStream_sat ready ht

theorem dataActs_sat {as : List Action} (has : ∀ a ∈ as, a ∈ dataActions)
    (ready : Ready strict max s) (hph : phase s.cs = .data ∨ phase s.cs = .bodyData)
    (ht : Mid s.buffer.afterHeadersIndex s t)
    (ok : (machine max blk).ActsOk (fun a _ t => ActionOk tokens strict max blk a t) c as t) :
    ((machine max blk).runActs c as t).Sat (strict = false)
      (Mid s.buffer.afterHeadersIndex s) (Exit tokens strict max s) :=
  Machine.runActs_sat _ (fun a ha _ ht okt => dataAction_sat (has a ha) ready hph ht okt) ht ok

theorem dataByte (lt : s.cs < 98) (live : s.cs ≠ hshHttpError)
    (hph : phase s.cs = .dataFirst ∨ phase s.cs = .data ∨ phase s.cs = .bodyDataFirst ∨
      phase s.cs = .bodyData) :
    (phase (transTarg s.cs c.toNat) = .data ∨ phase (transTarg s.cs c.toNat) = .bodyData) ∧
      ((phase s.cs = .data ∨ phase s.cs = .bodyData) ∧
          (∀ a ∈ transActions s.cs c.toNat, a ∈ dataActions) ∨
        transActions s.cs c.toNat = [.body, .chunkRead]) := by
  have hc : c.toNat < 256 := c.toNat_lt
  by_cases hb : phase s.cs = .bodyData
  · obtain ⟨htarg, hacts⟩ := bodyData_agree lt hc hb
    exact ⟨.inr htarg, .inl ⟨.inr hb, bodyDataActions_data _ hacts⟩⟩
  have htarg := (tables_agree lt hc live hb).1
  have hacts := tables_agree_exact lt hc live hb
    (by rcases hph with h | h | h | h <;> rw [h] <;> decide)
  rcases hph with h | h | h | h
  · rw [h] at htarg hacts
    exact ⟨.inl htarg, .inr hacts⟩
  · rw [h] at htarg hacts
    refine ⟨.inl htarg, .inl ⟨.inl h, ?_⟩⟩
    rw [hacts]
    change ∀ a ∈ [Action.chunkRead], a ∈ dataActions
    decide
  · rw [h] at htarg hacts
    exact ⟨.inr htarg, .inr hacts⟩
  · exact absurd h hb

/-- Where the actions on a byte of a chunk find the chunk's start: it is there already, or `body` puts it
    at the cursor. -/
theorem Loop.data_mid (h : Loop strict max s₀ (c :: cs) s) (running : s.p ≠ s.pe)
    (hph : phase s.cs = .dataFirst ∨ phase s.cs = .data ∨ phase s.cs = .bodyDataFirst ∨
      phase s.cs = .bodyData) :
    Ready strict max { s with cs := transTarg s.cs c.toNat } ∧
      (phase (transTarg s.cs c.toNat) = .data ∨ phase (transTarg s.cs c.toNat) = .bodyData) ∧
      ((∀ a ∈ transActions s.cs c.toNat, a ∈ dataActions) ∧
          Mid s.buffer.afterHeadersIndex { s with cs := transTarg s.cs c.toNat }
            { s with cs := transTarg s.cs c.toNat } ∨
        transActions s.cs c.toNat = [.body, .chunkRead] ∧
          Mid s.buffer.afterHeadersIndex { s with cs := transTarg s.cs c.toNat }
            (body { s with cs := transTarg s.cs c.toNat })) := by
  have placed : CursorOk s :=
    h.placed (by intro hs; rw [hs] at hph; rcases hph with hd | hd | hd | hd <;> cases hd)
  have ready := h.ready placed running (transTarg_lt s.cs c.toNat)
  obtain ⟨htarg, hacts⟩ := dataByte (c := c) h.inv.state_lt (h.live running) hph
  refine ⟨ready, htarg, ?_⟩
  rcases hacts with ⟨hdata, hacts⟩ | hacts
  · exact .inl ⟨hacts, h.mid placed (h.inv.data h.done hdata)⟩
  · have mid : Mid 0 { s with cs := transTarg s.cs c.toNat } { s with cs := transTarg s.cs c.toNat } :=
      h.mid placed placed.token_nonneg
    have index := wrap32_cursor ready mid
    exact .inr ⟨hacts, rfl, rfl, rfl, rfl, ⟨mid.counters.1, mid.counters.2, mid.counters.3⟩,
      ready.ahi_le.trans_eq index.symm, index.le, mid.tokenReady, mid.done⟩

theorem step_data (h : Loop strict max s₀ (c :: cs) s) (running : s.p ≠ s.pe)
    (hph : phase s.cs = .dataFirst ∨ phase s.cs = .data ∨ phase s.cs = .bodyDataFirst ∨
      phase s.cs = .bodyData) (ok : ActsOk tokens strict max blk c s) :
    ((machine max blk).step c s).Sat (strict = false) (Loop strict max s₀ cs)
      (Exit tokens strict max s₀) := by
  obtain ⟨ready, htarg, hacts⟩ := h.data_mid running hph
  have acts : ((machine max blk).runActs c (transActions s.cs c.toNat)
      { s with cs := transTarg s.cs c.toNat }).Sat (strict = false)
        (Mid s.buffer.afterHeadersIndex { s with cs := transTarg s.cs c.toNat })
        (Exit tokens strict max { s with cs := transTarg s.cs c.toNat }) := by
    rcases hacts with ⟨hacts, mid⟩ | ⟨hacts, mid⟩
    · exact dataActs_sat hacts ready htarg mid ok
    · unfold ActsOk at ok
      rw [hacts] at ok ⊢
      exact dataActs_sat (show ∀ a ∈ [Action.chunkRead], a ∈ dataActions by decide) ready htarg mid ok.2
  refine Machine.step_sat _ (acts.mono (fun _ h => h)
    (fun u hu => Exit.trans hu h.length_eq h.unread)) ?_
  intro t ht
  refine again_sat h ready rfl rfl ht h.inv.buffer.ahi_nonneg (fun _ => le_refl _) ?_
  constructor <;> intro hd <;> rcases htarg with ht | ht <;>
    rw [show phase (transTarg s.cs c.toNat) = _ from hd] at ht <;> cases ht

theorem step_small (h : Loop strict max s₀ (c :: cs) s) (running : s.p ≠ s.pe)
    (hph : phase s.cs = .small ∨ phase s.cs = .smallRest) (ok : ActsOk tokens strict max blk c s) :
    ((machine max blk).step c s).Sat (strict = false) (Loop strict max s₀ cs)
      (Exit tokens strict max s₀) := by
  have hc : c.toNat < 256 := c.toNat_lt
  have hb : phase s.cs ≠ .bodyData := by rcases hph with h | h <;> rw [h] <;> decide
  have htarg := (tables_agree h.inv.state_lt hc (h.live running) hb).1
  have hacts := tables_agree_exact h.inv.state_lt hc (h.live running) hb
    (by rcases hph with h | h <;> rw [h] <;> decide)
  have lt := transTarg_lt s.cs c.toNat
  unfold ActsOk at ok
  refine Machine.step_sat (P := fun _ => False) _ ?_ (fun _ hf => hf.elim)
  change ((machine max blk).runActs c (transActions s.cs c.toNat) _).Sat _ _ _
  have exits : ∀ u, Exit tokens strict max { s with cs := transTarg s.cs c.toNat } u →
      Exit tokens strict max s₀ u := fun u hu => hu.trans h.length_eq h.unread
  have small : ∀ t, t = { s with cs := transTarg s.cs c.toNat } ∨
      t = body { s with cs := transTarg s.cs c.toNat } → phase (transTarg s.cs c.toNat) = .smallRest →
      ActionOk tokens strict max blk .smallBodyRead t →
      (smallBodyRead t).Sat (strict = false) (fun _ => False) (Exit tokens strict max s₀) := by
    rintro t (rfl | rfl) htarg hok
    all_goals
      have read := smallBodyRead_sat (E := strict = false) (F := fun _ => False) hok
        (s := { s with cs := transTarg s.cs c.toNat }) h.inv.buffer htarg lt
        ⟨h.inv.counters.1, h.inv.counters.2, h.inv.counters.3⟩ rfl h.pe_eq h.tokenReady
      exact read.mono (fun _ h => h) exits
  rcases hph with h' | h' <;> rw [h'] at htarg hacts <;> rw [hacts] at ok ⊢
  · refine Machine.runActs_cons_sat (P := (· = body { s with cs := transTarg s.cs c.toNat })) _
      (fun _ => rfl) (fun t ht okt => ?_) ok
    refine Machine.runActs_cons_sat (P := fun _ => False) _ (fun hok => ?_) (fun v hv _ => hv) okt
    exact small t (.inr ht) htarg hok
  · refine Machine.runActs_cons_sat (P := fun _ => False) _ (fun hok => ?_) (fun v hv _ => hv) ok
    exact small _ (.inl rfl) htarg hok

theorem step_large (h : Loop strict max s₀ (c :: cs) s) (running : s.p ≠ s.pe)
    (hph : phase s.cs = .large ∨ phase s.cs = .largeRest) (ok : ActsOk tokens strict max blk c s) :
    ((machine max blk).step c s).Sat (strict = false) (Loop strict max s₀ cs)
      (Exit tokens strict max s₀) := by
  have hc : c.toNat < 256 := c.toNat_lt
  have hb : phase s.cs ≠ .bodyData := by rcases hph with h | h <;> rw [h] <;> decide
  have htarg := (tables_agree h.inv.state_lt hc (h.live running) hb).1
  have hacts := tables_agree_exact h.inv.state_lt hc (h.live running) hb
    (by rcases hph with h | h <;> rw [h] <;> decide)
  have placed : CursorOk s :=
    h.placed (by intro hs; rw [hs] at hph; rcases hph with hd | hd <;> cases hd)
  have ready := h.ready placed running (transTarg_lt s.cs c.toNat)
  have mid : Mid 0 { s with cs := transTarg s.cs c.toNat } { s with cs := transTarg s.cs c.toNat } :=
    h.mid placed placed.token_nonneg
  have hcur : cursor { s with cs := transTarg s.cs c.toNat } = s.buffer.afterHeadersIndex :=
    h.inv.large h.done hph
  unfold ActsOk at ok
  refine Machine.step_sat (P := fun _ => False) _ ?_ (fun _ hf => hf.elim)
  change ((machine max blk).runActs c (transActions s.cs c.toNat) _).Sat _ _ _
  have exits : ∀ u, Exit tokens strict max { s with cs := transTarg s.cs c.toNat } u →
      Exit tokens strict max s₀ u := fun u hu => hu.trans h.length_eq h.unread
  rcases hph with h' | h' <;> rw [h'] at htarg hacts <;> rw [hacts] at ok ⊢
  · have started : (runAction max blk c .body { s with cs := transTarg s.cs c.toNat }).Sat
        (strict = false) (Mid 0 { s with cs := transTarg s.cs c.toNat }) (Exit tokens strict max s₀) :=
      plainAction_sat ready ready.cursor_bounds.1 mid (by decide)
    refine Machine.runActs_cons_sat (P := Mid 0 { s with cs := transTarg s.cs c.toNat }) _
      (fun _ => started) (fun t ht okt => ?_) ok
    refine Machine.runActs_cons_sat (P := fun _ => False) _ (fun hok => ?_) (fun v hv _ => hv) okt
    exact (largeBodyRead_sat ready hcur htarg ht hok).mono (fun _ h => h) exits
  · refine Machine.runActs_cons_sat (P := fun _ => False) _ (fun hok => ?_) (fun v hv _ => hv) ok
    exact (largeBodyRead_sat ready hcur htarg mid hok).mono (fun _ h => h) exits

/-- One byte keeps the loop invariant, or leaves the loop as it should be left. -/
theorem step_sat (h : Loop strict max s₀ (c :: cs) s) (running : s.p ≠ s.pe)
    (ok : ActsOk tokens strict max blk c s) (max_ge : -2147483648 ≤ max) (max_lt : max < 2147483648)
    (hblk : BlockOk blk) :
    ((machine max blk).step c s).Sat (strict = false) (Loop strict max s₀ cs)
      (Exit tokens strict max s₀) := by
  cases hph : phase s.cs with
  | dataFirst => exact step_data h running (.inl hph) ok
  | data => exact step_data h running (.inr (.inl hph)) ok
  | bodyDataFirst => exact step_data h running (.inr (.inr (.inl hph))) ok
  | bodyData => exact step_data h running (.inr (.inr (.inr hph))) ok
  | small => exact step_small h running (.inl hph) ok
  | smallRest => exact step_small h running (.inr hph) ok
  | large => exact step_large h running (.inl hph) ok
  | largeRest => exact step_large h running (.inr hph) ok
  | _ => exact step_outside h running (by rw [hph]; rfl) ok max_ge max_lt hblk

end Step

section Exec

variable {tokens strict : Bool} {max : ℤ} {blk : NewBlock} {parser : HshParserS} {buffer : HshBufferS}

/-- The call enters the scan loop. -/
def Scans (parser : HshParserS) (buffer : HshBufferS) : Prop :=
  ¬ (httpFlagCheck parser.flags flagDone ∨ parser.sequenceId = buffer.sequenceId) ∧
    ¬ (buffer.index ≠ buffer.length ∧ parser.state = hshHttpError)

instance : Decidable (Scans parser buffer) := inferInstanceAs (Decidable (_ ∧ _))

/-- Every action that the call runs meets `C`, in a step that meets `B`. -/
def ExecOk (B : UInt8 → Exec → Prop) (C : ParserTables.Action → UInt8 → Exec → Prop) (max : ℤ)
    (blk : NewBlock) (parser : HshParserS) (buffer : HshBufferS) : Prop :=
  Scans parser buffer → (machine max blk).ScanOk B C
    (bytesFrom buffer (buffer.buf + buffer.index)) (enter parser buffer)

instance (B : UInt8 → Exec → Prop) (C : ParserTables.Action → UInt8 → Exec → Prop)
    [∀ c s, Decidable (B c s)] [∀ a c s, Decidable (C a c s)] :
    Decidable (ExecOk B C max blk parser buffer) :=
  inferInstanceAs (Decidable (_ → _))

theorem ExecOk.mono {B B' : UInt8 → Exec → Prop} {C C' : ParserTables.Action → UInt8 → Exec → Prop}
    (hB : ∀ c s, B c s → B' c s) (hC : ∀ a c s, C a c s → C' a c s)
    (ok : ExecOk B C max blk parser buffer) : ExecOk B' C' max blk parser buffer :=
  fun scans => Machine.scanOk_mono _ hB hC (ok scans)

structure Rest (strict : Bool) (max : ℤ) (parser : HshParserS) (buffer : HshBufferS) : Prop where
  inv : Inv strict max (enter parser buffer)
  tokenReady : httpFlagCheck parser.flags flagTokenReady = false

/-- The received bytes that the parser has not consumed. -/
def unconsumed (buffer : HshBufferS) : List UInt8 :=
  slice buffer.data buffer.index (buffer.length - buffer.index).toNat

theorem cursor_enter : cursor (enter parser buffer) = buffer.index := by
  unfold cursor enter
  ring

variable (parser) in
theorem unread_enter : unread (enter parser buffer) = unconsumed buffer := by
  rw [unread, cursor_enter]
  rfl

theorem leave_inv {t : Exec} (h : Inv strict max t) (flags : BitVec 8) (sequenceId : ℤ)
    (done : httpFlagCheck flags flagDone = httpFlagCheck t.parser.flags flagDone) :
    let buffer : HshBufferS := { t.buffer with index := wrap32 (t.p - t.buffer.buf) }
    Inv strict max
        (enter { t.parser with state := t.cs, flags := flags, sequenceId := sequenceId } buffer) ∧
      (strict = true → buffer.index = cursor t ∧ unconsumed buffer = unread t) := by
  intro buffer
  have ahi := h.buffer.ahi_nonneg
  have lt := h.buffer.length_lt
  have cur : cursor (enter { t.parser with state := t.cs, flags := flags, sequenceId := sequenceId }
      buffer) = buffer.index := cursor_enter
  have index : CursorOk t → buffer.index = cursor t := by
    intro placed
    have := placed.ahi_le
    have := placed.le_length
    exact wrap32_eq (by unfold cursor at *; omega) (by unfold cursor at *; omega)
  have hbuf : BufferOk strict max buffer :=
    ⟨h.buffer.buf_pos, h.buffer.buf_lt, ahi, h.buffer.ahi_le, lt, h.buffer.capacity_lt, h.buffer.held⟩
  refine ⟨⟨hbuf, h.state_lt, ⟨h.counters.1, h.counters.2, h.counters.3⟩, ?_, ?_, ?_⟩, ?_⟩
  · refine h.placed.imp ?_ id
    intro placed
    have hindex := index placed
    refine ⟨?_, ?_, placed.token_nonneg, ?_⟩
    · rw [cur, hindex]
      exact placed.ahi_le
    · rw [cur, hindex]
      exact placed.le_length
    · rw [cur, hindex]
      exact placed.token_le
  · intro running hd
    exact h.data (done ▸ running) hd
  · intro running hd
    have hlarge := h.large (done ▸ running) hd
    have placed : CursorOk t := by
      refine h.placed.resolve_right ?_
      rintro ⟨-, small⟩
      change phase t.cs = .large ∨ phase t.cs = .largeRest at hd
      rw [small] at hd
      rcases hd with hd | hd <;> cases hd
    rw [cur, index placed]
    exact hlarge
  · intro hs
    have placed : CursorOk t := by
      refine h.placed.resolve_right ?_
      rintro ⟨hf, -⟩
      rw [hs] at hf
      cases hf
    refine ⟨index placed, ?_⟩
    rw [unconsumed, index placed]
    rfl

theorem enter_loop (h : Rest strict max parser buffer) (scans : Scans parser buffer) :
    Loop strict max (enter parser buffer) (bytesFrom buffer (buffer.buf + buffer.index))
      (enter parser buffer) := by
  refine ⟨h.inv, rfl, rfl, h.tokenReady, ?_, ?_, fun _ => ⟨0, rfl⟩, rfl⟩
  · have running := scans.1
    push Not at running
    exact eq_false_of_ne_true running.1
  · intro running herr
    refine scans.2 ⟨?_, herr⟩
    intro heq
    exact running (by unfold enter; rw [heq])

theorem scan_exit {B : UInt8 → Exec → Prop} (max_ge : -2147483648 ≤ max) (max_lt : max < 2147483648)
    (hblk : BlockOk blk) (h : Rest strict max parser buffer) (scans : Scans parser buffer)
    (ok : (machine max blk).ScanOk B (fun a _ s => ActionOk tokens strict max blk a s)
      (bytesFrom buffer (buffer.buf + buffer.index)) (enter parser buffer)) :
    ((machine max blk).scan (bytesFrom buffer (buffer.buf + buffer.index))
      (enter parser buffer)).elim (strict = false) (Exit tokens strict max (enter parser buffer)) := by
  refine Machine.scan_sat (machine max blk) (I := Loop strict max (enter parser buffer)) ?_ ?_ ?_
    (enter_loop h scans) ok
  · -- the received part ends before the block does
    intro s hs running
    by_contra hstrict
    rw [Bool.not_eq_false] at hstrict
    have placed : CursorOk s := hs.inv.placed.resolve_right (by
      rintro ⟨hf, -⟩
      rw [hf] at hstrict
      cases hstrict)
    have held := hs.inv.buffer.held hstrict
    have ahi := hs.inv.buffer.ahi_nonneg
    have lo := placed.ahi_le
    have hi := placed.le_length
    have pe := hs.pe_eq
    unfold cursor at lo hi
    have past := bytesFrom_nil hs.bytes.symm (by omega)
    have stopped : s.p = s.pe := by omega
    simp [machine, stopped] at running
  · intro cs s hs _
    refine ⟨hs.inv, ?_, hs.unread⟩
    intro _ ready
    rw [hs.tokenReady] at ready
    cases ready
  · intro c cs s hs running _ hok
    exact step_sat hs (by simpa [machine] using running) hok max_ge max_lt hblk

/-- What a call of `hsh_parser_exec` does between two calls. -/
theorem hshParserExec_spec {B : UInt8 → Exec → Prop} (max_ge : -2147483648 ≤ max)
    (max_lt : max < 2147483648) (hblk : BlockOk blk) (h : Rest strict max parser buffer)
    (ok : ExecOk B (fun a _ s => ActionOk tokens strict max blk a s) max blk parser buffer) :
    (hshParserExec max blk parser buffer).elim (strict = false) fun r =>
      Rest strict max r.2.1 r.2.2 ∧ (tokens = true → TokenOk buffer.length r.1) ∧
        (strict = true → ∃ k, unconsumed r.2.2 = (unconsumed buffer).drop k) := by
  have length : 0 ≤ buffer.length := h.inv.buffer.ahi_nonneg.trans h.inv.buffer.ahi_le
  have noToken : TokenOk buffer.length noneToken := ⟨le_refl 0, le_refl 0, by simpa [noneToken] using length⟩
  unfold hshParserExec
  split
  · exact ⟨h, fun _ => noToken, fun _ => ⟨0, rfl⟩⟩
  rename_i calls
  have exit : (writeExec max blk (enter parser buffer)).elim (strict = false)
      (Exit tokens strict max (enter parser buffer)) := by
    unfold writeExec
    split
    · refine ⟨h.inv, ?_, fun _ => ⟨0, rfl⟩⟩
      intro _ ready
      exact absurd (h.tokenReady.symm.trans ready) (by decide)
    · rename_i hlive
      have scans : Scans parser buffer := by
        refine ⟨calls, ?_⟩
        rintro ⟨hne, herr⟩
        refine hlive ⟨?_, herr⟩
        unfold enter
        intro heq
        exact hne (by simpa using heq)
      exact scan_exit max_ge max_lt hblk h scans (ok scans)
  cases hw : writeExec max blk (enter parser buffer) with
  | none =>
    rw [hw] at exit
    exact exit
  | some t =>
    rw [hw] at exit
    obtain ⟨inv, token, unreadT⟩ := exit
    have unread : strict = true → ∃ k, unread t = (unconsumed buffer).drop k := by
      intro hs
      rw [← unread_enter parser]
      exact unreadT hs
    change (some (leave t)).elim _ _
    unfold leave
    dsimp only [Option.elim]
    split
    · rename_i ready
      obtain ⟨hinv, hrest⟩ := leave_inv inv (httpFlagClear t.parser.flags flagTokenReady)
        t.parser.sequenceId (done_clear_tokenReady _)
      refine ⟨⟨hinv, tokenReady_clear _⟩, fun htokens => token htokens ready, ?_⟩
      intro hs
      obtain ⟨k, hk⟩ := unread hs
      exact ⟨k, by rw [(hrest hs).2, hk]⟩
    · rename_i silent
      obtain ⟨hinv, hrest⟩ := leave_inv inv t.parser.flags t.buffer.sequenceId rfl
      refine ⟨⟨hinv, by simpa using silent⟩, fun _ => noToken, ?_⟩
      intro hs
      obtain ⟨k, hk⟩ := unread hs
      exact ⟨k, by rw [(hrest hs).2, hk]⟩

/-- With `strict` every byte a call examines was received. -/
theorem hshParserExec_received (max_ge : -2147483648 ≤ max) (max_lt : max < 2147483648)
    (hblk : BlockOk blk) (h : Rest true max parser buffer)
    (ok : ExecOk (fun _ _ => True) (fun a _ s => ActionOk tokens true max blk a s) max blk parser
      buffer) :
    ExecOk (fun _ s => s.p < s.pe) (fun _ _ _ => True) max blk parser buffer := by
  intro scans
  refine Machine.scanOk_of_inv (machine max blk) (I := Loop true max (enter parser buffer))
    (Q := Exit tokens true max (enter parser buffer)) (E := true = false) ?_ (enter_loop h scans)
    (ok scans)
  intro c cs s hs running _ hok
  have moving : s.p ≠ s.pe := by simpa [machine] using running
  refine ⟨?_, Machine.actsOk_true _ _ _ _, step_sat hs moving hok max_ge max_lt hblk⟩
  have placed : CursorOk s := hs.inv.placed.resolve_right (by simp)
  have le := placed.le_length
  have pe := hs.pe_eq
  unfold cursor at le
  omega

end Exec

end HttpServer.ParserInvariant
