import HttpServer.KeptHeads
import HttpServer.Lib.Runs

set_option autoImplicit false

/-!
# The head while the body is read

From the `HSH_TOK_HEADERS_DONE` token on no action, no growth of the buffer and no read writes below
`after_headers_index`, whatever the client sends.
-/
namespace HttpServer.IntactHeads
open MachineInt Scanner ParserTables ParserGrammar HttpServer.Parser ReadBuffer ParserInvariant ParserRuns HeadMachine HeadGrammar BodyPhases
  ParserCalls KeptHeads

/-- The head of `b₀` is in `b`, maybe with more behind it. -/
structure Later (max : ℤ) (b₀ b : HshBufferS) : Prop where
  ok : BufferOk true max b
  ahi_le : b₀.afterHeadersIndex ≤ b.afterHeadersIndex
  same : ∀ i, 0 ≤ i → i < b₀.afterHeadersIndex → b.data i = b₀.data i

/-- In a head the cursor is behind the last one and behind `lo`, and the token begins before it. -/
structure HeadPlace (lo : ℤ) (s : Exec) : Prop where
  ahi_le : s.buffer.afterHeadersIndex ≤ cursor s
  lo_le : lo ≤ cursor s
  index_nonneg : 0 ≤ s.parser.token.index
  index_le : s.parser.token.index ≤ cursor s

structure Held (max : ℤ) (b₀ : HshBufferS) (lo : ℤ) (s : Exec) : Prop where
  later : Later max b₀ s.buffer
  head : inHead (phase s.cs) = true → HeadPlace lo s

/-- A token of a head lies before the cursor, and before the end of a head that it ends. -/
structure LinePlace (lo : ℤ) (s : Exec) : Prop where
  index_nonneg : 0 ≤ s.parser.token.index
  len_nonneg : 0 ≤ s.parser.token.len
  head : inHead (phase s.cs) = true → s.parser.token.index + s.parser.token.len ≤ cursor s
  ended : isHead (phase s.cs) = false →
    lo ≤ s.buffer.afterHeadersIndex ∧ s.parser.token.index + s.parser.token.len ≤ s.buffer.afterHeadersIndex

structure HeldExit (max : ℤ) (b₀ : HshBufferS) (lo : ℤ) (s : Exec) : Prop where
  held : Held max b₀ lo s
  token : httpFlagCheck s.parser.flags flagTokenReady = true → s.parser.token.type ≠ .body → LinePlace lo s

section Steps

variable {max lo : ℤ} {blk : NewBlock} {b₀ : HshBufferS} {s t u : Exec} {c : UInt8} {ph : Phase}

theorem Later.untouched {b b' : HshBufferS} (h : Later max b₀ b) (same : Untouched max b b') : Later max b₀ b' := by
  have le := h.ahi_le
  refine ⟨same.ok, le.trans_eq same.ahi_eq.symm, fun i nonneg lt => ?_⟩
  rw [same.same i nonneg (by omega), h.same i nonneg lt]

theorem Held.exit (h : Held max b₀ lo s) (quiet : httpFlagCheck s.parser.flags flagTokenReady = false) :
    HeldExit max b₀ lo s :=
  ⟨h, fun ready => absurd (quiet.symm.trans ready) (by decide)⟩

theorem held_behind (later : Later max b₀ s.buffer) (behind : inHead (phase s.cs) = false) : Held max b₀ lo s :=
  ⟨later, fun head => absurd (behind.symm.trans head) (by decide)⟩

theorem inHead_of_stream (stream : isStream ph = true) : inHead ph = false := by
  cases ph <;> first | rfl | cases stream

theorem body_held (call : CallInv s) (alive : s.cs ≠ hshHttpError) (behind : inHead (phase s.cs) = false)
    (held : Held max b₀ lo s) :
    ((machine max blk).step c s).Sat True (Held max b₀ lo) (HeldExit max b₀ lo) := by
  have fits := call.fits
  by_cases stream : isStream (phase s.cs) = true
  · have inv : StreamInv s := by
      refine ⟨call.state_lt, stream, call.tokenReady, fun piece => ?_⟩
      have typed : s.parser.token.type = .body ∧ s.parser.token.flags = 0 := by
        cases hp : phase s.cs <;> rw [hp] at piece fits <;> first | exact fits | cases piece
      exact ⟨typed.1, by rw [typed.2]; exact notSmall_zero⟩
    have phases : ((machine max blk).step c s).Sat True StreamInv StreamExit := stream_step inv alive
    have buffers := @stream_keeps max blk s c (Later max b₀) (fun _ h => h.ok) (fun _ _ h same => h.untouched same) inv
      alive held.later
    refine (phases.and buffers).mono (fun u hu => held_behind hu.2 (inHead_of_stream hu.1.stream)) fun u hu => ?_
    exact ⟨held_behind hu.2 (inHead_of_stream hu.1.stream), fun ready line => absurd (hu.1.ready ready).1 line⟩
  · have small : phase s.cs = .small ∨ phase s.cs = .smallRest ∧ s.parser.token.type = .body := by
      cases hp : phase s.cs <;> rw [hp] at stream behind fits <;>
        first | exact .inl rfl | exact .inr ⟨rfl, fits⟩ | exact absurd rfl stream | cases behind
    have step : ((machine max blk).step c s).Sat True (SmallInv s.buffer) (SmallExit s.buffer) :=
      small_step ⟨call.state_lt, small, call.tokenReady, rfl⟩
    have still : ∀ u : Exec, (phase u.cs = .small ∨ phase u.cs = .smallRest ∧ u.parser.token.type = .body) →
        u.buffer = s.buffer → Held max b₀ lo u := by
      intro u hu hb
      refine held_behind (hb ▸ held.later) ?_
      rcases hu with h | ⟨h, -⟩ <;> rw [h] <;> rfl
    refine step.mono (fun u hu => still u hu.small hu.buffer_eq) fun u hu => ?_
    exact ⟨still u hu.small hu.buffer_eq, fun ready line => absurd (hu.ready ready).1 line⟩

/-- The content length is a 64-bit number. -/
def Wide (s : Exec) : Prop := -9223372036854775808 ≤ s.parser.contentLength

theorem action_wide {a : Action} (h : Wide s) : (runAction max blk c a s).Sat True Wide Wide := by
  have scaled : ∀ x : ℤ, Wide (s.setContentLength (wrap64 x)) := fun x => (wrap64_bounds x).1
  cases a with
  | emitToken => exact h
  | contentLengthDigit => exact scaled _
  | incCount =>
    change (incCount s).Sat _ _ _
    unfold incCount
    dsimp only
    split <;> exact h
  | doneHeaders =>
    change (doneHeaders max blk s).Sat _ _ _
    unfold doneHeaders
    dsimp only
    split
    · exact h
    split
    · exact h
    split <;> exact h
  | chunkStart => exact (by norm_num : (-9223372036854775808 : ℤ) ≤ 0)
  | chunkSize =>
    change Wide (chunkSize c s)
    unfold chunkSize
    dsimp only
    split
    · exact scaled _
    split
    · exact scaled _
    split
    · exact scaled _
    · exact h
  | chunkRead =>
    change (chunkRead max s).Sat _ _ _
    unfold chunkRead
    dsimp only
    split
    · exact h
    split
    · split
      · trivial
      · exact h
    · exact h
  | smallBodyRead =>
    change (smallBodyRead s).Sat _ _ _
    unfold smallBodyRead
    dsimp only
    split <;> exact h
  | largeBodyRead =>
    change (largeBodyRead s).Sat _ _ _
    unfold largeBodyRead
    dsimp only
    split <;> exact h
  | _ => exact h

theorem step_wide (h : Wide s) : ((machine max blk).step c s).Sat True Wide Wide := by
  refine Machine.step_sat (P := Wide) _ ?_ fun t ht => ?_
  · exact Machine.runActs_sat _ (C := fun _ _ _ => True) (fun _ _ _ ht _ => action_wide ht) h (Machine.actsOk_true _ _ _ _)
  · rcases again_cases t with ⟨heq, -⟩ | heq <;> rw [heq] <;> exact ht

/-- The token begins at or before the byte. -/
structure Begun (s t : Exec) : Prop where
  mid : CallMid s t
  token : HeadToken t
  index_nonneg : 0 ≤ t.parser.token.index
  index_le : t.parser.token.index ≤ cursor s

structure Broken (s u : Exec) : Prop where
  buffer_eq : u.buffer = s.buffer
  p_eq : u.p = s.p + 1
  cs_eq : u.cs = s.cs
  index_nonneg : 0 ≤ u.parser.token.index
  index_le : u.parser.token.index ≤ cursor s
  token : httpFlagCheck u.parser.flags flagTokenReady = true →
    0 ≤ u.parser.token.len ∧ u.parser.token.index + u.parser.token.len ≤ cursor s

theorem line_begun {a : Action} (ha : a ∈ headLine) (lo : 0 ≤ cursor s) (lt : cursor s < 2147483647) (h : Begun s t) :
    ((machine max blk).act a c t).Sat True (Begun s) (Broken s) := by
  obtain ⟨mid, token, nonneg, le⟩ := h
  have cur : t.p - t.buffer.buf = cursor s := by rw [mid.p_eq, mid.buffer_eq]; rfl
  have quiet : httpFlagCheck t.parser.flags flagTokenReady = true →
      0 ≤ t.parser.token.len ∧ t.parser.token.index + t.parser.token.len ≤ cursor s :=
    fun ready => absurd (mid.tokenReady.symm.trans ready) (by decide)
  suffices place : ((machine max blk).act a c t).Sat True
      (fun u => 0 ≤ u.parser.token.index ∧ u.parser.token.index ≤ cursor s)
      (fun u => (0 ≤ u.parser.token.index ∧ u.parser.token.index ≤ cursor s) ∧
        (httpFlagCheck u.parser.flags flagTokenReady = true →
          0 ≤ u.parser.token.len ∧ u.parser.token.index + u.parser.token.len ≤ cursor s)) from
    ((headLine_sat ha mid token).and place).mono (fun u hu => ⟨hu.1.1, hu.1.2, hu.2.1, hu.2.2⟩)
      fun u hu => ⟨hu.1.1, hu.1.2.1, hu.1.2.2.1, hu.2.1.1, hu.2.1.2, hu.2.2⟩
  have entered : ∀ (type : HshTokenE) (limit : ℤ), 0 ≤ (hshEnterToken type limit t).parser.token.index ∧
      (hshEnterToken type limit t).parser.token.index ≤ cursor s := by
    intro type limit
    change 0 ≤ wrap32 (t.p - t.buffer.buf) ∧ wrap32 (t.p - t.buffer.buf) ≤ cursor s
    rw [cur, wrap32_eq (by omega) (by omega)]
    exact ⟨lo, le_refl _⟩
  simp only [headLine, List.mem_cons, List.not_mem_nil, or_false] at ha
  rcases ha with rfl | rfl | rfl | rfl | rfl | rfl | rfl | rfl | rfl | rfl | rfl
  · exact entered .method 32
  · exact entered .target 1024
  · exact entered .version 16
  · exact entered .headerKey 256
  · exact entered .headerValue 4096
  · exact ⟨nonneg, le⟩
  · exact ⟨nonneg, le⟩
  · exact ⟨nonneg, le⟩
  · change (incCount t).Sat _ _ _
    unfold incCount
    dsimp only
    split
    · exact ⟨⟨nonneg, le⟩, quiet⟩
    · exact ⟨nonneg, le⟩
  · refine ⟨⟨nonneg, le⟩, fun _ => ?_⟩
    change 0 ≤ wrap32 (t.p - (t.buffer.buf + t.parser.token.index)) ∧
      t.parser.token.index + wrap32 (t.p - (t.buffer.buf + t.parser.token.index)) ≤ cursor s
    rw [show t.p - (t.buffer.buf + t.parser.token.index) = cursor s - t.parser.token.index by omega,
      wrap32_eq (by omega) (by omega)]
    omega
  · exact ⟨⟨nonneg, le⟩, quiet⟩

theorem line_quiet {a : Action} (ha : a ∈ headLine) (other : a ≠ .emitToken)
    (quiet : httpFlagCheck t.parser.flags flagTokenReady = false) : ((machine max blk).act a c t).Sat True
      (fun u => httpFlagCheck u.parser.flags flagTokenReady = false)
      (fun u => httpFlagCheck u.parser.flags flagTokenReady = false) := by
  simp only [headLine, List.mem_cons, List.not_mem_nil, or_false] at ha
  rcases ha with rfl | rfl | rfl | rfl | rfl | rfl | rfl | rfl | rfl | rfl | rfl
  case inr.inr.inr.inr.inr.inr.inr.inr.inl =>
    change (incCount t).Sat _ _ _
    unfold incCount
    dsimp only
    split <;> exact quiet
  case inr.inr.inr.inr.inr.inr.inl => exact (tokenReady_set_chunked _).trans quiet
  case inr.inr.inr.inr.inr.inr.inr.inr.inr.inl => exact absurd rfl other
  all_goals exact quiet

theorem lines_begun {as : List Action} (list : ∀ a ∈ as, a ∈ headLine) (nonneg : 0 ≤ cursor s) (lt : cursor s < 2147483647)
    (h : Begun s t) (wide : Wide t) : ((machine max blk).runActs c as t).Sat True (fun u => Begun s u ∧ Wide u)
      (fun u => Broken s u ∧ (Action.emitToken ∉ as → httpFlagCheck u.parser.flags flagTokenReady = false)) := by
  have all := fun as (list : ∀ a ∈ as, a ∈ headLine) => Machine.runActs_sat (machine max blk) (c := c)
    (C := fun _ _ _ => True) (P := fun u => Begun s u ∧ Wide u) (Q := fun u => Broken s u ∧ Wide u)
    (fun a ha t ht _ => (line_begun (list a ha) nonneg lt ht.1).and (action_wide ht.2)) ⟨h, wide⟩
    (Machine.actsOk_true _ c as t)
  by_cases emits : Action.emitToken ∈ as
  · exact (all as list).mono (fun u hu => hu) fun u hu => ⟨hu.1, fun none => absurd emits none⟩
  · have quiet := Machine.runActs_sat (machine max blk) (c := c) (C := fun _ _ _ => True)
      (P := fun u => httpFlagCheck u.parser.flags flagTokenReady = false)
      (Q := fun u => httpFlagCheck u.parser.flags flagTokenReady = false)
      (fun a ha t ht _ => line_quiet (list a ha) (fun emit => emits (emit ▸ ha)) ht) h.mid.tokenReady
      (Machine.actsOk_true _ c as t)
    exact ((all as list).and quiet).mono (fun u hu => hu.1) fun u hu => ⟨hu.1.1, fun _ => hu.2⟩

theorem Broken.exit (held : Held max b₀ lo s) (place : HeadPlace lo s) (cs : ℕ)
    (target : isHead (phase cs) = true ∨ httpFlagCheck u.parser.flags flagTokenReady = false) (h : Broken { s with cs := cs } u) : HeldExit max b₀ lo u := by
  obtain ⟨hb, hp, hcs, nonneg, le, token⟩ := h
  have cur : cursor u = cursor s + 1 := by
    unfold cursor
    rw [hp, hb]
    dsimp only
    ring
  have cur' : cursor { s with cs := cs } = cursor s := rfl
  have hcs' : u.cs = cs := hcs
  refine ⟨⟨hb ▸ held.later, fun _ => ⟨?_, ?_, nonneg, by omega⟩⟩, fun ready _ => ?_⟩
  · rw [hb, cur]
    have := place.ahi_le
    dsimp only
    omega
  · have := place.lo_le
    omega
  · obtain ⟨len, fits⟩ := token ready
    refine ⟨nonneg, len, fun _ => by omega, fun ended => ?_⟩
    rw [hcs'] at ended
    rcases target with head | quiet
    · exact absurd (head.symm.trans ended) (by decide)
    · exact absurd (quiet.symm.trans ready) (by decide)

theorem doneHeaders_held (max_lt : max < 2147483648) (hblk : BlockOk blk) (held : Held max b₀ lo s) (place : HeadPlace lo s)
    (lt : cursor s < s.buffer.length) (wide : Wide t) (mid : CallMid { s with cs := transTarg s.cs c.toNat } t) :
    (doneHeaders max blk t).Sat True (fun _ => False) (HeldExit max b₀ lo) := by
  obtain ⟨hb, hp, -, -, -, -⟩ := mid
  obtain ⟨ahi_le, lo_le, -, -⟩ := place
  obtain ⟨⟨ok, later, same⟩, -⟩ := held
  obtain ⟨pos, buf_lt, nonneg, -, length_lt, cap, bounds⟩ := id ok
  obtain ⟨length_le, cap_le⟩ := bounds rfl
  have hb : t.buffer = s.buffer := hb
  have cur : t.p - s.buffer.buf = cursor s := by rw [hp]; rfl
  have ahi : wrap32 (t.p - s.buffer.buf + 1) = cursor s + 1 := by
    rw [cur]
    exact wrap32_eq (by omega) (by omega)
  have next : t.p + 1 - s.buffer.buf = cursor s + 1 := by omega
  -- the buffer with its new `after_headers_index`
  have marked : Later max b₀ { s.buffer with afterHeadersIndex := cursor s + 1 } :=
    ⟨⟨pos, buf_lt, by dsimp only; omega, by dsimp only; omega, length_lt, cap, bounds⟩, by dsimp only; omega, same⟩
  have line : ∀ u : Exec, u.parser.token.index = 0 → u.parser.token.len = 0 → u.buffer.afterHeadersIndex = cursor s + 1 →
      (inHead (phase u.cs) = true → cursor u = cursor s + 1) → LinePlace lo u := by
    intro u index len ahi here
    refine ⟨index.ge, len.ge, fun head => ?_, fun _ => by omega⟩
    have := here head
    omega
  have behind : ∀ u : Exec, inHead (phase u.cs) = false → Later max b₀ u.buffer → u.parser.token.index = 0 →
      u.parser.token.len = 0 → u.buffer.afterHeadersIndex = cursor s + 1 → HeldExit max b₀ lo u := by
    intro u out kept index len ahi
    exact ⟨held_behind kept out, fun _ _ => line u index len ahi fun head => absurd (out.symm.trans head) (by decide)⟩
  unfold doneHeaders
  dsimp only
  rw [hb, ahi]
  split
  · -- a chunked body
    exact behind _ (show inHead (phase hshHttpEnChunkedBody) = false by decide) marked rfl rfl rfl
  split
  · -- no body
    refine ⟨⟨marked, fun _ => ⟨next.ge, ?_, le_refl 0, ?_⟩⟩, fun _ _ => line _ rfl rfl rfl fun _ => next⟩
    · change lo ≤ t.p + 1 - s.buffer.buf
      omega
    · change 0 ≤ t.p + 1 - s.buffer.buf
      omega
  split
  · -- a large body
    exact behind _ (show inHead (phase hshHttpEnLargeBody) = false by decide) marked rfl rfl rfl
  · -- a small body, possibly in a new block
    rename_i fits
    split
    · rename_i grows
      refine behind _ (show inHead (phase hshHttpEnSmallBody) = false by decide) ?_ rfl rfl rfl
      change ¬ t.parser.contentLength > wrap32 (max - (cursor s + 1)) at fits
      change wrap64 (t.parser.contentLength + (cursor s + 1)) > s.buffer.capacity at grows
      unfold Wide at wide
      rw [wrap32_eq (by omega) (by omega)] at fits
      rw [wrap64_eq (by omega) (by omega)] at grows
      have size : wrap32 (t.parser.contentLength + (cursor s + 1)) = t.parser.contentLength + (cursor s + 1) :=
        wrap32_eq (by omega) (by omega)
      refine ⟨⟨hblk.1, hblk.2, ?_, ?_, length_lt, ?_, fun _ => ?_⟩, ?_, fun i lo hi => ?_⟩
      · change 0 ≤ cursor s + 1
        omega
      · change cursor s + 1 ≤ s.buffer.length
        omega
      · change wrap32 (t.parser.contentLength + (cursor s + 1)) < 2147483648
        omega
      · change s.buffer.length ≤ wrap32 (t.parser.contentLength + (cursor s + 1)) ∧
          wrap32 (t.parser.contentLength + (cursor s + 1)) ≤ max
        omega
      · change b₀.afterHeadersIndex ≤ cursor s + 1
        omega
      · refine Eq.trans ?_ (same i lo hi)
        change (if 0 ≤ i ∧ i < s.buffer.capacity ∧ i < t.parser.contentLength + (cursor s + 1) then s.buffer.data i
          else blk.junk i) = _
        rw [if_pos (by omega)]
    · exact behind _ (show inHead (phase hshHttpEnSmallBody) = false by decide) marked rfl rfl rfl

theorem phaseStep_line (head : inHead ph = true) (n : ℕ) :
    ((phaseStep ph n).1 = .error ∧ (phaseStep ph n).2 = [.error]) ∨
      phaseStep ph n = (.headersDone, [.incCount, .doneHeaders]) ∨
      isHead (phaseStep ph n).1 = true ∧ ∀ a ∈ (phaseStep ph n).2, a ∈ headLine := by
  cases ph <;> simp only [inHead, isHead, Bool.false_or, Bool.true_or, decide_eq_true_eq, reduceCtorEq] at head <;>
    simp only [phaseStep, keyStep, phaseError, headLine] <;> (repeat' split) <;> simp [isHead]

theorem head_held (max_lt : max < 2147483648) (hblk : BlockOk blk) (call : CallInv s) (running : s.p ≠ s.pe)
    (alive : s.cs ≠ hshHttpError) (head : inHead (phase s.cs) = true) (wide : Wide s) (held : Held max b₀ lo s) :
    ((machine max blk).step c s).Sat True (Held max b₀ lo) (HeldExit max b₀ lo) := by
  have data : phase s.cs ≠ .bodyData := by
    intro hd
    rw [hd] at head
    cases head
  obtain ⟨htarg, pre, hpre, hacts⟩ := tables_agree call.state_lt c.toNat_lt alive data
  obtain ⟨nonneg, lt⟩ := call.lt_length running (.inl head)
  have length_lt := call.length_lt
  have token : HeadToken s := (tokenFits_head head).1 call.fits
  have place := held.head head
  have begun : Begun { s with cs := transTarg s.cs c.toNat } { s with cs := transTarg s.cs c.toNat } :=
    ⟨⟨rfl, rfl, rfl, rfl, call.tokenReady, call.done⟩, token, place.index_nonneg, place.index_le⟩
  have sides : (∀ a ∈ pre, a ∈ headLine) ∧ Action.emitToken ∉ pre := by
    rcases hpre with rfl | ⟨-, rfl | rfl⟩ <;> decide
  have lines := fun as (list : ∀ a ∈ as, a ∈ headLine) => @lines_begun max blk { s with cs := transTarg s.cs c.toNat } _ c
    as list nonneg (show cursor s < 2147483647 by omega) begun wide
  -- behind the last action the cursor takes the byte
  have again : ∀ u, Begun { s with cs := transTarg s.cs c.toNat } u ∧ Wide u →
      ((machine max blk).again u).Sat True (Held max b₀ lo) (HeldExit max b₀ lo) := by
    rintro u ⟨⟨mid, -, index, le⟩, -⟩
    have hb : u.buffer = s.buffer := mid.buffer_eq
    have hp : u.p = s.p := mid.p_eq
    have le : u.parser.token.index ≤ cursor s := le
    have ahi := place.ahi_le
    have before := place.lo_le
    rcases again_cases u with ⟨heq, err⟩ | heq
    · rw [heq]
      exact (held_behind (hb ▸ held.later) (by rw [err]; rfl)).exit mid.tokenReady
    · rw [heq]
      have cur : cursor { u with p := u.p + 1 } = cursor s + 1 := by
        unfold cursor
        rw [hb]
        dsimp only
        rw [hp]
        ring
      refine ⟨hb ▸ held.later, fun _ => ⟨?_, by omega, index, ?_⟩⟩
      · rw [cur, show ({ u with p := u.p + 1 } : Exec).buffer = s.buffer from hb]
        omega
      · rw [cur]
        change u.parser.token.index ≤ _
        omega
  rcases phaseStep_line head c.toNat with ⟨hph, list⟩ | done | ⟨hph, list⟩
  · refine Machine.step_sat _ ?_ again
    change ((machine max blk).runActs c (transActions s.cs c.toNat) _).Sat _ _ _
    rw [hacts, list]
    refine (lines (pre ++ [.error]) fun a ha => ?_).mono (fun u hu => hu) fun u hu => ?_
    · rcases List.mem_append.1 ha with ha | ha
      · exact sides.1 a ha
      · rw [List.mem_singleton.1 ha]
        decide
    · exact hu.1.exit held place _ (.inr (hu.2 (by simp [sides.2])))
  · refine Machine.step_sat (P := fun _ => False) _ ?_ fun _ hf => hf.elim
    change ((machine max blk).runActs c (transActions s.cs c.toNat) _).Sat _ _ _
    rw [hacts, done, show pre ++ [Action.incCount, .doneHeaders] = (pre ++ [.incCount]) ++ [.doneHeaders] by simp]
    refine Machine.runActs_append_sat (C := fun _ _ _ => True)
      (P := fun u => Begun { s with cs := transTarg s.cs c.toNat } u ∧ Wide u) _ (fun _ => ?_) (fun u hu _ => ?_)
      (Machine.actsOk_true _ _ _ _)
    · refine (lines (pre ++ [.incCount]) fun a ha => ?_).mono (fun u hu => hu) fun u hu => ?_
      · rcases List.mem_append.1 ha with ha | ha
        · exact sides.1 a ha
        · rw [List.mem_singleton.1 ha]
          decide
      · exact hu.1.exit held place _ (.inr (hu.2 (by simp [sides.2])))
    · have sat := doneHeaders_held max_lt hblk held place lt hu.2 hu.1.mid
      exact Machine.runActs_cons_sat (C := fun _ _ _ => True) (P := fun _ => False) _ (fun _ => sat)
        (fun _ hf _ => hf.elim) (Machine.actsOk_true _ _ _ _)
  · rw [← htarg] at hph
    refine Machine.step_sat _ ?_ again
    change ((machine max blk).runActs c (transActions s.cs c.toNat) _).Sat _ _ _
    rw [hacts]
    refine (lines _ fun a ha => ?_).mono (fun u hu => hu) fun u hu => hu.1.exit held place _ (.inl hph)
    rcases List.mem_append.1 ha with ha | ha
    · exact sides.1 a ha
    · exact list a ha

end Steps

section Calls

variable {initial max : ℤ} {blk : NewBlock} {input : List UInt8} {tokens : List HshTokenS} {token : HshTokenS}
  {parser parser' parser'' : HshParserS} {buffer buffer' buffer'' : HshBufferS}

/-- The bytes of a token lie before `stop`. -/
def Before (stop : ℤ) (token : HshTokenS) : Prop := 0 ≤ token.index ∧ 0 ≤ token.len ∧ token.index + token.len ≤ stop

/-- The lines of a head lie before the cursor. -/
structure InLines (tokens : List HshTokenS) (parser : HshParserS) (buffer : HshBufferS) : Prop where
  ahi_le : buffer.afterHeadersIndex ≤ buffer.index
  index_nonneg : 0 ≤ parser.token.index
  index_le : parser.token.index ≤ buffer.index
  lines : ∀ t ∈ tokens, t.type ≠ .body → Before buffer.index t

structure Whole (max : ℤ) (tokens : List HshTokenS) (parser : HshParserS) (buffer : HshBufferS) : Prop where
  call : CallRest parser buffer
  ok : BufferOk true max buffer
  wide : -9223372036854775808 ≤ parser.contentLength
  head : inHead (phase parser.state) = true → InLines tokens parser buffer

/-- Where a call starts in a head. Behind the head it is beyond every cursor, since the parser does not go back. -/
def headStart (parser : HshParserS) (buffer : HshBufferS) : ℤ :=
  if inHead (phase parser.state) then buffer.index else 2147483648

theorem Later.refl (ok : BufferOk true max buffer) : Later max buffer buffer := ⟨ok, le_refl _, fun _ _ _ => rfl⟩

theorem Later.trans (h : Later max buffer buffer') (h' : Later max buffer' buffer'') : Later max buffer buffer'' := by
  have le := h.ahi_le
  exact ⟨h'.ok, le.trans h'.ahi_le, fun i lo hi => (h'.same i lo (by omega)).trans (h.same i lo hi)⟩

theorem Whole.held (h : Whole max tokens parser buffer) : Held max buffer (headStart parser buffer) (enter parser buffer) := by
  refine ⟨.refl h.ok, fun head => ?_⟩
  obtain ⟨ahi, nonneg, le, -⟩ := h.head head
  have start : headStart parser buffer = buffer.index := if_pos head
  rw [start]
  constructor
  · rw [cursor_enter]
    exact ahi
  · rw [cursor_enter]
  · exact nonneg
  · rw [cursor_enter]
    exact le

theorem Whole.loop (h : Whole max tokens parser buffer) (hblk : BlockOk blk) (max_lt : max < 2147483648)
    (hr : hshParserExec max blk parser buffer = some (token, parser', buffer')) :
    (token, parser', buffer') = (noneToken, parser, buffer) ∨ ∃ t, (CallExit t ∧ Wide t ∧
      HeldExit max buffer (headStart parser buffer) t) ∧ (token, parser', buffer') = leave t := by
  by_cases finished : httpFlagCheck parser.flags flagDone = true
  · unfold hshParserExec at hr
    rw [if_pos (.inl finished)] at hr
    exact .inl (Option.some.inj hr).symm
  refine hshParserExec_sat (I := fun s => CallInv s ∧ Wide s ∧ Held max buffer (headStart parser buffer) s)
    ⟨h.call.inv (eq_false_of_ne_true finished), h.wide, h.held⟩ (fun s hs => ⟨hs.1.exit, hs.2.1, hs.2.2.exit hs.1.tokenReady⟩)
    (fun c s hs running alive _ => (call_step hs.1 running alive hblk).and ((step_wide hs.2.1).and ?_)) execOk_any hr
  by_cases head : inHead (phase s.cs) = true
  · exact head_held max_lt hblk hs.1 running alive head hs.2.1 hs.2.2
  · exact body_held hs.1 alive (eq_false_of_ne_true head) hs.2.2

theorem mem_emitted {t : HshTokenS} (mem : t ∈ emitted token) : token.type ≠ .none ∧ t = token := by
  unfold emitted at mem
  split at mem
  · cases mem
  · exact ⟨‹_›, List.mem_singleton.1 mem⟩

theorem Whole.exec (h : Whole max tokens parser buffer) (hblk : BlockOk blk) (max_lt : max < 2147483648)
    (hr : hshParserExec max blk parser buffer = some (token, parser', buffer')) :
    Whole max (tokens ++ emitted token) parser' buffer' ∧ Later max buffer buffer' ∧
      (token.type = .headersDone → isHead (phase parser'.state) = false →
        ∀ t ∈ tokens ++ emitted token, t.type ≠ .body → Before buffer'.afterHeadersIndex t) := by
  have call := (hshParserExec_call h.call hblk hr).1
  rcases h.loop hblk max_lt hr with heq | ⟨t, ⟨exit, wide, held⟩, heq⟩
  · cases heq
    have none : emitted noneToken = [] := rfl
    rw [none, List.append_nil]
    exact ⟨h, .refl h.ok, nofun⟩
  obtain ⟨⟨later, place⟩, line⟩ := held
  have bound : t.buffer.afterHeadersIndex < 2147483648 := later.ok.ahi_le.trans_lt later.ok.length_lt
  -- a call that starts behind a head does not come to one
  have started : headStart parser buffer < 2147483648 →
      headStart parser buffer = buffer.index ∧ ∀ t ∈ tokens, t.type ≠ .body → Before buffer.index t := by
    intro lt
    unfold headStart at lt ⊢
    split at lt
    · rename_i head
      exact ⟨if_pos head, (h.head head).lines⟩
    · omega
  have fields : token.type ≠ .none → httpFlagCheck t.parser.flags flagTokenReady = true ∧ token = t.parser.token := by
    intro some
    rcases leave_cases t with ⟨ready, hl⟩ | ⟨-, hl⟩ <;> rw [hl] at heq <;> cases heq
    · exact ⟨ready, rfl⟩
    · exact absurd rfl some
  have state : parser'.state = t.cs ∧ parser'.token = t.parser.token ∧ parser'.contentLength = t.parser.contentLength ∧
      buffer' = { t.buffer with index := wrap32 (t.p - t.buffer.buf) } := by
    rcases leave_cases t with ⟨-, hl⟩ | ⟨-, hl⟩ <;> rw [hl] at heq <;> cases heq <;> exact ⟨rfl, rfl, rfl, rfl⟩
  obtain ⟨hcs, htoken, hlength, rfl⟩ := state
  refine ⟨⟨call, bufferOk_index later.ok _, hlength ▸ wide, fun head => ?_⟩,
    ⟨bufferOk_index later.ok _, later.ahi_le, later.same⟩, fun typed ended => ?_⟩
  · rw [hcs] at head
    obtain ⟨ahi, lo, nonneg, le⟩ := place head
    obtain ⟨cursor_nonneg, cursor_le⟩ := exit.place.inside (.inl head)
    have length_lt := exit.length_lt
    have index : wrap32 (t.p - t.buffer.buf) = cursor t := by
      unfold cursor at cursor_nonneg cursor_le ⊢
      exact wrap32_eq (by omega) (by omega)
    obtain ⟨start, lines⟩ := started (by omega)
    refine ⟨?_, htoken ▸ nonneg, ?_, fun u mem typed => ?_⟩
    · change _ ≤ wrap32 (t.p - t.buffer.buf)
      rw [index]
      exact ahi
    · change _ ≤ wrap32 (t.p - t.buffer.buf)
      rw [index, htoken]
      exact le
    · change Before (wrap32 (t.p - t.buffer.buf)) u
      rw [index]
      rcases List.mem_append.1 mem with old | new
      · obtain ⟨index_nonneg, len, before⟩ := lines u old typed
        exact ⟨index_nonneg, len, by omega⟩
      · obtain ⟨some, rfl⟩ := mem_emitted new
        obtain ⟨ready, rfl⟩ := fields some
        have here := line ready typed
        exact ⟨here.index_nonneg, here.len_nonneg, here.head head⟩
  · have some : token.type ≠ .none := by rw [typed]; decide
    obtain ⟨ready, same⟩ := fields some
    rw [hcs] at ended
    have here := line ready (by rw [← same, typed]; decide)
    obtain ⟨lo, before⟩ := here.ended ended
    obtain ⟨start, lines⟩ := started (by omega)
    intro u mem typed
    rcases List.mem_append.1 mem with old | new
    · obtain ⟨index_nonneg, len, before⟩ := lines u old typed
      exact ⟨index_nonneg, len, by change _ ≤ t.buffer.afterHeadersIndex; omega⟩
    · rw [(mem_emitted new).2, same]
      exact ⟨here.index_nonneg, here.len_nonneg, before⟩

theorem Whole.read {calls : List ReadCall} {memused : ℤ} {r : ReadReturn} (h : Whole max tokens parser buffer)
    (max_ge : -2147483648 ≤ max) (max_lt : max < 2147483648) (hblk : ∀ call ∈ calls, BlockOk call.blk)
    (hr : hsReadIntoBuffer max calls buffer memused = some r) :
    Whole max tokens parser r.buffer ∧ Later max buffer r.buffer := by
  obtain ⟨ok, appended, -⟩ := hsReadIntoBuffer_spec max_ge max_lt hblk h.ok hr
  have le := h.ok.ahi_le
  refine ⟨⟨(h.call.read max_ge max_lt hblk hr).1, ok, h.wide, fun head => ?_⟩, ok, appended.ahi_eq.ge, fun i lo hi =>
    appended.old rfl i lo (by omega)⟩
  obtain ⟨ahi, nonneg, index_le, lines⟩ := h.head head
  rw [← appended.index_eq] at ahi index_le lines
  exact ⟨appended.ahi_eq.trans_le ahi, nonneg, index_le, lines⟩

theorem whole_run {ok : HshParserS → HshBufferS → NewBlock → Prop} (initial_ge : 0 ≤ initial) (initial_le : initial ≤ max)
    (max_lt : max < 2147483648) (run : ParserRun ok initial max input tokens parser buffer) : Whole max tokens parser buffer := by
  induction run with
  | init memused hblk =>
    refine ⟨callRest_init hblk (by omega), ⟨hblk.1, hblk.2, le_refl 0, le_refl 0, by norm_num [hsBufferInit], ?_, fun _ => ?_⟩,
      by norm_num [hshParserInit], fun _ => ⟨le_refl 0, le_refl 0, le_refl 0, nofun⟩⟩
    · change initial < 2147483648
      omega
    · exact ⟨initial_ge, initial_le⟩
  | read _ hblk hr ih => exact (ih.read (by omega) max_lt hblk hr).1
  | exec _ hblk _ hr ih => exact (ih.exec hblk max_lt hr).1

/-- More reads and calls, in any order. -/
inductive Goes (max : ℤ) (parser : HshParserS) (buffer : HshBufferS) : HshParserS → HshBufferS → Prop
  | start : Goes max parser buffer parser buffer
  | read {parser' : HshParserS} {buffer' : HshBufferS} {calls : List ReadCall} {memused : ℤ} {r : ReadReturn}
      (before : Goes max parser buffer parser' buffer') (hblk : ∀ call ∈ calls, BlockOk call.blk)
      (hr : hsReadIntoBuffer max calls buffer' memused = some r) : Goes max parser buffer parser' r.buffer
  | exec {parser' parser'' : HshParserS} {buffer' buffer'' : HshBufferS} {blk : NewBlock} {token : HshTokenS}
      (before : Goes max parser buffer parser' buffer') (hblk : BlockOk blk)
      (hr : hshParserExec max blk parser' buffer' = some (token, parser'', buffer'')) :
      Goes max parser buffer parser'' buffer''

theorem Goes.later (h : Whole max tokens parser buffer) (max_ge : -2147483648 ≤ max) (max_lt : max < 2147483648)
    (goes : Goes max parser buffer parser' buffer') :
    (∃ more, Whole max (tokens ++ more) parser' buffer') ∧ Later max buffer buffer' := by
  induction goes with
  | start => exact ⟨⟨[], by rw [List.append_nil]; exact h⟩, .refl h.ok⟩
  | read _ hblk hr ih =>
    obtain ⟨⟨more, whole⟩, later⟩ := ih
    have next := whole.read max_ge max_lt hblk hr
    exact ⟨⟨more, next.1⟩, later.trans next.2⟩
  | @exec _ _ _ _ _ token _ hblk hr ih =>
    obtain ⟨⟨more, whole⟩, later⟩ := ih
    have next := whole.exec hblk max_lt hr
    exact ⟨⟨more ++ emitted token, by rw [← List.append_assoc]; exact next.1⟩, later.trans next.2.1⟩

/-- `done_headers` has run: the token says so, and the parser has left the head. (Bytes behind a head without a body
    go on as a header key, and the token of that key still says that the headers are done.) -/
def HeadAccepted (token : HshTokenS) (parser : HshParserS) : Prop :=
  token.type = .headersDone ∧ isHead (phase parser.state) = false

/-- From the end of the head on the bytes of the head and the texts of its tokens stay as they are. -/
theorem head_intact {ok : HshParserS → HshBufferS → NewBlock → Prop} (initial_ge : 0 ≤ initial) (initial_le : initial ≤ max)
    (max_lt : max < 2147483648) (run : ParserRun ok initial max input tokens parser buffer) (hblk : BlockOk blk)
    (hr : hshParserExec max blk parser buffer = some (token, parser', buffer')) (accepted : HeadAccepted token parser')
    (more : Goes max parser' buffer' parser'' buffer'') :
    (∀ i, 0 ≤ i → i < buffer'.afterHeadersIndex → buffer''.data i = buffer'.data i) ∧
      buffer'.afterHeadersIndex ≤ buffer''.length ∧ buffer''.length ≤ buffer''.capacity ∧
      ∀ t ∈ tokens ++ [token], t.type ≠ .body → (0 ≤ t.index ∧ 0 ≤ t.len ∧ t.index + t.len ≤ buffer'.afterHeadersIndex) ∧
        slice buffer''.data t.index t.len.toNat = slice buffer'.data t.index t.len.toNat := by
  obtain ⟨typed, ended⟩ := accepted
  obtain ⟨whole, -, inside⟩ := (whole_run initial_ge initial_le max_lt run).exec hblk max_lt hr
  obtain ⟨-, later⟩ := more.later whole (by omega) max_lt
  refine ⟨later.same, later.ahi_le.trans later.ok.ahi_le, (later.ok.held rfl).1, fun t mem line => ?_⟩
  have one : emitted token = [token] := if_neg (by rw [typed]; decide)
  rw [one] at inside
  have before := inside typed ended t mem line
  obtain ⟨index, len, le⟩ := id before
  exact ⟨before, slice_congr fun i lo hi => later.same i (by omega) (by omega)⟩

/-- The last byte of a head with a chunked body arrives with a chunk, and the chunk is read. The text of the method
    stays. -/
theorem head_intact_chunk : ∃ tokens parser buffer token parser' buffer' token' parser'' buffer'',
    ParserRun (fun _ _ _ => True) 1024 8388608
        (ascii "POST / HTTP/1.1\r\nTransfer-Encoding: chunked\r\n\r" ++ ascii "\n2\r\nab\r\n") tokens parser buffer ∧
      hshParserExec 8388608 (block 4096) parser buffer = some (token, parser', buffer') ∧ token.type = .headersDone ∧
      hshParserExec 8388608 (block 4096) parser' buffer' = some (token', parser'', buffer'') ∧ token'.type = .body ∧
      ∃ t ∈ tokens ++ [token], t.type = .method ∧ slice buffer''.data t.index t.len.toNat = ascii "POST" := by
  have run : (readBytes (ascii "POST / HTTP/1.1\r\nTransfer-Encoding: chunked\r\n\r") freshBuffer).any (fun r =>
      (drain (fun _ _ _ => True) 8388608 (block 4096) 64 hshParserInit r.buffer).any fun d =>
        (readBytes (ascii "\n2\r\nab\r\n") d.2.2).any fun r =>
          (hshParserExec 8388608 (block 4096) d.2.1 r.buffer).any fun e =>
            decide (e.1.type = .headersDone ∧ isHead (phase e.2.1.state) = false) &&
              (d.1.any fun t => decide (t.type = .method ∧ slice e.2.2.data t.index t.len.toNat = ascii "POST")) &&
              (hshParserExec 8388608 (block 4096) e.2.1 e.2.2).any fun e => decide (e.1.type = .body)) = true := by
    decide +kernel
  obtain ⟨r, hr, run⟩ := (Option.any_eq_true _ _).1 run
  obtain ⟨⟨tokens, parser, b⟩, hd, run⟩ := (Option.any_eq_true _ _).1 run
  obtain ⟨⟨bytes, buffer, memused⟩, hr', run⟩ := (Option.any_eq_true _ _).1 run
  obtain ⟨⟨token, parser', buffer'⟩, he, run⟩ := (Option.any_eq_true _ _).1 run
  obtain ⟨run, next⟩ := Bool.and_eq_true_iff.1 run
  obtain ⟨checks, shown⟩ := Bool.and_eq_true_iff.1 run
  obtain ⟨⟨token', parser'', buffer''⟩, he', body⟩ := (Option.any_eq_true _ _).1 next
  obtain ⟨typed, ended⟩ := of_decide_eq_true checks
  obtain ⟨t, mem, text⟩ := List.any_eq_true.1 shown
  obtain ⟨method, text⟩ := of_decide_eq_true text
  have hblk : BlockOk (block 4096) := ⟨by decide, by decide⟩
  have reached := readBytes_run ((readBytes_run freshBuffer_run hr).drain hblk hd) hr'
  have line : t.type ≠ .body := by
    rw [method]
    decide
  obtain ⟨-, -, -, same⟩ := head_intact (by norm_num) (by norm_num) (by norm_num) reached hblk he ⟨typed, ended⟩
    (.exec .start hblk he')
  have held := List.mem_append_left [token] mem
  exact ⟨tokens, parser, buffer, token, parser', buffer', token', parser'', buffer'', reached, he, typed, he',
    of_decide_eq_true body, t, held, method, (same t held line).2.trans text⟩

end Calls

end HttpServer.IntactHeads
