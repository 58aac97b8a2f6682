import HttpServer.ParserRuns

set_option autoImplicit false

/-!
# The request head as a machine on bytes alone

`headMachine` runs the actions of the request line and the headers on offsets, with no buffer and
no calls. Every run of the parser follows it: the tokens returned so far are those of the bytes
consumed so far, however the stream was cut.
-/
namespace HttpServer.HeadMachine
open MachineInt Scanner ParserTables ParserGrammar HttpServer.Parser ReadBuffer ParserInvariant
  ParserRuns

/-- The type, index and length of a token. -/
abbrev Shape := HshTokenE × ℤ × ℤ

def shape (token : HshTokenS) : Shape := (token.type, token.index, token.len)

@[ext]
structure HeadScan where
  ph : Phase := .methodFirst
  type : HshTokenE := .method
  index : ℤ := 0
  count : ℤ := 0
  limit : ℤ := 0
  offset : ℤ := 0
  emitted : Option Shape := none

namespace HeadScan

def enter (h : HeadScan) (type : HshTokenE) (limit : ℤ) : HeadScan :=
  { h with type := type, index := h.offset, count := 0, limit := limit }

def next (h : HeadScan) : HeadScan := { h with offset := h.offset + 1 }

end HeadScan

def headAct (a : Action) (_ : UInt8) (h : HeadScan) : Flow HeadScan :=
  match a with
  | .method => .fall (h.enter .method 32)
  | .target => .fall (h.enter .target 1024)
  | .version => .fall (h.enter .version 16)
  | .headerKey => .fall (h.enter .headerKey 256)
  | .headerValue => .fall (h.enter .headerValue 4096)
  | .resetCount => .fall { h with count := 0, limit := 256 }
  | .incCount =>
    let h := { h with count := wrap16 (h.count + 1) }
    if h.count > h.limit then .out h.next else .fall h
  | .emitToken => .out { h with emitted := some (h.type, h.index, h.offset - h.index) }.next
  | .doneHeaders => .out { h with emitted := some (.headersDone, 0, 0) }.next
  | .error => .out h.next
  | _ => .fault

def headMachine : Machine HeadScan Action where
  stop _ := false
  trans c h := ({ h with ph := (phaseStep h.ph c.toNat).1, emitted := none },
    (phaseStep h.ph c.toNat).2)
  act := headAct
  again h := if h.ph = .error then .out h else .fall h.next

/-- The phases of the request line and the headers. -/
def isHead : Phase → Bool
  | .methodFirst | .method | .targetFirst | .target | .version _ | .firstHeader | .key | .colon
  | .ows | .value | .valueCr | .valueLf | .nextHeader | .finalCr => true
  | _ => false

def headStep (c : UInt8) (h : HeadScan) : Flow HeadScan :=
  if isHead h.ph then headMachine.step c h else .fault

/-- The state after the bytes, and what each exit from the scan loop emitted. An exit without a
    token is an error or a token beyond its limit. -/
def headRun : List UInt8 → HeadScan → Option (HeadScan × List (Option Shape))
  | [], h => some (h, [])
  | c :: cs, h =>
    match headStep c h with
    | .fall h => headRun cs h
    | .out h => (headRun cs { h with emitted := none }).map fun r => (r.1, h.emitted :: r.2)
    | .fault => none

/-- Every byte meets `P` in the phase in which it is read. -/
def HeadRunOk (P : Phase → UInt8 → Prop) : List UInt8 → HeadScan → Prop
  | [], _ => True
  | c :: cs, h => P h.ph c ∧
    match headStep c h with
    | .fall h => HeadRunOk P cs h
    | .out h => HeadRunOk P cs { h with emitted := none }
    | .fault => True

theorem headRun_append (as bs : List UInt8) (h : HeadScan) :
    headRun (as ++ bs) h = (headRun as h).bind fun r =>
      (headRun bs r.1).map fun r' => (r'.1, r.2 ++ r'.2) := by
  induction as generalizing h with
  | nil => simp [headRun]
  | cons c as ih =>
    rw [List.cons_append, headRun, headRun]
    cases headStep c h with
    | fall h' => exact ih h'
    | out h' =>
      dsimp only
      rw [ih]
      cases headRun as { h' with emitted := none } with
      | none => rfl
      | some r =>
        simp only [Option.map_some, Option.bind_some, Option.map_map]
        congr 1
    | fault => rfl

/-- The actions of the request line and the headers. -/
def lineActions : List Action :=
  [.method, .target, .version, .headerKey, .headerValue, .resetCount, .incCount, .emitToken,
    .doneHeaders, .error]

theorem headAct_sat {a : Action} (ha : a ∈ lineActions) (c : UInt8) {h t : HeadScan}
    (ht : t.ph = h.ph ∧ t.offset = h.offset) :
    (headAct a c t).Sat False (fun t => t.ph = h.ph ∧ t.offset = h.offset)
      (fun t => t.ph = h.ph ∧ t.offset = h.offset + 1) := by
  obtain ⟨hph, hoff⟩ := ht
  simp only [lineActions, List.mem_cons, List.not_mem_nil, or_false] at ha
  rcases ha with rfl | rfl | rfl | rfl | rfl | rfl | rfl | rfl | rfl | rfl <;>
    unfold headAct <;> dsimp only <;> (try split) <;>
    first | exact ⟨hph, hoff⟩ | exact ⟨hph, congrArg (· + 1) hoff⟩

theorem phaseStep_head {ph : Phase} (live : isHead ph = true) (c : ℕ) :
    phaseStep ph c = phaseError ∨ phaseStep ph c = (.headersDone, [.incCount, .doneHeaders]) ∨
      isHead (phaseStep ph c).1 = true ∧ ∀ a ∈ (phaseStep ph c).2, a ∈ lineActions ∧ a ≠ .doneHeaders := by
  cases ph <;> simp only [isHead, Bool.false_eq_true] at live <;>
    simp only [phaseStep, keyStep, phaseError, lineActions] <;> (repeat' split) <;> simp [isHead]

theorem headStep_sat (c : UInt8) {h : HeadScan} (live : isHead h.ph = true) :
    (headMachine.step c h).Sat False
      (fun t => t.ph = (phaseStep h.ph c.toNat).1 ∧ t.offset = h.offset + 1 ∧ isHead t.ph = true)
      (fun t => t.ph = (phaseStep h.ph c.toNat).1 ∧ t.offset = h.offset + 1) := by
  have acts : ∀ as, (∀ a ∈ as, a ∈ lineActions) →
      (headMachine.runActs c as { h with ph := (phaseStep h.ph c.toNat).1, emitted := none }).Sat
        False (fun t => t.ph = (phaseStep h.ph c.toNat).1 ∧ t.offset = h.offset)
        (fun t => t.ph = (phaseStep h.ph c.toNat).1 ∧ t.offset = h.offset + 1) :=
    fun as has => Machine.runActs_sat headMachine (C := fun _ _ _ => True)
      (fun a ha t ht _ => headAct_sat (h := { h with ph := (phaseStep h.ph c.toNat).1 }) (has a ha) c ht)
      ⟨rfl, rfl⟩ (Machine.actsOk_true _ _ _ _)
  have list : (headMachine.runActs c (phaseStep h.ph c.toNat).2
      { h with ph := (phaseStep h.ph c.toNat).1, emitted := none }).Sat False
        (fun t => t.ph = (phaseStep h.ph c.toNat).1 ∧ t.offset = h.offset ∧ isHead t.ph = true)
        (fun t => t.ph = (phaseStep h.ph c.toNat).1 ∧ t.offset = h.offset + 1) := by
    rcases phaseStep_head live c.toNat with herr | hdone | ⟨hhead, hlist⟩
    · rw [herr]
      exact ⟨rfl, rfl⟩
    · -- `done_headers` always leaves the loop
      have counted := acts [.incCount] (by decide)
      rw [hdone] at counted ⊢
      rw [show [Action.incCount, .doneHeaders] = [Action.incCount] ++ [.doneHeaders] from rfl,
        Machine.runActs_append]
      cases hr : headMachine.runActs c [.incCount]
          { h with ph := .headersDone, emitted := none } with
      | fall t =>
        rw [hr] at counted
        exact ⟨counted.1, congrArg (· + 1) counted.2⟩
      | out t =>
        rw [hr] at counted
        exact counted
      | fault =>
        rw [hr] at counted
        exact counted
    · exact (acts _ fun a ha => (hlist a ha).1).mono
        (fun t ht => ⟨ht.1, ht.2, by rw [ht.1]; exact hhead⟩) (fun _ h => h)
  refine Machine.step_sat headMachine list ?_
  rintro t ⟨hph, hoff, hhead⟩
  have pure : headMachine.again t = .fall t.next :=
    if_neg (by intro herr; rw [herr] at hhead; cases hhead)
  rw [pure]
  exact ⟨hph, congrArg (· + 1) hoff, hhead⟩

theorem headStep_done {c : UInt8} {h t : HeadScan} (live : isHead h.ph = true)
    (hr : headMachine.step c h = .out t) (hd : t.ph = .headersDone) {sh : Shape}
    (hs : t.emitted = some sh) : sh = (.headersDone, 0, 0) := by
  have target := headStep_sat c live
  rw [hr] at target
  have hph : (phaseStep h.ph c.toNat).1 = .headersDone := target.1.symm.trans hd
  have list : (phaseStep h.ph c.toNat).2 = [.incCount, .doneHeaders] := by
    rcases phaseStep_head live c.toNat with herr | hdone | ⟨hhead, -⟩
    · rw [herr] at hph
      cases hph
    · rw [hdone]
    · rw [hph] at hhead
      cases hhead
  have acts : (headMachine.runActs c [.incCount, .doneHeaders]
      { h with ph := (phaseStep h.ph c.toNat).1, emitted := none }).Sat True (fun _ => False)
        (fun t => t.emitted = none ∨ t.emitted = some (.headersDone, 0, 0)) := by
    refine Machine.runActs_cons_sat headMachine (C := fun _ _ _ => True)
      (P := fun t => t.emitted = none) (fun _ => ?_) (fun t _ _ => .inr rfl)
      (Machine.actsOk_true _ _ _ _)
    change (headAct .incCount c _).Sat _ _ _
    unfold headAct
    dsimp only
    split
    · exact .inl rfl
    · rfl
  have step := Machine.step_sat (c := c) (s := h) headMachine (F := fun _ => False) (list ▸ acts)
    (fun _ hf => hf.elim)
  rw [hr] at step
  rcases step with hnone | hsome
  · rw [hnone] at hs
    cases hs
  · rw [hsome] at hs
    exact (Option.some.inj hs).symm

theorem headRun_fall {c : UInt8} {cs : List UInt8} {h h' : HeadScan} (hr : headStep c h = .fall h') :
    headRun (c :: cs) h = headRun cs h' := by
  rw [headRun, hr]

theorem headRun_offset {w : List UInt8} {h h' : HeadScan} {breaks : List (Option Shape)}
    (hr : headRun w h = some (h', breaks)) : h'.offset = h.offset + w.length := by
  induction w generalizing h breaks with
  | nil =>
    cases hr
    simp
  | cons c w ih =>
    rw [headRun] at hr
    have step : (headStep c h).Sat True (fun t => t.offset = h.offset + 1)
        (fun t => t.offset = h.offset + 1) := by
      unfold headStep
      split
      · rename_i live
        have pure := headStep_sat c live
        cases hs : headMachine.step c h with
        | fall t => rw [hs] at pure; exact pure.2.1
        | out t => rw [hs] at pure; exact pure.2
        | fault => trivial
      · trivial
    cases hs : headStep c h with
    | fall t =>
      rw [hs] at hr step
      have offset : t.offset = h.offset + 1 := step
      rw [ih hr, offset, List.length_cons]
      push_cast
      ring
    | out t =>
      rw [hs] at hr step
      have offset : t.offset = h.offset + 1 := step
      obtain ⟨r, htail, hr'⟩ := Option.map_eq_some_iff.1 hr
      cases hr'
      have tail := ih (h := { t with emitted := none }) htail
      rw [tail, List.length_cons]
      dsimp only
      rw [offset]
      push_cast
      ring
    | fault => rw [hs] at hr; cases hr

theorem headRun_out {c : UInt8} {cs : List UInt8} {h h' : HeadScan} (hr : headStep c h = .out h') :
    headRun (c :: cs) h =
      (headRun cs { h' with emitted := none }).map fun r => (r.1, h'.emitted :: r.2) := by
  rw [headRun, hr]

section Simulation

def isLine : HshTokenE → Bool
  | .method | .target | .version | .headerKey | .headerValue => true
  | _ => false

/-- The state of the scan loop on the buffer `b` that `h` describes; `q` is the parser's id. -/
structure HeadSim (b : HshBufferS) (q : ℤ) (s : Exec) (h : HeadScan) : Prop where
  buffer_eq : s.buffer = b
  pe_eq : s.pe = b.buf + b.length
  state_lt : s.cs < 98
  phase_eq : phase s.cs = h.ph
  type_eq : s.parser.token.type = h.type
  index_eq : s.parser.token.index = h.index
  count_eq : s.parser.limitCount = h.count
  limit_eq : s.parser.limitMax = h.limit
  p_eq : s.p = b.buf + h.offset
  index_nonneg : 0 ≤ h.index
  index_le : h.index ≤ h.offset
  typed : isLine h.type = true
  sequenceId_eq : s.parser.sequenceId = q
  tokenReady : httpFlagCheck s.parser.flags flagTokenReady = false
  done : httpFlagCheck s.parser.flags flagDone = false
  content : -9223372036854775808 ≤ s.parser.contentLength

def clearReady (s : Exec) : Exec :=
  { s with parser := { s.parser with flags := httpFlagClear s.parser.flags flagTokenReady } }

/-- Where `done_headers` goes on, with the flags of its token. -/
def bodyFlags : Phase → Option (BitVec 8)
  | .headersDone => some (httpFlagSet 0 hshTokFlagNoBody)
  | .bodySizeFirst | .large => some (httpFlagSet 0 hshTokFlagStreamedBody)
  | .small => some 0
  | _ => none

/-- The buffer after `done_headers`, possibly resized for a small body. -/
def Sized (max : ℤ) (blk : NewBlock) (ahi : ℤ) (b b' : HshBufferS) : Prop :=
  b' = { b with afterHeadersIndex := ahi } ∨ ∃ n : ℤ,
    -9223372036854775808 ≤ n ∧ n ≤ wrap32 (max - ahi) ∧ wrap64 (n + ahi) > b.capacity ∧ b' =
      { ({ b with afterHeadersIndex := ahi } : HshBufferS).realloc blk (n + ahi) with
        capacity := wrap32 (n + ahi) }

theorem Sized.ahi_eq {max : ℤ} {blk : NewBlock} {ahi : ℤ} {b b' : HshBufferS}
    (h : Sized max blk ahi b b') : b'.afterHeadersIndex = ahi := by
  rcases h with rfl | ⟨n, -, -, -, rfl⟩ <;> rfl

theorem Sized.length_eq {max : ℤ} {blk : NewBlock} {ahi : ℤ} {b b' : HshBufferS}
    (h : Sized max blk ahi b b') : b'.length = b.length := by
  rcases h with rfl | ⟨n, -, -, -, rfl⟩ <;> rfl

theorem Sized.ok {max : ℤ} {blk : NewBlock} {ahi : ℤ} {b b' : HshBufferS}
    (h : Sized max blk ahi b b') (hb : BufferOk true max b) (hblk : BlockOk blk)
    (max_lt : max < 2147483648) (nonneg : 0 ≤ ahi) (le : ahi ≤ b.length) :
    BufferOk true max b' ∧ ∀ i, 0 ≤ i → i < b.length → b'.data i = b.data i := by
  have held := hb.held rfl
  have lt := hb.capacity_lt
  rcases h with rfl | ⟨n, lower, small, resized, rfl⟩
  · exact ⟨⟨hb.buf_pos, hb.buf_lt, nonneg, le, hb.length_lt, hb.capacity_lt, hb.held⟩,
      fun _ _ _ => rfl⟩
  rw [wrap32_eq (by omega) (by omega)] at small
  rw [wrap64_eq (by omega) (by omega)] at resized
  refine ⟨⟨hblk.1, hblk.2, nonneg, le, hb.length_lt, (wrap32_bounds _).2, fun _ => ?_⟩, ?_⟩
  · dsimp only [HshBufferS.realloc]
    rw [wrap32_eq (by omega) (by omega)]
    omega
  · intro i lo hi
    dsimp only [HshBufferS.realloc]
    rw [if_pos (by omega)]

/-- The loop is left by `done_headers`. -/
structure HeadersLeft (max : ℤ) (blk : NewBlock) (b : HshBufferS) (s : Exec) (h : HeadScan) : Prop where
  state_lt : s.cs < 98
  mode : bodyFlags (phase s.cs) = some s.parser.token.flags
  sized : Sized max blk h.offset b s.buffer
  done : httpFlagCheck s.parser.flags flagDone = false

/-- The loop is left, with the token that `h` emitted. -/
def HeadExit (max : ℤ) (blk : NewBlock) (b : HshBufferS) (q : ℤ) (s : Exec) (h : HeadScan) : Prop :=
  match h.emitted with
  | none => HeadSim b q s h
  | some sh => httpFlagCheck s.parser.flags flagTokenReady = true ∧ shape s.parser.token = sh ∧
      (h.ph = .headersDone → HeadersLeft max blk b s h) ∧
      (h.ph ≠ .headersDone → HeadSim b q (clearReady s) h)

/-- Between two actions of a byte of the head. -/
structure HeadMid (b : HshBufferS) (q : ℤ) (ph : Phase) (s : Exec) (h : HeadScan) : Prop where
  sim : HeadSim b q s h
  inside : h.offset < b.length
  ph_eq : h.ph = ph
  emitted : h.emitted = none

variable {max : ℤ} {blk : NewBlock} {b : HshBufferS} {q : ℤ} {ph : Phase} {s : Exec} {h : HeadScan}
  {c : UInt8}

theorem HeadMid.wrap32_cursor (hm : HeadMid b q ph s h) (lt : b.length < 2147483648) :
    wrap32 (s.p - s.buffer.buf) = h.offset := by
  have nonneg := hm.sim.index_nonneg
  have le := hm.sim.index_le
  have inside := hm.inside
  rw [hm.sim.p_eq, hm.sim.buffer_eq, show b.buf + h.offset - b.buf = h.offset by ring]
  exact wrap32_eq (by omega) (by omega)

theorem HeadSim.next (hs : HeadSim b q s h) : HeadSim b q { s with p := s.p + 1 } h.next := by
  have le := hs.index_le
  refine ⟨hs.buffer_eq, hs.pe_eq, hs.state_lt, hs.phase_eq, hs.type_eq, hs.index_eq, hs.count_eq,
    hs.limit_eq, ?_, hs.index_nonneg, ?_, hs.typed, hs.sequenceId_eq, hs.tokenReady, hs.done, hs.content⟩
  · dsimp only [HeadScan.next]
    rw [hs.p_eq]
    ring
  · dsimp only [HeadScan.next]
    omega

theorem HeadSim.exit (hs : HeadSim b q s h) (silent : h.emitted = none) : HeadExit max blk b q s h := by
  unfold HeadExit
  rw [silent]
  exact hs

theorem hshEnterToken_rel (lt : b.length < 2147483648) (hm : HeadMid b q ph s h) (type : HshTokenE)
    (limit : ℤ) (typed : isLine type = true) : HeadMid b q ph (hshEnterToken type limit s) (h.enter type limit) := by
  have nonneg := hm.sim.index_nonneg
  have le := hm.sim.index_le
  have hs := hm.sim
  exact ⟨⟨hs.buffer_eq, hs.pe_eq, hs.state_lt, hs.phase_eq, rfl, hm.wrap32_cursor lt, rfl, rfl, hs.p_eq,
    nonneg.trans le, le_refl _, typed, hs.sequenceId_eq, hs.tokenReady, hs.done, hs.content⟩, hm.inside, hm.ph_eq, hm.emitted⟩

theorem emitToken_rel (lt : b.length < 2147483648) (hph : ph ≠ .headersDone)
    (hm : HeadMid b q ph s h) :
    (emitToken s).Rel (HeadMid b q ph) (HeadExit max blk b q) (headAct .emitToken c h) := by
  have nonneg := hm.sim.index_nonneg
  have le := hm.sim.index_le
  have inside := hm.inside
  have hs := hm.sim
  have len : wrap32 (s.p - (s.buffer.buf + s.parser.token.index)) = h.offset - h.index := by
    rw [hs.p_eq, hs.buffer_eq, hs.index_eq,
      show b.buf + h.offset - (b.buf + h.index) = h.offset - h.index by ring]
    exact wrap32_eq (by omega) (by omega)
  refine ⟨tokenReady_set _, ?_, fun hd => absurd (hm.ph_eq.symm.trans hd) hph,
    fun _ => ?_⟩
  · change (_, _, wrap32 (s.p - (s.buffer.buf + s.parser.token.index))) = _
    rw [len]
    exact Prod.ext hs.type_eq (Prod.ext hs.index_eq rfl)
  · have next := hs.next
    exact ⟨next.buffer_eq, next.pe_eq, next.state_lt, next.phase_eq, next.type_eq, next.index_eq,
      next.count_eq, next.limit_eq, next.p_eq, next.index_nonneg, next.index_le,
      next.typed, next.sequenceId_eq, tokenReady_clear _, (done_clear_tokenReady _).trans ((done_set_tokenReady _).trans hs.done),
      hs.content⟩

theorem incCount_rel (hm : HeadMid b q ph s h) :
    (incCount s).Rel (HeadMid b q ph) (HeadExit max blk b q) (headAct .incCount c h) := by
  have hs := hm.sim
  have counted : HeadMid b q ph
      { s with parser := { s.parser with limitCount := wrap16 (s.parser.limitCount + 1) } }
      { h with count := wrap16 (h.count + 1) } :=
    ⟨⟨hs.buffer_eq, hs.pe_eq, hs.state_lt, hs.phase_eq, hs.type_eq, hs.index_eq,
      by rw [hs.count_eq], hs.limit_eq, hs.p_eq, hs.index_nonneg, hs.index_le, hs.typed, hs.sequenceId_eq, hs.tokenReady,
      hs.done, hs.content⟩, hm.inside, hm.ph_eq, hm.emitted⟩
  by_cases exceeds : wrap16 (h.count + 1) > h.limit
  · have real : incCount s = fbreak
        { s with parser := { s.parser with limitCount := wrap16 (s.parser.limitCount + 1) } } :=
      if_pos (by rw [hs.count_eq, hs.limit_eq]; exact exceeds)
    have pure : headAct .incCount c h = .out { h with count := wrap16 (h.count + 1) }.next :=
      if_pos exceeds
    rw [real, pure]
    exact counted.sim.next.exit hm.emitted
  · have real : incCount s = .fall
        { s with parser := { s.parser with limitCount := wrap16 (s.parser.limitCount + 1) } } :=
      if_neg (by rw [hs.count_eq, hs.limit_eq]; exact exceeds)
    have pure : headAct .incCount c h = .fall { h with count := wrap16 (h.count + 1) } :=
      if_neg exceeds
    rw [real, pure]
    exact counted

theorem runAction_rel (lt : b.length < 2147483648) (hph : ph ≠ .headersDone) {a : Action}
    (ha : a ≠ .doneHeaders) (hm : HeadMid b q ph s h) :
    (runAction max blk c a s).Rel (HeadMid b q ph) (HeadExit max blk b q) (headAct a c h) := by
  have hs := hm.sim
  cases a with
  | method => exact hshEnterToken_rel lt hm _ _ (by decide)
  | target => exact hshEnterToken_rel lt hm _ _ (by decide)
  | version => exact hshEnterToken_rel lt hm _ _ (by decide)
  | headerKey => exact hshEnterToken_rel lt hm _ _ (by decide)
  | headerValue => exact hshEnterToken_rel lt hm _ _ (by decide)
  | emitToken => exact emitToken_rel lt hph hm
  | incCount => exact incCount_rel hm
  | resetCount =>
    exact ⟨⟨hs.buffer_eq, hs.pe_eq, hs.state_lt, hs.phase_eq, hs.type_eq, hs.index_eq, rfl, rfl,
      hs.p_eq, hs.index_nonneg, hs.index_le, hs.typed, hs.sequenceId_eq, hs.tokenReady, hs.done, hs.content⟩, hm.inside, hm.ph_eq, hm.emitted⟩
  | error => exact hs.next.exit hm.emitted
  | doneHeaders => exact absurd rfl ha
  | _ => generalize runAction max blk c _ s = r; cases r <;> trivial

theorem doneHeaders_rel (lt : b.length < 2147483648) (hdone : ph = .headersDone)
    (hm : HeadMid b q ph s h) :
    (doneHeaders max blk s).Rel (HeadMid b q ph) (HeadExit max blk b q) (headAct .doneHeaders c h) := by
  have hs := hm.sim
  have hph := hm.ph_eq.trans hdone
  have inside := hm.inside
  have nonneg := hs.index_nonneg
  have le := hs.index_le
  have ahi : wrap32 (s.p - s.buffer.buf + 1) = h.offset + 1 := by
    rw [hs.p_eq, hs.buffer_eq, show b.buf + h.offset - b.buf + 1 = h.offset + 1 by ring]
    exact wrap32_eq (by omega) (by omega)
  have left : ∀ (u : Exec) (cs : ℕ), u.cs = cs → cs < 98 →
      bodyFlags (phase cs) = some u.parser.token.flags → Sized max blk (h.offset + 1) b u.buffer →
      u.parser.flags = httpFlagSet s.parser.flags flagTokenReady →
      shape u.parser.token = (.headersDone, 0, 0) →
      HeadExit max blk b q u { h with emitted := some (.headersDone, 0, 0) }.next := by
    rintro u cs rfl hlt hmode hsized hflags htoken
    exact ⟨by rw [hflags]; exact tokenReady_set _, htoken, fun _ => ⟨hlt, hmode, hsized,
      by rw [hflags]; exact (done_set_tokenReady _).trans hs.done⟩, fun hne => absurd hph hne⟩
  unfold doneHeaders headAct
  simp only [ahi, Exec.setFlags, Exec.setToken]
  split
  · exact left _ hshHttpEnChunkedBody rfl (by decide) rfl (.inl (by rw [hs.buffer_eq])) rfl rfl
  split
  · exact left _ s.cs rfl hs.state_lt (by rw [hs.phase_eq, hph]; rfl) (.inl (by rw [hs.buffer_eq]))
      rfl rfl
  split
  · exact left _ hshHttpEnLargeBody rfl (by decide) rfl (.inl (by rw [hs.buffer_eq])) rfl rfl
  · rename_i small
    refine left _ hshHttpEnSmallBody rfl (by decide) rfl ?_ rfl rfl
    dsimp only
    split
    · rename_i resized
      exact .inr ⟨s.parser.contentLength, hs.content, by omega,
        by rw [← hs.buffer_eq]; exact resized, by rw [hs.buffer_eq]⟩
    · exact .inl (by rw [hs.buffer_eq])

theorem phase_error {cs : ℕ} (lt : cs < 98) : phase cs = .error ↔ cs = hshHttpError := by
  revert cs
  decide +kernel

theorem phaseStep_isHead {ph : Phase} (live : isHead ph = true) (c : ℕ) :
    ((phaseStep ph c).1 ≠ .headersDone ∧ .doneHeaders ∉ (phaseStep ph c).2) ∨
      (phaseStep ph c).1 = .headersDone ∧ (phaseStep ph c).2 = [.incCount, .doneHeaders] := by
  rcases phaseStep_head live c with herr | hdone | ⟨hhead, hlist⟩
  · rw [herr]
    exact .inl ⟨by decide, by decide⟩
  · rw [hdone]
    exact .inr ⟨rfl, rfl⟩
  · refine .inl ⟨?_, fun ha => (hlist _ ha).2 rfl⟩
    intro hd
    rw [hd] at hhead
    cases hhead

theorem side_rel {a : Action} (ha : a = .contentLengthDigit ∨ a = .transferEncoding)
    (hm : HeadMid b q ph s h) :
    ∃ s', (machine max blk).act a c s = .fall s' ∧ HeadMid b q ph s' h := by
  have hs := hm.sim
  rcases ha with rfl | rfl
  · exact ⟨contentLengthDigit c s, rfl, ⟨hs.buffer_eq, hs.pe_eq, hs.state_lt, hs.phase_eq,
      hs.type_eq, hs.index_eq, hs.count_eq, hs.limit_eq, hs.p_eq, hs.index_nonneg, hs.index_le,
      hs.typed, hs.sequenceId_eq, hs.tokenReady, hs.done, (wrap64_bounds _).1⟩, hm.inside, hm.ph_eq,
      hm.emitted⟩
  · exact ⟨transferEncoding s, rfl, ⟨hs.buffer_eq, hs.pe_eq, hs.state_lt, hs.phase_eq,
      hs.type_eq, hs.index_eq, hs.count_eq, hs.limit_eq, hs.p_eq, hs.index_nonneg, hs.index_le,
      hs.typed, hs.sequenceId_eq, (tokenReady_set_chunked _).trans hs.tokenReady, (done_set_chunked _).trans hs.done,
      hs.content⟩, hm.inside, hm.ph_eq, hm.emitted⟩

variable (max blk) in
theorem step_head (lt : b.length < 2147483648) (hs : HeadSim b q s h) (inside : h.offset < b.length)
    (live : isHead h.ph = true) :
    ((machine max blk).step c s).Rel (fun s h => HeadSim b q s h ∧ h.emitted = none) (HeadExit max blk b q)
      (headMachine.step c h) := by
  have hc : c.toNat < 256 := c.toNat_lt
  have herr : s.cs ≠ hshHttpError := by
    intro h0
    have := hs.phase_eq
    rw [h0] at this
    rw [← this] at live
    cases live
  have hbody : phase s.cs ≠ .bodyData := by
    intro hd
    rw [← hs.phase_eq, hd] at live
    cases live
  obtain ⟨htarg, pre, hpre, hacts⟩ := tables_agree hs.state_lt hc herr hbody
  rw [hs.phase_eq] at htarg hacts
  have mid : HeadMid b q (phaseStep h.ph c.toNat).1 { s with cs := transTarg s.cs c.toNat }
      { h with ph := (phaseStep h.ph c.toNat).1, emitted := none } :=
    ⟨⟨hs.buffer_eq, hs.pe_eq, transTarg_lt _ _, htarg, hs.type_eq, hs.index_eq, hs.count_eq,
      hs.limit_eq, hs.p_eq, hs.index_nonneg, hs.index_le, hs.typed, hs.sequenceId_eq, hs.tokenReady, hs.done, hs.content⟩, inside, rfl, rfl⟩
  refine Machine.step_rel (R := HeadMid b q (phaseStep h.ph c.toNat).1) ?_ ?_
  · change ((machine max blk).runActs c (transActions s.cs c.toNat) _).Rel _ _
      (headMachine.runActs c (phaseStep h.ph c.toNat).2 _)
    rw [hacts]
    refine Machine.runActs_rel_left (fun a ha s hs => side_rel ?_ hs) mid ?_
    · rcases hpre with rfl | ⟨-, rfl | rfl⟩ <;> simp_all
    intro s hs
    rcases phaseStep_isHead live c.toNat with ⟨hne, hnot⟩ | ⟨hdone, hlist⟩
    · exact Machine.runActs_rel (fun a ha s t hst => runAction_rel lt hne
        (by rintro rfl; exact hnot ha) hst) hs
    · rw [hlist]
      refine Machine.runActs_rel (fun a ha s t hst => ?_) hs
      simp only [List.mem_cons, List.not_mem_nil, or_false] at ha
      rcases ha with rfl | rfl
      · exact incCount_rel (c := c) hst
      · exact doneHeaders_rel (c := c) lt hdone hst
  · intro s t hst
    have iff := phase_error hst.sim.state_lt
    rw [hst.sim.phase_eq] at iff
    by_cases h0 : t.ph = .error
    · have real : (machine max blk).again s = .out s := if_pos (iff.1 h0)
      have pure : headMachine.again t = .out t := if_pos h0
      rw [real, pure]
      exact hst.sim.exit hst.emitted
    · have real : (machine max blk).again s = .fall { s with p := s.p + 1 } :=
        if_neg (fun h1 => h0 (iff.2 h1))
      have pure : headMachine.again t = .fall t.next := if_neg h0
      rw [real, pure]
      exact ⟨hst.sim.next, hst.emitted⟩

end Simulation

section Scan

variable {max : ℤ} {blk : NewBlock} {b : HshBufferS} {q : ℤ} {s : Exec} {h : HeadScan}

/-- What the loop leaves when the head machine has consumed `consumed` of the unread bytes. -/
structure ScanLeft (max : ℤ) (blk : NewBlock) (b : HshBufferS) (q : ℤ) (unread consumed : List UInt8) (h h' : HeadScan)
    (breaks : List (Option Shape)) (t : Exec) : Prop where
  rest : ∃ left, unread = consumed ++ left ∧ (breaks = [] → left = [])
  run : headRun consumed h = some ({ h' with emitted := none }, breaks)
  breaks_eq : breaks = [] ∧ h'.emitted = none ∨ breaks = [h'.emitted]
  exit : HeadExit max blk b q t h'
  last : h'.ph = .headersDone → ∀ sh, h'.emitted = some sh → sh = (.headersDone, 0, 0)

theorem unread_cons (inside : h.offset < b.length) :
    slice b.data h.offset (b.length - h.offset).toNat =
      b.data h.offset :: slice b.data (h.offset + 1) (b.length - (h.offset + 1)).toNat := by
  rw [show (b.length - h.offset).toNat = (b.length - (h.offset + 1)).toNat + 1 by omega, slice]

variable (max blk) in
/-- The loop on a buffer follows the head machine on the unread bytes. -/
theorem scan_head {m : ℤ} (hb : BufferOk true m b) (cs : List UInt8) (hcs : cs = bytesFrom b s.p)
    (hs : HeadSim b q s h) (silent : h.emitted = none) (inside : h.offset ≤ b.length)
    (live : isHead h.ph = true) :
    ∃ t, (machine max blk).scan cs s = some t ∧ ∃ consumed h' breaks,
      ScanLeft max blk b q (slice b.data h.offset (b.length - h.offset).toNat) consumed h h' breaks t ∧
        ∀ P : Phase → UInt8 → Prop, (machine max blk).ScanOk (fun c s => P (phase s.cs) c)
          (fun _ _ _ => True) cs s → HeadRunOk P consumed h := by
  have held := hb.held rfl
  have lt := hb.length_lt
  have nonneg := hs.index_nonneg
  have le := hs.index_le
  induction cs generalizing s h with
  | nil =>
    have past := bytesFrom_nil hcs.symm (by rw [hs.p_eq]; omega)
    have stop : s.p = s.pe := by
      rw [hs.p_eq] at past
      rw [hs.p_eq, hs.pe_eq]
      omega
    refine ⟨s, Machine.scan_stop _ (by simpa [machine] using stop) _, [], h, [], ⟨?_, ?_, .inl ⟨rfl, silent⟩,
      hs.exit silent, fun _ sh hsh => by rw [silent] at hsh; cases hsh⟩, fun _ _ => trivial⟩
    · rw [hs.p_eq, hs.pe_eq] at stop
      exact ⟨[], by rw [show (b.length - h.offset).toNat = 0 by omega]; rfl, fun _ => rfl⟩
    · rw [headRun, ← silent]
  | cons c cs ih =>
    by_cases stop : s.p = s.pe
    · refine ⟨s, Machine.scan_stop _ (by simpa [machine] using stop) _, [], h, [], ⟨?_, ?_,
        .inl ⟨rfl, silent⟩, hs.exit silent, fun _ sh hsh => by rw [silent] at hsh; cases hsh⟩,
        fun _ _ => trivial⟩
      · rw [hs.p_eq, hs.pe_eq] at stop
        exact ⟨[], by rw [show (b.length - h.offset).toNat = 0 by omega]; rfl, fun _ => rfl⟩
      · rw [headRun, ← silent]
    have inside' : h.offset < b.length := by
      rw [hs.p_eq, hs.pe_eq] at stop
      omega
    obtain ⟨-, -, hc, hrest⟩ := bytesFrom_cons hcs.symm
    rw [hs.p_eq, show b.buf + h.offset - b.buf = h.offset by ring] at hc
    have unread := unread_cons inside'
    rw [← hc] at unread
    have rel := step_head max blk (c := c) lt hs inside' live
    have pure := headStep_sat c live
    have live' : headStep c h = headMachine.step c h := if_pos live
    rw [Machine.scan_cons _ (by simpa [machine] using stop)]
    cases ht : headMachine.step c h with
    | fault => rw [ht] at pure; exact pure.elim
    | fall h' =>
      rw [ht] at pure rel
      cases hst : (machine max blk).step c s with
      | out u => rw [hst] at rel; exact rel.elim
      | fault => rw [hst] at rel; exact rel.elim
      | fall u =>
        rw [hst] at rel
        obtain ⟨sim, silent'⟩ := rel
        obtain ⟨hph, hoff, live'⟩ := pure
        have rest : cs = bytesFrom b u.p := by
          rw [hrest, hs.p_eq, sim.p_eq, hoff]
          congr 1
          ring
        obtain ⟨t, hscan, consumed, h'', breaks, left, good⟩ := ih rest sim silent' (by omega) live'
          sim.index_nonneg sim.index_le
        refine ⟨t, hscan, c :: consumed, h'', breaks, ⟨?_, ?_, left.breaks_eq, left.exit,
          left.last⟩, fun P ok => ?_⟩
        · obtain ⟨tail, htail, hend⟩ := left.rest
          refine ⟨tail, ?_, hend⟩
          rw [unread, ← hoff, htail]
          rfl
        · rw [headRun_fall (by rw [‹headStep c h = _›, ht])]
          exact left.run
        · obtain ⟨byte, -, more⟩ := ok.resolve_left (by simpa [machine] using stop)
          rw [hst] at more
          rw [hs.phase_eq] at byte
          refine ⟨byte, ?_⟩
          rw [‹headStep c h = _›, ht]
          exact good P more
    | out h' =>
      rw [ht] at pure rel
      cases hst : (machine max blk).step c s with
      | fall u => rw [hst] at rel; exact rel.elim
      | fault => rw [hst] at rel; exact rel.elim
      | out u =>
        rw [hst] at rel
        refine ⟨u, rfl, [c], h', [h'.emitted], ⟨⟨_, unread, fun hnil => by cases hnil⟩, ?_,
          .inr rfl, rel, fun hd sh hsh => headStep_done live ht hd hsh⟩, fun P ok => ?_⟩
        · rw [headRun_out (by rw [live', ht])]
          rfl
        · have byte : P (phase s.cs) c := (ok.resolve_left (by simpa [machine] using stop)).1
          rw [hs.phase_eq] at byte
          refine ⟨byte, ?_⟩
          rw [live', ht]
          trivial

end Scan

section Exec

variable {max : ℤ} {blk : NewBlock} {parser : HshParserS} {buffer : HshBufferS} {h : HeadScan}

/-- Between two calls in the head. -/
structure HeadRest (parser : HshParserS) (buffer : HshBufferS) (h : HeadScan) : Prop where
  sim : HeadSim buffer parser.sequenceId (enter parser buffer) h
  silent : h.emitted = none
  inside : h.offset ≤ buffer.length

/-- The parser has come to the end of the head. -/
structure HeadDone (parser : HshParserS) : Prop where
  state_lt : parser.state < 98
  tokenReady : httpFlagCheck parser.flags flagTokenReady = false
  done : httpFlagCheck parser.flags flagDone = false

/-- What a call makes of the unread bytes of a head. -/
inductive ExecHead (max : ℤ) (blk : NewBlock) (parser : HshParserS) (buffer : HshBufferS) (h : HeadScan) :
    List UInt8 → HeadScan → HshTokenS → HshParserS → HshBufferS → Prop where
  | none {consumed left : List UInt8} {h' : HeadScan} {breaks : List (Option Shape)}
      {parser' : HshParserS}
      (rest : unconsumed buffer = consumed ++ left) (all : breaks = [] → left = [])
      (run : headRun consumed h = some (h', breaks)) (silent : breaks = [] ∨ breaks = [.none])
      (head : HeadRest parser' { buffer with index := h'.offset } h')
      (seen : parser'.sequenceId = buffer.sequenceId) :
      ExecHead max blk parser buffer h consumed h' noneToken parser' { buffer with index := h'.offset }
  | token {consumed left : List UInt8} {h' : HeadScan} {token : HshTokenS} {parser' : HshParserS}
      (rest : unconsumed buffer = consumed ++ left)
      (run : headRun consumed h = some (h', [some (shape token)])) (typed : isLine token.type = true)
      (ph : h'.ph ≠ .headersDone)
      (head : HeadRest parser' { buffer with index := h'.offset } h')
      (again : parser'.sequenceId = parser.sequenceId) :
      ExecHead max blk parser buffer h consumed h' token parser' { buffer with index := h'.offset }
  | done {consumed left : List UInt8} {h' : HeadScan} {token : HshTokenS} {parser' : HshParserS}
      {buffer' : HshBufferS} (rest : unconsumed buffer = consumed ++ left)
      (run : headRun consumed h = some (h', [some (shape token)]))
      (ph : h'.ph = .headersDone) (last : shape token = (.headersDone, 0, 0))
      (finished : HeadDone parser') (mode : bodyFlags (phase parser'.state) = some token.flags)
      (sized : Sized max blk h'.offset buffer buffer') {i : ℤ} :
      ExecHead max blk parser buffer h consumed h' token parser' { buffer' with index := i }

theorem HeadRest.index_eq (hr : HeadRest parser buffer h) : buffer.index = h.offset := by
  have p := hr.sim.p_eq
  unfold enter at p
  dsimp only at p
  omega

theorem headRest_init {initial memused : ℤ} :
    HeadRest hshParserInit (hsBufferInit blk initial memused).1 {} :=
  ⟨⟨rfl, rfl, show hshHttpStart < 98 by decide, rfl, rfl, rfl, rfl, rfl,
    by simp [enter, hsBufferInit], le_refl 0, le_refl 0, rfl, rfl,
    show httpFlagCheck 0 flagTokenReady = false by decide,
    show httpFlagCheck 0 flagDone = false by decide,
    show (-9223372036854775808 : ℤ) ≤ 0 by decide⟩, rfl, le_refl 0⟩

theorem HeadRest.of_appended {buffer' : HshBufferS} {bs : List UInt8} (hr : HeadRest parser buffer h)
    (app : Appended true buffer bs buffer') : HeadRest parser buffer' h := by
  obtain ⟨sim, silent, inside⟩ := hr
  have index : buffer.index = h.offset := HeadRest.index_eq ⟨sim, silent, inside⟩
  have length := app.length_eq
  refine ⟨⟨rfl, rfl, sim.state_lt, sim.phase_eq, sim.type_eq, sim.index_eq, sim.count_eq,
    sim.limit_eq, ?_, sim.index_nonneg, sim.index_le, sim.typed, rfl, sim.tokenReady, sim.done,
    sim.content⟩, silent, by omega⟩
  unfold enter
  dsimp only
  rw [app.index_eq, index]

theorem unconsumed_appended {buffer' : HshBufferS} {bs : List UInt8} (nonneg : 0 ≤ buffer.index)
    (le : buffer.index ≤ buffer.length) (app : Appended true buffer bs buffer') :
    unconsumed buffer' = unconsumed buffer ++ bs := by
  have length := app.length_eq
  rw [unconsumed, unconsumed, app.index_eq, length,
    show (buffer.length + bs.length - buffer.index).toNat =
      (buffer.length - buffer.index).toNat + bs.length by omega, slice_add,
    show buffer.index + ((buffer.length - buffer.index).toNat : ℤ) = buffer.length by omega,
    app.new rfl]
  congr 1
  exact slice_congr fun i lo hi => app.old rfl i (by omega) (by omega)

theorem leave_rest {q : ℤ} {t : Exec} {g : HeadScan} (hs : HeadSim buffer q t g) {flags : BitVec 8}
    {i : ℤ} (tokenReady : httpFlagCheck flags flagTokenReady = false)
    (done : httpFlagCheck flags flagDone = false) (bound : g.offset ≤ buffer.length) :
    HeadRest { t.parser with state := t.cs, flags := flags, sequenceId := i }
      { buffer with index := g.offset } { g with emitted := none } :=
  ⟨⟨rfl, rfl, hs.state_lt, hs.phase_eq, hs.type_eq, hs.index_eq, hs.count_eq, hs.limit_eq, rfl,
    hs.index_nonneg, hs.index_le, hs.typed, rfl, tokenReady, done, hs.content⟩, rfl, bound⟩

theorem stored_index {q : ℤ} {t : Exec} {g : HeadScan} {m : ℤ} (hb : BufferOk true m buffer)
    (hs : HeadSim buffer q t g) (bound : g.offset ≤ buffer.length) :
    ({ t.buffer with index := wrap32 (t.p - t.buffer.buf) } : HshBufferS) =
      { buffer with index := g.offset } := by
  have nonneg := hs.index_nonneg
  have le := hs.index_le
  have lt := hb.length_lt
  rw [hs.p_eq, hs.buffer_eq, show buffer.buf + g.offset - buffer.buf = g.offset by ring,
    wrap32_eq (by omega) (by omega)]

theorem exit_sim {q : ℤ} {t : Exec} {g : HeadScan} (exit : HeadExit max blk buffer q t g)
    (hnone : g.emitted = none) : HeadSim buffer q t g := by
  unfold HeadExit at exit
  rw [hnone] at exit
  exact exit

theorem leave_silent {q : ℤ} {t : Exec} {g : HeadScan} {m : ℤ} (hb : BufferOk true m buffer)
    (exit : HeadExit max blk buffer q t g) (hnone : g.emitted = none) (bound : g.offset ≤ buffer.length) :
    leave t = (noneToken, { t.parser with
      state := t.cs, flags := t.parser.flags, sequenceId := buffer.sequenceId },
      { buffer with index := g.offset }) := by
  have hs := exit_sim exit hnone
  unfold leave
  dsimp only
  rw [if_neg (by rw [hs.tokenReady]; decide), stored_index hb hs bound, hs.buffer_eq]

theorem leave_ready {t : Exec} (ready : httpFlagCheck t.parser.flags flagTokenReady = true) :
    leave t = (t.parser.token, { t.parser with
      state := t.cs, flags := httpFlagClear t.parser.flags flagTokenReady,
      sequenceId := t.parser.sequenceId },
      { t.buffer with index := wrap32 (t.p - t.buffer.buf) }) := by
  unfold leave
  exact if_pos ready

variable (max blk) in
theorem hshParserExec_head {m : ℤ} (hb : BufferOk true m buffer) (hr : HeadRest parser buffer h)
    (live : isHead h.ph = true) (fresh : parser.sequenceId ≠ buffer.sequenceId) :
    ∃ consumed h' token parser' buffer',
      hshParserExec max blk parser buffer = some (token, parser', buffer') ∧
        ExecHead max blk parser buffer h consumed h' token parser' buffer' ∧
        ∀ P : Phase → UInt8 → Prop, ExecOk (fun c s => P (phase s.cs) c) (fun _ _ _ => True) max blk
          parser buffer → HeadRunOk P consumed h := by
  obtain ⟨sim, silent, inside⟩ := hr
  have index : buffer.index = h.offset := HeadRest.index_eq ⟨sim, silent, inside⟩
  have unread : unconsumed buffer = slice buffer.data h.offset (buffer.length - h.offset).toNat := by
    rw [unconsumed, index]
  have running : ¬ (httpFlagCheck parser.flags flagDone ∨ parser.sequenceId = buffer.sequenceId) := by
    rintro (hd | hq)
    · exact absurd (sim.done.symm.trans hd) (by decide)
    · exact fresh hq
  have herr : (enter parser buffer).cs ≠ hshHttpError := by
    intro h0
    have := sim.phase_eq
    rw [(phase_error sim.state_lt).2 h0] at this
    rw [← this] at live
    cases live
  obtain ⟨t, hscan, consumed, h', breaks, ⟨⟨left, hleft, hall⟩, run, hbreaks, exit, last⟩, good⟩ :=
    scan_head max blk (q := parser.sequenceId) hb _ rfl sim silent inside live
  rw [← unread] at hleft
  have result : hshParserExec max blk parser buffer = some (leave t) := by
    unfold hshParserExec writeExec
    rw [if_neg running, if_neg fun h => herr h.2]
    change ((machine max blk).scan (bytesFrom buffer (enter parser buffer).p) _).map leave = _
    rw [hscan]
    rfl
  have bound : h'.offset ≤ buffer.length := by
    have offset := headRun_offset run
    have length := congrArg List.length hleft
    rw [unread, slice_length, List.length_append] at length
    dsimp only at offset
    omega
  have good' : ∀ P : Phase → UInt8 → Prop, ExecOk (fun c s => P (phase s.cs) c) (fun _ _ _ => True)
      max blk parser buffer → HeadRunOk P consumed h := fun P ok => good P (ok ⟨running, fun h => herr h.2⟩)
  rw [result]
  rcases hbreaks with ⟨rfl, hnone⟩ | rfl
  · exact ⟨consumed, _, noneToken, _, _, by rw [leave_silent hb exit hnone bound],
      .none hleft hall run (.inl rfl) (leave_rest (exit_sim exit hnone)
        (exit_sim exit hnone).tokenReady (exit_sim exit hnone).done bound) rfl, good'⟩
  cases hemit : h'.emitted with
  | none =>
    rw [hemit] at run
    exact ⟨consumed, _, noneToken, _, _, by rw [leave_silent hb exit hemit bound],
      .none hleft (by simp) run (.inr rfl) (leave_rest (exit_sim exit hemit)
        (exit_sim exit hemit).tokenReady (exit_sim exit hemit).done bound) rfl, good'⟩
  | some sh =>
    unfold HeadExit at exit
    rw [hemit] at exit run
    obtain ⟨ready, hshape, hdone, hrest⟩ := exit
    subst hshape
    by_cases hph : h'.ph = .headersDone
    · have left' := hdone hph
      refine ⟨consumed, { h' with emitted := .none }, _, _, _,
        congrArg some (leave_ready ready), ?_, good'⟩
      exact .done hleft run hph (last hph _ hemit) ⟨left'.state_lt, tokenReady_clear _,
        (done_clear_tokenReady _).trans left'.done⟩ left'.mode left'.sized
    · have hs := hrest hph
      have stored : ({ t.buffer with index := wrap32 (t.p - t.buffer.buf) } : HshBufferS) =
          { buffer with index := h'.offset } := stored_index (t := clearReady t) hb hs bound
      refine ⟨consumed, { h' with emitted := .none }, _, _, _,
        congrArg some (leave_ready ready), ?_, good'⟩
      rw [stored]
      refine .token hleft run ?_ hph
        (leave_rest (t := clearReady t) hs (tokenReady_clear _) hs.done bound) hs.sequenceId_eq
      · have typed := hs.type_eq
        change t.parser.token.type = h'.type at typed
        rw [typed]
        exact hs.typed

end Exec

end HttpServer.HeadMachine
