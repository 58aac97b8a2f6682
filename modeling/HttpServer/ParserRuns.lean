import HttpServer.ParserInvariant

set_option autoImplicit false

/-!
# Runs of the parser on one request buffer

A run starts with a fresh buffer and parser and takes, in any order, reads from the socket and
calls of `hsh_parser_exec`. The reads return anything, and every allocation any address.
-/
namespace HttpServer.ParserRuns
open Scanner ParserTables HttpServer.Parser ReadBuffer ParserInvariant

/-- What a call adds to the tokens seen so far. -/
def emitted (token : HshTokenS) : List HshTokenS := if token.type = .none then [] else [token]

/-- The states that runs reach whose calls all meet `ok`: after the bytes `input` were read and
    the tokens `tokens` returned. -/
inductive ParserRun (ok : HshParserS → HshBufferS → NewBlock → Prop) (initial max : ℤ) :
    List UInt8 → List HshTokenS → HshParserS → HshBufferS → Prop where
  | init {blk : NewBlock} (memused : ℤ) (hblk : BlockOk blk) :
      ParserRun ok initial max [] [] hshParserInit (hsBufferInit blk initial memused).1
  | read {input : List UInt8} {tokens : List HshTokenS} {parser : HshParserS} {buffer : HshBufferS}
      {calls : List ReadCall} {memused : ℤ} {r : ReadReturn}
      (run : ParserRun ok initial max input tokens parser buffer)
      (hblk : ∀ call ∈ calls, BlockOk call.blk)
      (hr : hsReadIntoBuffer max calls buffer memused = some r) :
      ParserRun ok initial max (input ++ received calls) tokens parser r.buffer
  | exec {input : List UInt8} {tokens : List HshTokenS} {parser parser' : HshParserS}
      {buffer buffer' : HshBufferS} {blk : NewBlock} {token : HshTokenS}
      (run : ParserRun ok initial max input tokens parser buffer) (hblk : BlockOk blk)
      (hok : ok parser buffer blk)
      (hr : hshParserExec max blk parser buffer = some (token, parser', buffer')) :
      ParserRun ok initial max input (tokens ++ emitted token) parser' buffer'

section Invariant

variable {tokens strict : Bool} {initial max : ℤ} {input : List UInt8} {toks : List HshTokenS}
  {parser : HshParserS} {buffer : HshBufferS}

theorem init_rest {blk : NewBlock} (memused : ℤ) (hblk : BlockOk blk) (initial_lt : initial < 2147483648)
    (size : strict = true → 0 ≤ initial ∧ initial ≤ max) :
    Rest strict max hshParserInit (hsBufferInit blk initial memused).1 := by
  have cur : cursor (enter hshParserInit (hsBufferInit blk initial memused).1) = 0 := cursor_enter
  refine ⟨⟨⟨hblk.1, hblk.2, le_refl 0, le_refl 0, by norm_num [hsBufferInit, enter], initial_lt, size⟩,
    show hshHttpStart < 98 by decide, ⟨by norm_num [hshParserInit, enter], by norm_num [hshParserInit, enter],
      by norm_num [hshParserInit, enter]⟩, .inl ⟨?_, ?_, le_refl 0, ?_⟩, ?_, ?_⟩, by decide⟩
  · rw [cur]
    exact le_refl 0
  · rw [cur]
    exact le_refl 0
  · rw [cur]
    exact le_refl 0
  · intro _ hd
    change ParserGrammar.phase hshHttpStart = _ ∨ ParserGrammar.phase hshHttpStart = _ at hd
    exact absurd hd (by decide)
  · intro _ hd
    change ParserGrammar.phase hshHttpStart = _ ∨ ParserGrammar.phase hshHttpStart = _ at hd
    exact absurd hd (by decide)

theorem rest_appended {buffer' : HshBufferS} {bs : List UInt8} (h : Rest strict max parser buffer)
    (hok : BufferOk strict max buffer') (happ : Appended strict buffer bs buffer') :
    Rest strict max parser buffer' := by
  have cur : cursor (enter parser buffer') = cursor (enter parser buffer) := by
    rw [cursor_enter, cursor_enter, happ.index_eq]
  have length := happ.length_eq
  refine ⟨⟨hok, h.inv.state_lt,
    ⟨h.inv.counters.1, h.inv.counters.2, h.inv.counters.3⟩, ?_, ?_, ?_⟩, h.tokenReady⟩
  · refine h.inv.placed.imp ?_ id
    rintro ⟨ahi, le, nonneg, token⟩
    refine ⟨?_, ?_, nonneg, ?_⟩
    · rw [cur]
      exact happ.ahi_eq.trans_le ahi
    · rw [cur]
      change _ ≤ buffer'.length
      change _ ≤ buffer.length at le
      omega
    · rw [cur]
      exact token
  · intro running hd
    exact happ.ahi_eq.trans_le (h.inv.data running hd)
  · intro running hd
    rw [cur]
    exact (h.inv.large running hd).trans happ.ahi_eq.symm

/-- The invariant of the calls holds in every state of a run that meets their condition. -/
theorem ParserRun.rest {B : UInt8 → Exec → Prop} (initial_lt : initial < 2147483648)
    (max_ge : -2147483648 ≤ max) (max_lt : max < 2147483648)
    (size : strict = true → 0 ≤ initial ∧ initial ≤ max)
    {ok : HshParserS → HshBufferS → NewBlock → Prop}
    (hok : ∀ parser buffer blk, ok parser buffer blk →
      ExecOk B (fun a _ s => ActionOk tokens strict max blk a s) max blk parser buffer)
    (run : ParserRun ok initial max input toks parser buffer) : Rest strict max parser buffer := by
  induction run with
  | init memused hblk => exact init_rest memused hblk initial_lt size
  | read _ hblk hr ih =>
    obtain ⟨bufferOk, appended, -⟩ := hsReadIntoBuffer_spec max_ge max_lt hblk ih.inv.buffer hr
    exact rest_appended ih bufferOk appended
  | exec _ hblk hexec hr ih =>
    have spec := hshParserExec_spec max_ge max_lt hblk ih (hok _ _ _ hexec)
    rw [hr] at spec
    exact spec.1

end Invariant

/-- `hsh_parser_exec` until it returns `HSH_TOK_NONE`, in calls that meet `ok`. -/
def drain (ok : HshParserS → HshBufferS → NewBlock → Prop) [∀ parser buffer blk, Decidable (ok parser buffer blk)]
    (max : ℤ) (blk : NewBlock) : ℕ → HshParserS → HshBufferS → Option (List HshTokenS × HshParserS × HshBufferS)
  | 0, _, _ => none
  | fuel + 1, parser, buffer =>
    if ok parser buffer blk then
      match hshParserExec max blk parser buffer with
      | none => none
      | some (token, parser, buffer) =>
        if token.type = .none then some ([], parser, buffer)
        else (drain ok max blk fuel parser buffer).map fun r => (token :: r.1, r.2)
    else none

theorem ParserRun.drain {ok : HshParserS → HshBufferS → NewBlock → Prop}
    [∀ parser buffer blk, Decidable (ok parser buffer blk)] {initial max : ℤ} {blk : NewBlock} (hblk : BlockOk blk)
    {fuel : ℕ} {input : List UInt8} {tokens : List HshTokenS} {parser : HshParserS} {buffer : HshBufferS}
    {r : List HshTokenS × HshParserS × HshBufferS} (run : ParserRun ok initial max input tokens parser buffer)
    (hr : ParserRuns.drain ok max blk fuel parser buffer = some r) :
    ParserRun ok initial max input (tokens ++ r.1) r.2.1 r.2.2 := by
  induction fuel generalizing parser buffer tokens r with
  | zero => cases hr
  | succ fuel ih =>
    unfold ParserRuns.drain at hr
    split at hr
    swap
    · cases hr
    rename_i meets
    cases he : hshParserExec max blk parser buffer with
    | none => rw [he] at hr; cases hr
    | some e =>
      obtain ⟨token, parser', buffer'⟩ := e
      have next := run.exec hblk meets he
      rw [he] at hr
      dsimp only at hr
      unfold emitted at next
      split at hr
      · rename_i hnone
        cases hr
        rwa [if_pos hnone] at next
      · rename_i hsome
        obtain ⟨rest, hrest, hr'⟩ := Option.map_eq_some_iff.1 hr
        cases hr'
        rw [if_neg hsome] at next
        simpa using ih (r := rest) next hrest

section Session

/-! Two reads of a connection with the capacities of the server, and the calls in between. -/

def block (addr : ℤ) : NewBlock := ⟨addr, fun _ => 0⟩

def readBytes (bs : List UInt8) (buffer : HshBufferS) : Option ReadReturn :=
  hsReadIntoBuffer 8388608 [⟨.bytes bs, block 4096⟩, ⟨.fail, block 4096⟩] buffer 0

def freshBuffer : HshBufferS := (hsBufferInit (block 4096) 1024 0).1

/-- The state before the first call that sees `second`, when the calls before meet `ok`. -/
def sessionMeeting (ok : HshParserS → HshBufferS → NewBlock → Prop)
    [∀ parser buffer blk, Decidable (ok parser buffer blk)] (first second : List UInt8) :
    Option (HshParserS × HshBufferS) :=
  (readBytes first freshBuffer).bind fun r =>
    (drain ok 8388608 (block 4096) 64 hshParserInit r.buffer).bind fun d =>
      (readBytes second d.2.2).map fun r => (d.2.1, r.buffer)

abbrev session (first second : List UInt8) : Option (HshParserS × HshBufferS) :=
  sessionMeeting (fun _ _ _ => True) first second

theorem readBytes_run {ok : HshParserS → HshBufferS → NewBlock → Prop} {input bs : List UInt8}
    {tokens : List HshTokenS} {parser : HshParserS} {buffer : HshBufferS} {r : ReadReturn}
    (run : ParserRun ok 1024 8388608 input tokens parser buffer) (hr : readBytes bs buffer = some r) :
    ParserRun ok 1024 8388608 (input ++ bs) tokens parser r.buffer := by
  have all : received [⟨.bytes bs, block 4096⟩, ⟨.fail, block 4096⟩] = bs := by
    simp [received, ReadResult.received]
  rw [← all]
  refine run.read ?_ hr
  intro call hcall
  simp only [List.mem_cons, List.not_mem_nil, or_false] at hcall
  rcases hcall with rfl | rfl <;> exact ⟨by norm_num [block], by norm_num [block]⟩

theorem freshBuffer_run {ok : HshParserS → HshBufferS → NewBlock → Prop} :
    ParserRun ok 1024 8388608 [] [] hshParserInit freshBuffer :=
  .init 0 ⟨by decide, by decide⟩

theorem session_run {ok : HshParserS → HshBufferS → NewBlock → Prop}
    [∀ parser buffer blk, Decidable (ok parser buffer blk)] {first second : List UInt8} {r : HshParserS × HshBufferS}
    (h : sessionMeeting ok first second = some r) :
    ∃ tokens, ParserRun ok 1024 8388608 (first ++ second) tokens r.1 r.2 := by
  obtain ⟨r₁, h₁, h⟩ := Option.bind_eq_some_iff.1 h
  obtain ⟨d, hd, h⟩ := Option.bind_eq_some_iff.1 h
  obtain ⟨r₂, h₂, rfl⟩ := Option.map_eq_some_iff.1 h
  have drained := (readBytes_run freshBuffer_run h₁).drain ⟨by decide, by decide⟩ hd
  exact ⟨_, by simpa using readBytes_run drained h₂⟩

end Session

/-- The calls end a body only when it was received whole and its length has not wrapped. -/
def BodiesReceived (max : ℤ) (parser : HshParserS) (buffer : HshBufferS) (blk : NewBlock) : Prop :=
  ExecOk (fun _ _ => True) (fun a _ s => ChunkOk a s ∧ BodyOk a s) max blk parser buffer

/-- The calls keep the cursor at the place in the block that they have come to. -/
def CursorKept (max : ℤ) (parser : HshParserS) (buffer : HshBufferS) (blk : NewBlock) : Prop :=
  ExecOk (fun _ _ => True) (fun a _ s => ChunkOk a s ∧ PlaceOk max blk a s) max blk parser buffer

instance (max : ℤ) (parser : HshParserS) (buffer : HshBufferS) (blk : NewBlock) :
    Decidable (BodiesReceived max parser buffer blk) :=
  inferInstanceAs (Decidable (ExecOk _ _ _ _ _ _))
instance (max : ℤ) (parser : HshParserS) (buffer : HshBufferS) (blk : NewBlock) :
    Decidable (CursorKept max parser buffer blk) :=
  inferInstanceAs (Decidable (ExecOk _ _ _ _ _ _))

section Results

variable {initial max : ℤ} {input : List UInt8} {tokens : List HshTokenS} {parser : HshParserS}
  {buffer : HshBufferS} {blk : NewBlock}

/-- Every byte of a token was received when the call that returns it was made. -/
theorem hshParserExec_token_bounds (initial_lt : initial < 2147483648)
    (max_ge : -2147483648 ≤ max) (max_lt : max < 2147483648)
    (run : ParserRun (BodiesReceived max) initial max input tokens parser buffer) (hblk : BlockOk blk)
    (ok : BodiesReceived max parser buffer blk) {token : HshTokenS} {parser' : HshParserS}
    {buffer' : HshBufferS}
    (hr : hshParserExec max blk parser buffer = some (token, parser', buffer')) :
    0 ≤ token.index ∧ 0 ≤ token.len ∧ token.index + token.len ≤ buffer.length := by
  have weaken : ∀ parser buffer blk, BodiesReceived max parser buffer blk →
      ExecOk (fun _ _ => True) (fun a _ s => ActionOk true false max blk a s) max blk parser buffer :=
    fun _ _ _ ok => ok.mono (fun _ _ h => h)
      (fun _ _ _ h => ⟨h.1, fun hs => absurd hs (by decide), fun _ => h.2⟩)
  have rest : Rest false max parser buffer := run.rest initial_lt max_ge max_lt (fun hs => absurd hs (by decide))
    weaken
  have spec := hshParserExec_spec max_ge max_lt hblk rest (weaken _ _ _ ok)
  rw [hr] at spec
  exact spec.2.1 rfl

/-- The call that reads a body of two bytes. -/
theorem hshParserExec_token_bounds_post : ∃ tokens parser buffer e,
    ParserRun (BodiesReceived 8388608) 1024 8388608 (ascii "POST / HTTP/1.1\r\nContent-Length: 2\r\n\r\n" ++ ascii "ab")
        tokens parser buffer ∧
      BodiesReceived 8388608 parser buffer (block 4096) ∧
      hshParserExec 8388608 (block 4096) parser buffer = some e ∧ e.1.type = .body ∧ e.1.len = 2 ∧
      0 ≤ e.1.index ∧ 0 ≤ e.1.len ∧ e.1.index + e.1.len ≤ buffer.length := by
  have run : (sessionMeeting (BodiesReceived 8388608) (ascii "POST / HTTP/1.1\r\nContent-Length: 2\r\n\r\n")
      (ascii "ab")).any (fun r => decide (BodiesReceived 8388608 r.1 r.2 (block 4096)) &&
        (hshParserExec 8388608 (block 4096) r.1 r.2).any fun e => decide (e.1.type = .body ∧ e.1.len = 2)) = true := by
    decide +kernel
  obtain ⟨⟨parser, buffer⟩, hs, checks⟩ := (Option.any_eq_true _ _).1 run
  obtain ⟨ok, hr⟩ := Bool.and_eq_true_iff.1 checks
  obtain ⟨e, he, body⟩ := (Option.any_eq_true _ _).1 hr
  obtain ⟨typed, len⟩ := of_decide_eq_true body
  obtain ⟨tokens, reached⟩ := session_run hs
  exact ⟨tokens, parser, buffer, e, reached, of_decide_eq_true ok, he, typed, len,
    hshParserExec_token_bounds (by norm_num) (by norm_num) (by norm_num) reached ⟨by decide, by decide⟩
      (of_decide_eq_true ok) he⟩

/-- A body of two bytes of which one was received. -/
theorem body_token_past_length : ∃ input tokens parser buffer e,
    ParserRun (fun _ _ _ => True) 1024 8388608 input tokens parser buffer ∧
      hshParserExec 8388608 (block 4096) parser buffer = some e ∧
      e.1.type = .body ∧ buffer.length < e.1.index + e.1.len := by
  have run : (session (ascii "POST / HTTP/1.1\r\nContent-Length: 2\r\n\r\n") (ascii "a")).any fun r =>
      (hshParserExec 8388608 (block 4096) r.1 r.2).any fun e =>
        decide (e.1.type = .body ∧ r.2.length < e.1.index + e.1.len) := by
    decide +kernel
  obtain ⟨⟨parser, buffer⟩, hs, hr⟩ := (Option.any_eq_true _ _).1 run
  obtain ⟨e, he, htoken⟩ := (Option.any_eq_true _ _).1 hr
  obtain ⟨tokens, reached⟩ := session_run hs
  exact ⟨_, tokens, parser, buffer, e, reached, he, by simpa using htoken⟩

theorem CursorKept.actionOk (ok : CursorKept max parser buffer blk) :
    ExecOk (fun _ _ => True) (fun a _ s => ActionOk false true max blk a s) max blk parser buffer :=
  ok.mono (fun _ _ h => h) (fun _ _ _ h => ⟨h.1, fun _ => h.2, fun ht => absurd ht (by decide)⟩)

/-- The invariant of the calls holds in every state of a run that keeps the cursor. -/
theorem rest_kept (initial_ge : 0 ≤ initial) (initial_le : initial ≤ max) (max_lt : max < 2147483648)
    (run : ParserRun (CursorKept max) initial max input tokens parser buffer) : Rest true max parser buffer :=
  run.rest (by omega) (by omega) max_lt (fun _ => ⟨initial_ge, initial_le⟩) fun _ _ _ => CursorKept.actionOk

/-- A call is defined, examines only received bytes, consumes a prefix of what was unconsumed,
    and leaves the index at the rest, inside the block. -/
theorem hshParserExec_cursor (initial_ge : 0 ≤ initial) (initial_le : initial ≤ max)
    (max_lt : max < 2147483648)
    (run : ParserRun (CursorKept max) initial max input tokens parser buffer) (hblk : BlockOk blk)
    (ok : CursorKept max parser buffer blk) :
    (enter parser buffer).p ≤ (enter parser buffer).pe ∧
      ExecOk (fun _ s => s.p < s.pe) (fun _ _ _ => True) max blk parser buffer ∧
      ∃ token parser' buffer', hshParserExec max blk parser buffer = some (token, parser', buffer') ∧
        0 ≤ buffer'.index ∧ buffer'.index ≤ buffer'.length ∧ buffer'.length ≤ buffer'.capacity ∧
        buffer'.capacity ≤ max ∧ buffer'.afterHeadersIndex ≤ buffer'.length ∧
        ∃ k, unconsumed buffer' = (unconsumed buffer).drop k := by
  have max_ge : -2147483648 ≤ max := by omega
  have rest := rest_kept initial_ge initial_le max_lt run
  have bounds : ∀ {parser : HshParserS} {buffer : HshBufferS}, Rest true max parser buffer →
      0 ≤ buffer.index ∧ buffer.index ≤ buffer.length := by
    intro parser buffer h
    have placed := h.inv.placed.resolve_right (by simp)
    have ahi := h.inv.buffer.ahi_nonneg
    have lo := placed.ahi_le
    have hi := placed.le_length
    rw [cursor_enter] at lo hi
    exact ⟨ahi.trans lo, hi⟩
  have spec := hshParserExec_spec max_ge max_lt hblk rest ok.actionOk
  refine ⟨?_, hshParserExec_received max_ge max_lt hblk rest ok.actionOk, ?_⟩
  · have := (bounds rest).2
    unfold enter
    dsimp only
    omega
  cases hr : hshParserExec max blk parser buffer with
  | none =>
    rw [hr] at spec
    cases (spec : true = false)
  | some r =>
    obtain ⟨token, parser', buffer'⟩ := r
    rw [hr] at spec
    obtain ⟨rest', -, consumed⟩ := spec
    have held := rest'.inv.buffer.held rfl
    exact ⟨token, parser', buffer', rfl, (bounds rest').1, (bounds rest').2, held.1, held.2,
      rest'.inv.buffer.ahi_le, consumed rfl⟩

/-- The call that reads a body of two bytes. -/
theorem hshParserExec_cursor_post : ∃ tokens parser buffer e,
    ParserRun (CursorKept 8388608) 1024 8388608 (ascii "POST / HTTP/1.1\r\nContent-Length: 2\r\n\r\n" ++ ascii "ab")
        tokens parser buffer ∧
      CursorKept 8388608 parser buffer (block 4096) ∧
      hshParserExec 8388608 (block 4096) parser buffer = some e ∧ e.1.type = .body ∧
      0 ≤ e.2.2.index ∧ e.2.2.index ≤ e.2.2.length ∧ ∃ k, unconsumed e.2.2 = (unconsumed buffer).drop k := by
  have run : (sessionMeeting (CursorKept 8388608) (ascii "POST / HTTP/1.1\r\nContent-Length: 2\r\n\r\n")
      (ascii "ab")).any (fun r => decide (CursorKept 8388608 r.1 r.2 (block 4096)) &&
        (hshParserExec 8388608 (block 4096) r.1 r.2).any fun e => decide (e.1.type = .body)) = true := by
    decide +kernel
  obtain ⟨⟨parser, buffer⟩, hs, checks⟩ := (Option.any_eq_true _ _).1 run
  obtain ⟨ok, hr⟩ := Bool.and_eq_true_iff.1 checks
  obtain ⟨e, he, body⟩ := (Option.any_eq_true _ _).1 hr
  obtain ⟨tokens, reached⟩ := session_run hs
  obtain ⟨-, -, token, parser', buffer', hexec, lo, hi, -, -, -, consumed⟩ :=
    hshParserExec_cursor (by norm_num) (by norm_num) (by norm_num) reached ⟨by decide, by decide⟩ (of_decide_eq_true ok)
  cases hexec.symm.trans he
  exact ⟨tokens, parser, buffer, _, reached, of_decide_eq_true ok, hexec, of_decide_eq_true body, lo, hi, consumed⟩

/-- The resize for a small body moves the block, and the index is taken from the old one. -/
theorem index_outside_after_resize : ∃ input tokens parser buffer e,
    ParserRun (fun _ _ _ => True) 1024 8388608 input tokens parser buffer ∧
      hshParserExec 8388608 (block 1048576) parser buffer = some e ∧ e.2.2.index < 0 := by
  have run : (session (ascii "POST / HTTP/1.1\r\nContent-Length: 2000\r\n\r") (ascii "\n")).any
      fun r => (hshParserExec 8388608 (block 1048576) r.1 r.2).any fun e =>
        decide (e.2.2.index < 0) := by
    decide +kernel
  obtain ⟨⟨parser, buffer⟩, hs, hr⟩ := (Option.any_eq_true _ _).1 run
  obtain ⟨e, he, hindex⟩ := (Option.any_eq_true _ _).1 hr
  obtain ⟨tokens, reached⟩ := session_run hs
  exact ⟨_, tokens, parser, buffer, e, reached, he, by simpa using hindex⟩

end Results

end HttpServer.ParserRuns
