import HttpServer.KeepAlive
import HttpServer.OwnHeads
import HttpServer.SharedCounter

set_option autoImplicit false

/-!
# Responses without the request buffer

`http_request_free_buffer` before a response is compared with the response alone. The response reads the
request only to decide whether the connection is kept, and then it needs the buffer.
-/
namespace HttpServer.FreedBuffers
open RequestUtil Respond ResponseText ReadBuffer HeadMachine HeadSoundness HeadTexts RequestRuns KeptHeads KeepAlive
  Connection HeldRequests GivenPieces OwnHeads SharedCounter

/-- `http_respond` or `http_respond_chunk` -/
inductive Respond where
  | respond
  | respondChunk
deriving DecidableEq

def Respond.call (kind : Respond) (date : CString) (blks : ℕ → NewBlock) (request : HttpRequestS) (response : HttpResponseS)
    (memused : ℤ) : Option (HttpRequestS × ℤ) :=
  match kind with
  | .respond => hsRequestRespond date blks request response memused
  | .respondChunk => hsRequestRespondChunk date blks request response memused

/-- The response decides whether the connection is kept. -/
def Decides (kind : Respond) (request : HttpRequestS) : Prop :=
  httpFlagCheck request.flags httpAutomatic = true ∧
    (kind = .respondChunk → httpFlagCheck request.flags httpChunkedResponse = false)

def httpRequestFreeBuffer (request : HttpRequestS) (memused : ℤ) : HttpRequestS × ℤ :=
  let freed := hsBufferFree request.buffer memused
  ({ request with buffer := freed.1 }, freed.2)

/-- A request whose head `w` was accepted, with the head in its buffer. The tokens of the head come behind those of the
    earlier requests of the connection, of which the first are the ones of an accepted head, too. -/
structure AcceptedRequest (max : ℤ) (w : List UInt8) (request : HttpRequestS) : Prop where
  front : Front max w request.buffer
  accepted : AcceptedHead w
  shows : ∃ earlier own, lines request.tokens = earlier ++ own ∧ own.map shape = headShapes w
  begun : Begun request.tokens

/-- The same bytes are written, the same is decided about the connection, and the memory is the same. -/
structure SameResponse (r r' : HttpRequestS × ℤ) : Prop where
  bytes : sent r'.1 = sent r.1
  keep : httpFlagCheck r'.1.flags httpKeepAlive = httpFlagCheck r.1.flags httpKeepAlive
  memused : r'.2 = r.2

section Version

variable {max : ℤ} {w : List UInt8} {request : HttpRequestS} {sh : Shape}

theorem version_index_pos (accepted : AcceptedHead w) (inside : Inside w sh) (version : IsVersion (text w sh)) :
    0 < sh.2.1 := by
  by_contra nonpos
  have zero : sh.2.1 = 0 := by
    have lo := inside.1
    omega
  have start : (ascii "HTTP/") <+: w := by
    have part : text w sh <+: w := by
      unfold text
      rw [zero]
      exact List.take_prefix _ _
    exact List.IsPrefix.trans (by rcases version with h | h <;> rw [h] <;> decide) part
  obtain ⟨rest, rfl⟩ := start
  obtain ⟨h, breaks, run, done⟩ := accepted
  rw [headRun_append] at run
  obtain ⟨r, first, run⟩ := Option.bind_eq_some_iff.1 run
  have error : (headRun (ascii "HTTP/") {}).all fun r => decide (r.1.ph = .error) := by decide +kernel
  rw [first] at error
  have dead : r.1.ph = .error := of_decide_eq_true error
  obtain ⟨r', run', heq⟩ := Option.map_eq_some_iff.1 run
  cases rest with
  | nil =>
    cases run'
    cases heq
    exact absurd (dead.symm.trans done) (by decide)
  | cons c rest =>
    have live := HeadGrammar.headRun_live run'
    rw [dead] at live
    cases live

/-- The version that is found is the one of the first request, and it does not lie at the front of the buffer. -/
theorem begun_version (h : Begun request.tokens) : ∃ t : HshTokenS, 0 < t.index ∧
    (request.tokens.find? fun token => token.type = .version) = some t := by
  obtain ⟨w, head, rest, accepted, shapes, tokens⟩ := h
  obtain ⟨t, found, inside, -, isVersion⟩ := version_token accepted shapes
  refine ⟨t, version_index_pos accepted inside isVersion, ?_⟩
  have same : (request.tokens.find? fun token => token.type = .version) =
      (lines request.tokens).find? fun token => token.type = .version := by
    unfold lines
    rw [List.find?_filter]
    refine congrArg (request.tokens.find? ·) (funext fun token => ?_)
    cases token.type <;> decide
  rw [same, tokens, List.find?_append, found]
  rfl

/-- Without its buffer the request does not tell its version. -/
theorem AcceptedRequest.detect_freed (h : AcceptedRequest max w request) (flags : BitVec 8) (memused : ℤ) :
    hsRequestDetectKeepAliveFlag { (httpRequestFreeBuffer request memused).1 with flags := flags } = none := by
  obtain ⟨t, pos, version⟩ := begun_version h.begun
  have buf := h.front.ok.buf_pos
  have freed : (hsBufferFree request.buffer memused).1.buf = 0 := by
    unfold hsBufferFree
    rw [if_pos buf.ne']
  have string : hsGetTokenString { (httpRequestFreeBuffer request memused).1 with flags := flags } .version =
      { buf := t.index, len := t.len } := by
    have found : ({ (httpRequestFreeBuffer request memused).1 with flags := flags } : HttpRequestS).tokens.find?
        (fun token => token.type = .version) = some t := version
    unfold hsGetTokenString
    rw [found]
    change ({ buf := (hsBufferFree request.buffer memused).1.buf + t.index, len := t.len } : HttpStringT) = _
    rw [freed, zero_add]
  have byte : ∀ address, byteAt { (httpRequestFreeBuffer request memused).1 with flags := flags }.buffer address = none :=
    fun address => if_neg fun h => h.1 freed
  unfold hsRequestDetectKeepAliveFlag
  dsimp only
  rw [string, if_neg pos.ne', byte]

end Version

section Shifted

variable {date : CString} {request request' : HttpRequestS} {response : HttpResponseS}

/-- A response that decides nothing reads the flags of the request, and nothing else of it. -/
theorem httpSerializeHeaders_shifted (d : ℤ) (plain : httpFlagCheck request.flags httpAutomatic = false)
    (same : request'.flags = request.flags) (s : Printing) : ∃ printed : Option Printing,
    httpSerializeHeaders date request response s = printed.map (fun t => (request, t)) ∧
      httpSerializeHeaders date request' response (raisePrinting d s) = printed.map fun t => (request', raisePrinting d t) := by
  unfold httpSerializeHeaders
  dsimp only
  rw [same, plain, if_neg (by decide), if_neg (by decide), Option.bind_some, Option.bind_some, same]
  generalize hsResponseSetHeader response (cstring "Connection")
    (if httpFlagCheck request.flags httpKeepAlive = true then cstring "keep-alive" else cstring "close") = told
  by_cases known : 0 ≤ told.status ∧ told.status < 600
  swap
  · rw [if_neg known, if_neg known]
    exact ⟨none, rfl, rfl⟩
  rw [if_pos known, if_pos known, printf_raise]
  cases s.printf (statusLine told.status date) with
  | none => exact ⟨none, rfl, rfl⟩
  | some t =>
    rw [Option.map_some, Option.bind_some, Option.bind_some]
    cases httpFlagCheck request.flags httpChunkedResponse with
    | true =>
      rw [if_pos rfl, if_pos rfl, Option.bind_some, Option.bind_some, headers_raise]
      exact ⟨_, rfl, Option.map_map _ _ _⟩
    | false =>
      rw [if_neg (by decide), if_neg (by decide), printf_raise]
      cases t.printf (contentLengthLine told.contentLength) with
      | none => exact ⟨none, rfl, rfl⟩
      | some u =>
        rw [Option.map_some, Option.bind_some, Option.bind_some, headers_raise]
        exact ⟨_, rfl, Option.map_map _ _ _⟩

end Shifted

section Freed

variable {date : CString} {blks : ℕ → NewBlock} {request : HttpRequestS} {response : HttpResponseS} {memused : ℤ}

/-- What freeing adds to the counter. -/
def change (request : HttpRequestS) (memused : ℤ) : ℤ := (httpRequestFreeBuffer request memused).2 - memused

theorem httpPerformResponse_freed (flags : BitVec 8) (chunkCb : Bool) (s : Printing) :
    httpPerformResponse { (httpRequestFreeBuffer request memused).1 with flags := flags, chunkCb := chunkCb }
        (raisePrinting (change request memused) s) =
      httpPerformResponse { request with flags := flags, chunkCb := chunkCb } s := by
  unfold httpPerformResponse change httpRequestFreeBuffer hsBufferFree raisePrinting
  by_cases buf : request.buffer.buf ≠ 0
  · simp only [buf, ne_eq, not_false_eq_true, if_true, not_true_eq_false, if_false]
    congr 1
    ring
  · simp only [buf, if_false]
    congr 1
    ring

theorem respond_freed (plain : httpFlagCheck request.flags httpAutomatic = false) :
    hsRequestRespond date blks (httpRequestFreeBuffer request memused).1 response (httpRequestFreeBuffer request memused).2 =
      hsRequestRespond date blks request response memused := by
  obtain ⟨printed, alone, freed⟩ := @httpSerializeHeaders_shifted date request
    (httpRequestFreeBuffer request memused).1 response (change request memused) plain rfl (.init blks memused)
  have start : Printing.init blks (httpRequestFreeBuffer request memused).2 =
      raisePrinting (change request memused) (.init blks memused) := by
    rw [← init_raise]
    unfold change
    rw [add_sub_cancel]
  unfold hsRequestRespond
  rw [start, alone, freed]
  cases printed with
  | none => rfl
  | some t =>
    have ends := fun u => congrArg some (@httpPerformResponse_freed request memused request.flags request.chunkCb u)
    simp only [Option.map_some, Option.bind_some]
    cases response.body with
    | none => exact ends t
    | some body =>
      dsimp only
      rw [memcpy_raise]
      cases t.memcpy body response.contentLength with
      | none => rfl
      | some u => exact ends u

theorem chunked_bits (flags : BitVec 8) : httpFlagCheck (httpFlagSet flags httpChunkedResponse) httpAutomatic =
    httpFlagCheck flags httpAutomatic := by
  revert flags
  decide

theorem respondChunk_freed (plain : httpFlagCheck request.flags httpChunkedResponse = false →
      httpFlagCheck request.flags httpAutomatic = false) :
    hsRequestRespondChunk date blks (httpRequestFreeBuffer request memused).1 response
        (httpRequestFreeBuffer request memused).2 =
      hsRequestRespondChunk date blks request response memused := by
  have start : Printing.init blks (httpRequestFreeBuffer request memused).2 =
      raisePrinting (change request memused) (.init blks memused) := by
    rw [← init_raise]
    unfold change
    rw [add_sub_cancel]
  -- the chunk itself, and the hand-over of the buffer
  have rest : ∀ (flags : BitVec 8) (t : Printing),
      (((raisePrinting (change request memused) t).printf (hex response.contentLength ++ crlf)).bind fun s =>
        (s.memcpy (response.body.getD []) response.contentLength).bind fun s => (s.printf crlf).map fun s =>
          httpPerformResponse { (httpRequestFreeBuffer request memused).1 with flags := flags, chunkCb := true } s) =
      ((t.printf (hex response.contentLength ++ crlf)).bind fun s =>
        (s.memcpy (response.body.getD []) response.contentLength).bind fun s => (s.printf crlf).map fun s =>
          httpPerformResponse { request with flags := flags, chunkCb := true } s) := by
    intro flags t
    rw [printf_raise]
    cases t.printf (hex response.contentLength ++ crlf) with
    | none => rfl
    | some u =>
      rw [Option.map_some, Option.bind_some, Option.bind_some, memcpy_raise]
      cases u.memcpy (response.body.getD []) response.contentLength with
      | none => rfl
      | some v =>
        rw [Option.map_some, Option.bind_some, Option.bind_some, printf_raise]
        cases v.printf crlf with
        | none => rfl
        | some x => exact congrArg some (httpPerformResponse_freed flags true x)
  unfold hsRequestRespondChunk
  dsimp only
  rw [start, show (httpRequestFreeBuffer request memused).1.flags = request.flags from rfl]
  cases chunked : httpFlagCheck request.flags httpChunkedResponse with
  | true =>
    rw [if_pos rfl, if_pos rfl, Option.bind_some, Option.bind_some]
    exact rest request.flags _
  | false =>
    obtain ⟨printed, alone, freed⟩ := @httpSerializeHeaders_shifted date
      { request with flags := httpFlagSet request.flags httpChunkedResponse }
      { (httpRequestFreeBuffer request memused).1 with flags := httpFlagSet request.flags httpChunkedResponse }
      (hsResponseSetHeader response (cstring "Transfer-Encoding") (cstring "chunked")) (change request memused) ((chunked_bits _).trans (plain chunked)) rfl (.init blks memused)
    rw [if_neg (by decide), if_neg (by decide), alone, freed]
    cases printed with
    | none => rfl
    | some t => exact rest (httpFlagSet request.flags httpChunkedResponse) t

end Freed

section Responses

variable {max : ℤ} {w : List UInt8} {kind : Respond} {date : CString} {blks : ℕ → NewBlock} {request : HttpRequestS}
  {response : HttpResponseS} {memused : ℤ} {r : HttpRequestS × ℤ}

theorem freed_decides (h : AcceptedRequest max w request) (decides : Decides kind request) :
    kind.call date blks (httpRequestFreeBuffer request memused).1 response (httpRequestFreeBuffer request memused).2 = none := by
  obtain ⟨automatic, fresh⟩ := decides
  have none := fun flags => h.detect_freed flags memused
  cases kind with
  | respond =>
    change (Option.bind (Option.bind (if httpFlagCheck request.flags httpAutomatic then _ else _) _) _) = Option.none
    rw [if_pos automatic]
    have detect := none request.flags
    change hsRequestDetectKeepAliveFlag (httpRequestFreeBuffer request memused).1 = Option.none at detect
    rw [detect]
    rfl
  | respondChunk =>
    change (Option.bind (if httpFlagCheck request.flags httpChunkedResponse then _ else
      Option.bind (if httpFlagCheck (httpFlagSet request.flags httpChunkedResponse) httpAutomatic then _ else _) _) _) =
        Option.none
    rw [if_neg (by rw [fresh rfl]; decide), if_pos ((chunked_bits _).trans automatic)]
    have detect := none (httpFlagSet request.flags httpChunkedResponse)
    dsimp only at detect ⊢
    change hsRequestDetectKeepAliveFlag { (httpRequestFreeBuffer request memused).1 with
      flags := httpFlagSet (httpRequestFreeBuffer request memused).1.flags httpChunkedResponse } = Option.none at detect
    dsimp only at detect
    rw [detect]
    rfl

theorem freed_plain (plain : ¬ Decides kind request) :
    kind.call date blks (httpRequestFreeBuffer request memused).1 response (httpRequestFreeBuffer request memused).2 =
      kind.call date blks request response memused := by
  unfold Decides at plain
  cases kind with
  | respond => exact respond_freed (by simpa using plain)
  | respondChunk =>
    refine respondChunk_freed fun fresh => ?_
    by_contra automatic
    exact plain ⟨by simpa using automatic, fun _ => fresh⟩

/-- Freeing the buffer first changes nothing exactly if the response does not decide about the connection. -/
theorem freed_response (h : AcceptedRequest max w request) (alone : kind.call date blks request response memused = some r) :
    (∃ r', kind.call date blks (httpRequestFreeBuffer request memused).1 response
        (httpRequestFreeBuffer request memused).2 = some r' ∧ SameResponse r r') ↔ ¬ Decides kind request := by
  constructor
  · rintro ⟨r', eq, -⟩ decides
    rw [freed_decides h decides] at eq
    cases eq
  · intro plain
    exact ⟨r, (freed_plain plain).trans alone, ⟨rfl, rfl, rfl⟩⟩

theorem held_accepted {cfg : Config} {c : Conn} (run : Runs.Reached (Connection.step cfg) Accepted (Keeping GoesOn) c)
    (live : c.live = true) (held : outstanding c.events = true) (block : c.request.buffer.buf ≠ 0) :
    ∃ w, AcceptedRequest cfg.httpMaxRequestBufSize w c.request := by
  obtain ⟨w, tokens, old, past, own⟩ := held_behind run live held block
  exact ⟨w, past.front, past.accepted, ⟨old, lines tokens, own, Past.shapes past⟩, begun_reached run live held block⟩

/-- User code is about to respond, in a session over one connection. -/
def responding (cfg : Config) (ls : List Label) : Option Conn :=
  Runs.exec (Runs.guarded (Connection.step cfg) (Keeping GoesOn)) ls accepted

/-- The handler of the second request of a connection asks for a closed connection, frees the buffer and responds. -/
theorem freed_response_closed : ∃ (request : HttpRequestS) (r r' : HttpRequestS × ℤ), request.tokens.length = 12 ∧
    Respond.call .respond sessionEnv.date sessionEnv.blks request {} 1024 = some r ∧
      Respond.call .respond sessionEnv.date sessionEnv.blks (httpRequestFreeBuffer request 1024).1 {}
        (httpRequestFreeBuffer request 1024).2 = some r' ∧ SameResponse r r' := by
  have run : (responding {} twice).any (fun c => decide (c.live = true ∧ outstanding c.events = true ∧
      c.request.buffer.buf ≠ 0 ∧ c.request.tokens.length = 12) &&
      (Respond.call .respond sessionEnv.date sessionEnv.blks (hsRequestSetKeepAliveFlag c.request 0) {} 1024).isSome &&
      !httpFlagCheck (hsRequestSetKeepAliveFlag c.request 0).flags httpAutomatic) = true := by
    decide +kernel
  obtain ⟨c, hc, checks⟩ := (Option.any_eq_true _ _).1 run
  simp only [Bool.and_eq_true, Bool.not_eq_true', decide_eq_true_eq] at checks
  obtain ⟨⟨⟨live, held, block, second⟩, some⟩, plain⟩ := checks
  obtain ⟨w, h⟩ := held_accepted (.guarded (.init accepted_accepted) hc) live held block
  obtain ⟨r, alone⟩ := Option.isSome_iff_exists.1 some
  have same : AcceptedRequest ({} : Config).httpMaxRequestBufSize w (hsRequestSetKeepAliveFlag c.request 0) :=
    ⟨h.front, h.accepted, h.shows, h.begun⟩
  have undecided : ¬ Decides .respond (hsRequestSetKeepAliveFlag c.request 0) := fun decides =>
    absurd (plain.symm.trans decides.1) (by decide)
  obtain ⟨r', freed, same⟩ := (freed_response same alone).2 undecided
  exact ⟨hsRequestSetKeepAliveFlag c.request 0, r, r', second, alone, freed, same⟩

/-- The handler frees the buffer and responds. -/
theorem freed_response_faults : ∃ (w : List UInt8) (request : HttpRequestS) (r : HttpRequestS × ℤ),
    AcceptedRequest ({} : Config).httpMaxRequestBufSize w request ∧
      Respond.call .respond sessionEnv.date sessionEnv.blks request {} 1024 = some r ∧
      ¬ ∃ r', Respond.call .respond sessionEnv.date sessionEnv.blks (httpRequestFreeBuffer request 1024).1 {}
        (httpRequestFreeBuffer request 1024).2 = some r' ∧ SameResponse r r' := by
  have run : (responding {} (reads (ascii "GET / HTTP/1.1\r\nA: b\r\n\r\n") :: execs 6)).any (fun c =>
      decide (c.live = true ∧ outstanding c.events = true ∧ c.request.buffer.buf ≠ 0) &&
      (Respond.call .respond sessionEnv.date sessionEnv.blks c.request {} 1024).isSome &&
      (Respond.call .respond sessionEnv.date sessionEnv.blks (httpRequestFreeBuffer c.request 1024).1 {}
        (httpRequestFreeBuffer c.request 1024).2).isNone) = true := by
    decide +kernel
  obtain ⟨c, hc, checks⟩ := (Option.any_eq_true _ _).1 run
  simp only [Bool.and_eq_true, decide_eq_true_eq] at checks
  obtain ⟨⟨⟨live, held, block⟩, some⟩, none⟩ := checks
  obtain ⟨w, h⟩ := held_accepted (.guarded (.init accepted_accepted) hc) live held block
  obtain ⟨r, alone⟩ := Option.isSome_iff_exists.1 some
  refine ⟨w, c.request, r, h, alone, fun ⟨r', freed, _⟩ => ?_⟩
  rw [freed] at none
  cases none

end Responses

end HttpServer.FreedBuffers
