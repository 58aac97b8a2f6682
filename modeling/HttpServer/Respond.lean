import HttpServer.PrintBuffer
import HttpServer.RequestUtil

set_option autoImplicit false

/-!
# respond.c: writing a response into the request buffer

Every function ends where the source calls `http_write`. Header strings are C strings, so they hold
no NUL, and the body is the memory that `response->body` points to.
-/
namespace HttpServer.Respond
open MachineInt PrintBuffer RequestUtil

/-- A string that a NUL ends. -/
abbrev CString := { s : List UInt8 // (0 : UInt8) ∉ s }

def cstring (s : String) (h : (0 : UInt8) ∉ ascii s := by decide) : CString := ⟨ascii s, h⟩

/-- `http_response_t`, as `hs_response_init` returns it. -/
structure HttpResponseS where
  headers : List (CString × CString) := []
  body : Option (List UInt8) := none
  contentLength : ℤ := 0
  status : ℤ := 200

def httpResponseBufSize : ℤ := 1024

def digitChar (d : ℕ) : UInt8 := if d < 10 then (48 + d).toUInt8 else (55 + d).toUInt8

def digits (base n : ℕ) : List UInt8 :=
  if n = 0 then [48] else ((base.digits n).map digitChar).reverse

/-- `%d` -/
def decimal (n : ℤ) : List UInt8 := if n < 0 then 45 :: digits 10 n.natAbs else digits 10 n.toNat

/-- `%X`, which takes the `int` as unsigned. -/
def hex (n : ℤ) : List UInt8 := digits 16 (n % 4294967296).toNat

def crlf : List UInt8 := [13, 10]

/-- `hs_status_text`; the entries that are not listed are empty. -/
def hsStatusText : ℕ → String
  | 100 => "Continue"
  | 101 => "Switching Protocols"
  | 200 => "OK"
  | 201 => "Created"
  | 202 => "Accepted"
  | 203 => "Non-Authoritative Information"
  | 204 => "No Content"
  | 205 => "Reset Content"
  | 206 => "Partial Content"
  | 300 => "Multiple Choices"
  | 301 => "Moved Permanently"
  | 302 => "Found"
  | 303 => "See Other"
  | 304 => "Not Modified"
  | 305 => "Use Proxy"
  | 307 => "Temporary Redirect"
  | 400 => "Bad Request"
  | 401 => "Unauthorized"
  | 402 => "Payment Required"
  | 403 => "Forbidden"
  | 404 => "Not Found"
  | 405 => "Method Not Allowed"
  | 406 => "Not Acceptable"
  | 407 => "Proxy Authentication Required"
  | 408 => "Request Timeout"
  | 409 => "Conflict"
  | 410 => "Gone"
  | 411 => "Length Required"
  | 413 => "Payload Too Large"
  | 500 => "Internal Server Error"
  | 501 => "Not Implemented"
  | 502 => "Bad Gateway"
  | 503 => "Service Unavailable"
  | 504 => "Gateway Timeout"
  | _ => ""

/-- The print context of a response, the memory counter of the server, and what the allocations to
    come return. -/
structure Printing where
  ctx : GrwprintfT
  memused : ℤ
  blks : ℕ → NewBlock

def Printing.init (blks : ℕ → NewBlock) (memused : ℤ) : Printing :=
  let r := grwprintfInit (blks 0) httpResponseBufSize memused
  { ctx := r.1, memused := r.2, blks := fun n => blks (n + 1) }

def Printing.printf (text : List UInt8) (s : Printing) : Option Printing :=
  (grwprintf (s.blks 0) text s.ctx s.memused).map fun r =>
    { ctx := r.1, memused := r.2, blks := fun n => s.blks (n + 1) }

def Printing.memcpy (src : List UInt8) (size : ℤ) (s : Printing) : Option Printing :=
  (grwmemcpy (s.blks 0) src size s.ctx s.memused).map fun r =>
    { ctx := r.1, memused := r.2, blks := fun n => s.blks (n + 1) }

/-- `"%s: %s\r\n"` -/
def headerLine (header : CString × CString) : List UInt8 :=
  header.1.1 ++ [58, 32] ++ header.2.1 ++ crlf

def httpSerializeHeadersList (headers : List (CString × CString)) (s : Printing) : Option Printing :=
  (headers.foldlM (fun (s : Printing) header => s.printf (headerLine header)) s).bind fun s =>
    s.printf crlf

def hsResponseSetHeader (response : HttpResponseS) (key value : CString) : HttpResponseS :=
  { response with headers := (key, value) :: response.headers }

/-- `"HTTP/1.1 %d %s\r\nDate: %s\r\n"` -/
def statusLine (status : ℤ) (date : CString) : List UInt8 :=
  ascii "HTTP/1.1 " ++ decimal status ++ [32] ++ ascii (hsStatusText status.toNat) ++ crlf ++
    ascii "Date: " ++ date.1 ++ crlf

/-- `"Content-Length: %d\r\n"` -/
def contentLengthLine (n : ℤ) : List UInt8 := ascii "Content-Length: " ++ decimal n ++ crlf

def httpSerializeHeaders (date : CString) (request : HttpRequestS) (response : HttpResponseS)
    (s : Printing) : Option (HttpRequestS × Printing) :=
  let detected :=
    if httpFlagCheck request.flags httpAutomatic then hsRequestDetectKeepAliveFlag request
    else some request
  detected.bind fun request =>
    let connection :=
      if httpFlagCheck request.flags httpKeepAlive then cstring "keep-alive" else cstring "close"
    let response := hsResponseSetHeader response (cstring "Connection") connection
    if 0 ≤ response.status ∧ response.status < 600 then
      (s.printf (statusLine response.status date)).bind fun s =>
        let printed :=
          if httpFlagCheck request.flags httpChunkedResponse then some s
          else s.printf (contentLengthLine response.contentLength)
        printed.bind fun s =>
          (httpSerializeHeadersList response.headers s).map fun s => (request, s)
    else none

def hsBufferFree (buffer : HshBufferS) (memused : ℤ) : HshBufferS × ℤ :=
  if buffer.buf ≠ 0 then ({ buffer with buf := 0 }, memused - buffer.capacity) else (buffer, memused)

/-- `_http_perform_response`, up to the call of `http_write` -/
def httpPerformResponse (request : HttpRequestS) (s : Printing) : HttpRequestS × ℤ :=
  let freed := hsBufferFree request.buffer s.memused
  ({ request with
      buffer := { freed.1 with
        buf := s.ctx.buf, data := s.ctx.data, length := s.ctx.size, capacity := s.ctx.capacity }
      bytesWritten := 0
      state := .write }, freed.2)

def hsRequestRespond (date : CString) (blks : ℕ → NewBlock) (request : HttpRequestS)
    (response : HttpResponseS) (memused : ℤ) : Option (HttpRequestS × ℤ) :=
  (httpSerializeHeaders date request response (.init blks memused)).bind fun r =>
    let printed :=
      match response.body with
      | some body => r.2.memcpy body response.contentLength
      | none => some r.2
    printed.map fun s => httpPerformResponse r.1 s

def hsRequestRespondChunk (date : CString) (blks : ℕ → NewBlock) (request : HttpRequestS)
    (response : HttpResponseS) (memused : ℤ) : Option (HttpRequestS × ℤ) :=
  let s := Printing.init blks memused
  let started :=
    if httpFlagCheck request.flags httpChunkedResponse then some (request, s)
    else
      httpSerializeHeaders date
        { request with flags := httpFlagSet request.flags httpChunkedResponse }
        (hsResponseSetHeader response (cstring "Transfer-Encoding") (cstring "chunked")) s
  started.bind fun r =>
    let request := { r.1 with chunkCb := true }
    (r.2.printf (hex response.contentLength ++ crlf)).bind fun s =>
      (s.memcpy (response.body.getD []) response.contentLength).bind fun s =>
        (s.printf crlf).map fun s => httpPerformResponse request s

def hsRequestRespondChunkEnd (blks : ℕ → NewBlock) (request : HttpRequestS)
    (response : HttpResponseS) (memused : ℤ) : Option (HttpRequestS × ℤ) :=
  ((Printing.init blks memused).printf (ascii "0\r\n")).bind fun s =>
    (httpSerializeHeadersList response.headers s).bind fun s =>
      (s.printf crlf).map fun s =>
        httpPerformResponse { request with flags := httpFlagClear request.flags httpChunkedResponse } s

def hsResponseSetStatus (response : HttpResponseS) (status : ℤ) : HttpResponseS :=
  { response with status := if status > 599 ∨ status < 100 then 500 else status }

def hsResponseSetBody (response : HttpResponseS) (body : List UInt8) (length : ℤ) : HttpResponseS :=
  { response with body := some body, contentLength := length }

def hsRequestRespondError (date : CString) (blks : ℕ → NewBlock) (request : HttpRequestS)
    (code : ℤ) (message : CString) (memused : ℤ) : Option (HttpRequestS × ℤ) :=
  let response := hsResponseSetStatus {} code
  let response := hsResponseSetHeader response (cstring "Content-Type") (cstring "text/plain")
  let response := hsResponseSetBody response message.1 message.1.length
  hsRequestRespond date blks request response memused

section Responded

def held (buffer : HshBufferS) : ℤ := if buffer.buf ≠ 0 then buffer.capacity else 0

/-- The blocks of a print context, whose counter is kept. -/
structure Printed (s t : Printing) : Prop where
  memused_eq : t.memused - t.ctx.capacity = s.memused - s.ctx.capacity
  buf_mem : t.ctx.buf = s.ctx.buf ∨ ∃ n, t.ctx.buf = (s.blks n).addr
  blks_mem : ∀ n, ∃ m, t.blks n = s.blks m
  capacity_pos : 0 < s.ctx.capacity → 0 < t.ctx.capacity

/-- What every response leaves in the request. -/
structure Responded (blks : ℕ → NewBlock) (request : HttpRequestS) (memused : ℤ)
    (request' : HttpRequestS) (memused' : ℤ) : Prop where
  state_eq : request'.state = .write
  written_eq : request'.bytesWritten = 0
  parser_eq : request'.parser = request.parser
  tokens_eq : request'.tokens = request.tokens
  timeout_eq : request'.timeout = request.timeout
  index_eq : request'.buffer.index = request.buffer.index
  ahi_eq : request'.buffer.afterHeadersIndex = request.buffer.afterHeadersIndex
  sequenceId_eq : request'.buffer.sequenceId = request.buffer.sequenceId
  buf_mem : ∃ n, request'.buffer.buf = (blks n).addr
  memused_eq : memused' - request'.buffer.capacity = memused - held request.buffer
  capacity_pos : 0 < request'.buffer.capacity

variable {date : CString} {blks : ℕ → NewBlock} {request request' : HttpRequestS}
  {response : HttpResponseS} {memused memused' : ℤ} {s t u : Printing} {text src : List UInt8} {n : ℤ}

theorem Printed.refl (s : Printing) : Printed s s := ⟨rfl, .inl rfl, fun n => ⟨n, rfl⟩, id⟩

theorem Printed.trans (h : Printed s t) (h' : Printed t u) : Printed s u := by
  refine ⟨h'.memused_eq.trans h.memused_eq, ?_, ?_, h'.capacity_pos ∘ h.capacity_pos⟩
  · rcases h'.buf_mem with hbuf | ⟨n, hbuf⟩
    · rw [hbuf]
      exact h.buf_mem
    · obtain ⟨m, hm⟩ := h.blks_mem n
      exact .inr ⟨m, by rw [hbuf, hm]⟩
  · intro n
    obtain ⟨m, hm⟩ := h'.blks_mem n
    obtain ⟨k, hk⟩ := h.blks_mem m
    exact ⟨k, hm.trans hk⟩

theorem vsnprintf_keeps {ctx ctx' : GrwprintfT} {bytes : ℤ}
    (h : vsnprintf ctx text = some (ctx', bytes)) :
    ctx'.buf = ctx.buf ∧ ctx'.capacity = ctx.capacity ∧ ctx'.size = ctx.size := by
  unfold vsnprintf at h
  dsimp only at h
  split at h
  · cases h
    exact ⟨rfl, rfl, rfl⟩
  split at h
  · cases h
    exact ⟨rfl, rfl, rfl⟩
  · cases h

theorem Printing.printf_printed (h : s.printf text = some t) : Printed s t := by
  obtain ⟨r, hr, rfl⟩ := Option.map_eq_some_iff.1 h
  unfold grwprintf at hr
  split at hr
  · cases hr
  rename_i ctx bytes first
  obtain ⟨hbuf, hcap, -⟩ := vsnprintf_keeps first
  split at hr
  · split at hr
    · cases hr
    rename_i capacity _
    dsimp only at hr
    split at hr
    · cases hr
    rename_i pos
    split at hr
    · cases hr
    rename_i ctx' more again
    cases hr
    obtain ⟨hbuf', hcap', -⟩ := vsnprintf_keeps again
    refine ⟨?_, .inr ⟨0, hbuf'⟩, fun n => ⟨n + 1, rfl⟩, fun _ => (not_le.1 pos).trans_eq hcap'.symm⟩
    change s.memused - ctx.capacity + capacity - ctx'.capacity = _
    rw [hcap', hcap]
    change s.memused - s.ctx.capacity + capacity - capacity = _
    ring
  · cases hr
    refine ⟨?_, .inl hbuf, fun n => ⟨n + 1, rfl⟩, fun pos => pos.trans_eq hcap.symm⟩
    change s.memused - ctx.capacity = _
    rw [hcap]

theorem Printing.memcpy_printed (h : s.memcpy src n = some t) : Printed s t := by
  obtain ⟨r, hr, rfl⟩ := Option.map_eq_some_iff.1 h
  unfold grwmemcpy at hr
  by_cases grows : wrap32 (s.ctx.size + n) > s.ctx.capacity
  · simp only [grows, if_true] at hr
    split at hr
    · cases hr
      refine ⟨?_, .inr ⟨0, rfl⟩, fun n => ⟨n + 1, rfl⟩, fun pos => pos.trans grows⟩
      change s.memused - s.ctx.capacity + wrap32 (s.ctx.size + n) - wrap32 (s.ctx.size + n) = _
      ring
    · cases hr
  · simp only [grows, if_false] at hr
    split at hr
    · cases hr
      exact ⟨rfl, .inl rfl, fun n => ⟨n + 1, rfl⟩, id⟩
    · cases hr

theorem httpSerializeHeadersList_printed {headers : List (CString × CString)}
    (h : httpSerializeHeadersList headers s = some t) : Printed s t := by
  obtain ⟨u, hu, ht⟩ := Option.bind_eq_some_iff.1 h
  refine Printed.trans ?_ (Printing.printf_printed ht)
  clear h ht
  induction headers generalizing s with
  | nil =>
    cases hu
    exact .refl _
  | cons header headers ih =>
    rw [List.foldlM_cons] at hu
    obtain ⟨v, hv, hu⟩ := Option.bind_eq_some_iff.1 hu
    exact (Printing.printf_printed hv).trans (ih hu)

theorem hsRequestDetectKeepAliveFlag_flags (h : hsRequestDetectKeepAliveFlag request = some request') :
    ∃ flags, request' = { request with flags := flags } := by
  unfold hsRequestDetectKeepAliveFlag at h
  dsimp only at h
  split at h
  · cases h
    exact ⟨request.flags, rfl⟩
  split at h
  · cases h
  split at h
  · cases h
  split at h
  · cases h
  · cases h
    exact ⟨_, rfl⟩
  · cases h
    exact ⟨_, rfl⟩

theorem httpSerializeHeaders_printed
    (h : httpSerializeHeaders date request response s = some (request', t)) :
    (∃ flags, request' = { request with flags := flags }) ∧ Printed s t := by
  obtain ⟨r, hr, h⟩ := Option.bind_eq_some_iff.1 h
  have flags : ∃ flags, r = { request with flags := flags } := by
    split at hr
    · exact hsRequestDetectKeepAliveFlag_flags hr
    · cases hr
      exact ⟨request.flags, rfl⟩
  by_cases known : 0 ≤ response.status ∧ response.status < 600
  swap
  · simp only [hsResponseSetHeader, known, if_false] at h
    cases h
  simp only [hsResponseSetHeader, known, and_self, if_true] at h
  obtain ⟨u, hu, h⟩ := Option.bind_eq_some_iff.1 h
  obtain ⟨v, hv, h⟩ := Option.bind_eq_some_iff.1 h
  obtain ⟨w, hw, h⟩ := Option.map_eq_some_iff.1 h
  cases h
  refine ⟨flags, (Printing.printf_printed hu).trans (Printed.trans ?_ (httpSerializeHeadersList_printed hw))⟩
  split at hv
  · cases hv
    exact .refl _
  · exact Printing.printf_printed hv

theorem httpPerformResponse_responded (flags : BitVec 8) (chunkCb : Bool)
    (printed : Printed (.init blks memused) s) (h : httpPerformResponse
      { request with flags := flags, chunkCb := chunkCb } s = (request', memused')) :
    Responded blks request memused request' memused' := by
  have counter : s.memused - s.ctx.capacity = memused := by
    rw [printed.memused_eq]
    change memused + httpResponseBufSize - httpResponseBufSize = _
    ring
  have block : ∃ n, s.ctx.buf = (blks n).addr := by
    rcases printed.buf_mem with hbuf | ⟨n, hbuf⟩
    · exact ⟨0, hbuf⟩
    · exact ⟨n + 1, hbuf⟩
  have pos : 0 < s.ctx.capacity := printed.capacity_pos (by norm_num [Printing.init, grwprintfInit, httpResponseBufSize])
  unfold httpPerformResponse hsBufferFree at h
  dsimp only at h
  by_cases hbuf : request.buffer.buf ≠ 0
  · rw [if_pos hbuf] at h
    cases h
    refine ⟨rfl, rfl, rfl, rfl, rfl, rfl, rfl, rfl, block, ?_, pos⟩
    rw [held, if_pos hbuf]
    change s.memused - request.buffer.capacity - s.ctx.capacity = _
    omega
  · rw [if_neg hbuf] at h
    cases h
    refine ⟨rfl, rfl, rfl, rfl, rfl, rfl, rfl, rfl, block, ?_, pos⟩
    rw [held, if_neg hbuf]
    change s.memused - s.ctx.capacity = _
    omega

theorem hsRequestRespond_responded
    (h : hsRequestRespond date blks request response memused = some (request', memused')) :
    Responded blks request memused request' memused' := by
  obtain ⟨⟨r, s⟩, hr, h⟩ := Option.bind_eq_some_iff.1 h
  obtain ⟨t, ht, h⟩ := Option.map_eq_some_iff.1 h
  obtain ⟨⟨flags, rfl⟩, printed⟩ := httpSerializeHeaders_printed hr
  refine httpPerformResponse_responded flags request.chunkCb (printed.trans ?_) h
  dsimp only at ht
  split at ht
  · exact Printing.memcpy_printed ht
  · cases ht
    exact .refl _

theorem hsRequestRespondChunk_responded
    (h : hsRequestRespondChunk date blks request response memused = some (request', memused')) :
    Responded blks request memused request' memused' := by
  obtain ⟨⟨r, s⟩, hr, h⟩ := Option.bind_eq_some_iff.1 h
  obtain ⟨t, ht, h⟩ := Option.bind_eq_some_iff.1 h
  obtain ⟨u, hu, h⟩ := Option.bind_eq_some_iff.1 h
  obtain ⟨v, hv, h⟩ := Option.map_eq_some_iff.1 h
  have started : (∃ flags, r = { request with flags := flags }) ∧ Printed (.init blks memused) s := by
    split at hr
    · cases hr
      exact ⟨⟨request.flags, rfl⟩, .refl _⟩
    · obtain ⟨⟨flags, rfl⟩, printed⟩ := httpSerializeHeaders_printed hr
      exact ⟨⟨flags, rfl⟩, printed⟩
  obtain ⟨⟨flags, rfl⟩, printed⟩ := started
  exact httpPerformResponse_responded flags true
    (printed.trans ((Printing.printf_printed ht).trans
      ((Printing.memcpy_printed hu).trans (Printing.printf_printed hv)))) h

theorem hsRequestRespondChunkEnd_responded
    (h : hsRequestRespondChunkEnd blks request response memused = some (request', memused')) :
    Responded blks request memused request' memused' := by
  obtain ⟨s, hs, h⟩ := Option.bind_eq_some_iff.1 h
  obtain ⟨t, ht, h⟩ := Option.bind_eq_some_iff.1 h
  obtain ⟨u, hu, h⟩ := Option.map_eq_some_iff.1 h
  exact httpPerformResponse_responded (httpFlagClear request.flags httpChunkedResponse) request.chunkCb
    ((Printing.printf_printed hs).trans
      ((httpSerializeHeadersList_printed ht).trans (Printing.printf_printed hu))) h

end Responded

end HttpServer.Respond
