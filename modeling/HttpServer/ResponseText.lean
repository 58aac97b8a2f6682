import HttpServer.PrintedText

set_option autoImplicit false

/-!
# The text of a response

The header block is printed into a buffer of `HTTP_RESPONSE_BUF_SIZE` bytes, and the body is copied
behind it. The response is exact when the header block fits with its NUL.
-/
namespace HttpServer.ResponseText
open MachineInt RequestUtil Respond PrintedText

/-- A response as user code builds it. -/
def built (status : ℤ) (calls : List (CString × CString)) (body : Option (List UInt8)) : HttpResponseS :=
  let response := calls.foldl (fun response call => hsResponseSetHeader response call.1 call.2)
    (hsResponseSetStatus {} status)
  match body with
  | some body => hsResponseSetBody response body body.length
  | none => response

/-- The header block that a client should read. -/
def headText (status : ℤ) (date : CString) (keepAlive : Bool) (headers : List (CString × CString)) (length : ℤ) :
    List UInt8 :=
  ascii "HTTP/1.1 " ++ decimal status ++ ascii " " ++ ascii (hsStatusText status.toNat) ++ crlf ++
    ascii "Date: " ++ date.1 ++ crlf ++
    ascii "Content-Length: " ++ decimal length ++ crlf ++
    ascii "Connection: " ++ ascii (if keepAlive then "keep-alive" else "close") ++ crlf ++
    headers.flatMap (fun header => header.1.1 ++ ascii ": " ++ header.2.1 ++ crlf) ++ crlf

/-- The response as a client should read it. -/
def message (status : ℤ) (date : CString) (keepAlive : Bool) (calls : List (CString × CString))
    (body : List UInt8) : List UInt8 :=
  headText status date keepAlive calls.reverse body.length ++ body

/-- The flags that `_http_serialize_headers` finds. -/
def detected (request : HttpRequestS) : Option HttpRequestS :=
  if httpFlagCheck request.flags httpAutomatic then hsRequestDetectKeepAliveFlag request else some request

/-- Whether the response keeps the connection. -/
def keepsAlive (request : HttpRequestS) : Bool :=
  match detected request with
  | some request => httpFlagCheck request.flags httpKeepAlive
  | none => false

/-- The first `buffer.length` bytes of the request buffer. -/
def sent (request : HttpRequestS) : List UInt8 := slice request.buffer.data 0 request.buffer.length.toNat

/-- The response was written, and is just this text. -/
def Exact (r : Option (HttpRequestS × ℤ)) (text : List UInt8) : Prop :=
  ∃ request memused, r = some (request, memused) ∧ sent request = text

section Pieces

variable {date : CString} {request request' : HttpRequestS} {response : HttpResponseS} {s : Printing}
  {status : ℤ} {calls : List (CString × CString)} {body : Option (List UInt8)}

section Strings

/-! No string of the header lines has a NUL. -/

theorem connection_clean : (0 : UInt8) ∉ ascii "Connection" := by decide
theorem keepAlive_clean : (0 : UInt8) ∉ ascii "keep-alive" := by decide
theorem close_clean : (0 : UInt8) ∉ ascii "close" := by decide
theorem transferEncoding_clean : (0 : UInt8) ∉ ascii "Transfer-Encoding" := by decide
theorem chunked_clean : (0 : UInt8) ∉ ascii "chunked" := by decide

end Strings

/-- The texts of the header block, one for each call of `_grwprintf`. -/
def headPieces (status : ℤ) (date : CString) (keepAlive : Bool) (headers : List (CString × CString)) (length : ℤ) :
    List (List UInt8) :=
  [statusLine status date, contentLengthLine length,
      headerLine (cstring "Connection" connection_clean,
        if keepAlive then cstring "keep-alive" keepAlive_clean else cstring "close" close_clean)] ++
    headers.map headerLine ++ [crlf]

theorem headPieces_flatten (keepAlive : Bool) (headers : List (CString × CString)) (length : ℤ) :
    (headPieces status date keepAlive headers length).flatten = headText status date keepAlive headers length := by
  have lines : (headers.map headerLine).flatten =
      headers.flatMap fun header => header.1.1 ++ ascii ": " ++ header.2.1 ++ crlf := rfl
  have connection : headerLine (cstring "Connection", if keepAlive then cstring "keep-alive" else cstring "close") =
      ascii "Connection: " ++ ascii (if keepAlive then "keep-alive" else "close") ++ crlf := by
    cases keepAlive <;> rfl
  unfold headPieces headText
  rw [connection]
  simp only [List.flatten_append, List.flatten_cons, List.flatten_nil, lines, statusLine, contentLengthLine,
    List.append_assoc, List.append_nil]
  rfl

theorem httpSerializeHeadersList_eq (headers : List (CString × CString)) (s : Printing) :
    httpSerializeHeadersList headers s = prints (headers.map headerLine ++ [crlf]) s := by
  rw [prints_append]
  unfold httpSerializeHeadersList prints
  rw [List.foldlM_map]
  congr 1
  funext t
  change t.printf crlf = (t.printf crlf).bind some
  cases t.printf crlf <;> rfl

theorem detected_flags (h : detected request = some request') :
    ∃ flags, request' = { request with flags := flags } ∧
      httpFlagCheck flags httpChunkedResponse = httpFlagCheck request.flags httpChunkedResponse := by
  have set : ∀ f : BitVec 8, httpFlagCheck (httpFlagSet f httpKeepAlive) httpChunkedResponse =
      httpFlagCheck f httpChunkedResponse := by decide
  have clear : ∀ f : BitVec 8, httpFlagCheck (httpFlagClear f httpKeepAlive) httpChunkedResponse =
      httpFlagCheck f httpChunkedResponse := by decide
  unfold detected at h
  split at h
  · unfold hsRequestDetectKeepAliveFlag at h
    dsimp only at h
    split at h
    · cases h
      exact ⟨_, rfl, rfl⟩
    split at h
    · cases h
    split at h
    · cases h
    split at h
    · cases h
    · cases h
      exact ⟨_, rfl, clear _⟩
    · cases h
      exact ⟨_, rfl, set _⟩
  · cases h
    exact ⟨_, rfl, rfl⟩

theorem httpSerializeHeaders_eq (plain : httpFlagCheck request.flags httpChunkedResponse = false)
    (known : 0 ≤ response.status ∧ response.status < 600) (h : detected request = some request') :
    httpSerializeHeaders date request response s = (prints (headPieces response.status date
      (httpFlagCheck request'.flags httpKeepAlive) response.headers response.contentLength) s).map
        fun s => (request', s) := by
  obtain ⟨flags, rfl, same⟩ := detected_flags h
  unfold httpSerializeHeaders
  change (detected request).bind _ = _
  rw [h, Option.bind_some]
  dsimp only [hsResponseSetHeader]
  rw [if_pos known, same, plain]
  change (s.printf _).bind (fun s => (s.printf _).bind fun s => (httpSerializeHeadersList _ s).map _) =
    (prints (statusLine response.status date :: contentLengthLine response.contentLength ::
      (((cstring "Connection", _) :: response.headers).map headerLine ++ [crlf])) s).map _
  rw [prints_cons, Option.map_bind]
  congr 1
  funext t
  rw [Function.comp_apply, prints_cons, Option.map_bind]
  congr 1
  funext u
  rw [Function.comp_apply, httpSerializeHeadersList_eq]

theorem httpPerformResponse_sent (request : HttpRequestS) (s : Printing) :
    sent (httpPerformResponse request s).1 = content s := rfl

theorem crlf_pieces (keepAlive : Bool) (headers : List (CString × CString)) (length : ℤ) :
    ∀ text ∈ headPieces status date keepAlive headers length, ∃ front, text = front ++ [10] := by
  have line : ∀ front : List UInt8, ∃ front', front ++ crlf = front' ++ [10] := fun front =>
    ⟨front ++ [13], by simp [crlf]⟩
  intro text htext
  unfold headPieces at htext
  simp only [List.mem_append, List.mem_cons, List.mem_map, List.not_mem_nil, or_false] at htext
  rcases htext with ((rfl | rfl | rfl) | ⟨header, -, rfl⟩) | rfl
  · exact line _
  · exact line _
  · exact line _
  · exact line _
  · exact line []

def withBody (body : Option (List UInt8)) (s : Printing) : Option Printing :=
  match body with
  | some body => s.memcpy body body.length
  | none => some s

theorem setHeaders_eq (calls : List (CString × CString)) (response : HttpResponseS) :
    calls.foldl (fun response call => hsResponseSetHeader response call.1 call.2) response =
      { response with headers := calls.reverse ++ response.headers } := by
  induction calls generalizing response with
  | nil => rfl
  | cons call calls ih =>
    rw [List.foldl_cons, ih, List.reverse_cons, List.append_assoc]
    rfl

theorem built_eq (lo : 100 ≤ status) (hi : status ≤ 599) (calls : List (CString × CString))
    (body : Option (List UInt8)) : built status calls body =
      { headers := calls.reverse, body := body, contentLength := (body.getD []).length, status := status } := by
  have kept : hsResponseSetStatus {} status = { status := status } := by
    unfold hsResponseSetStatus
    rw [if_neg (by omega)]
  unfold built
  rw [setHeaders_eq, kept]
  cases body <;> simp [hsResponseSetBody]

theorem hsRequestRespond_eq {blks : ℕ → NewBlock} {memused : ℤ} (lo : 100 ≤ status) (hi : status ≤ 599)
    (plain : httpFlagCheck request.flags httpChunkedResponse = false) (h : detected request = some request') :
    hsRequestRespond date blks request (built status calls body) memused =
      ((prints (headPieces status date (httpFlagCheck request'.flags httpKeepAlive) calls.reverse
        (body.getD []).length) (.init blks memused)).bind (withBody body)).map (httpPerformResponse request') := by
  rw [built_eq lo hi]
  unfold hsRequestRespond
  rw [httpSerializeHeaders_eq plain (by dsimp only; omega) h, Option.map_bind, Option.bind_map]
  cases body <;> rfl

theorem hsRequestRespond_none {blks : ℕ → NewBlock} {memused : ℤ} (h : detected request = none) :
    hsRequestRespond date blks request response memused = none := by
  change ((detected request).bind _).bind _ = none
  rw [h]
  rfl

end Pieces

section Exact

variable {date : CString} {request request' : HttpRequestS} {blks : ℕ → NewBlock} {memused : ℤ} {status : ℤ}
  {calls : List (CString × CString)} {body : Option (List UInt8)}

theorem message_eq (keepAlive : Bool) (body : List UInt8) : message status date keepAlive calls body =
    (headPieces status date keepAlive calls.reverse body.length).flatten ++ body := by
  rw [headPieces_flatten]
  rfl

theorem pieces_nonempty {keepAlive : Bool} {headers : List (CString × CString)} {length : ℤ} :
    ∀ text ∈ headPieces status date keepAlive headers length, text ≠ [] := by
  intro text htext
  obtain ⟨front, rfl⟩ := crlf_pieces _ _ _ text htext
  simp

theorem headPieces_last (keepAlive : Bool) (headers : List (CString × CString)) (length : ℤ) :
    ∃ front, (headPieces status date keepAlive headers length).flatten = front ++ [10] := by
  unfold headPieces
  exact ⟨_ ++ [13], by rw [List.flatten_append, List.append_assoc]; rfl⟩

theorem init_sizes (blks : ℕ → NewBlock) (memused : ℤ) :
    (Printing.init blks memused).ctx.size = 0 ∧ (Printing.init blks memused).ctx.capacity = 1024 ∧
      content (.init blks memused) = [] := ⟨rfl, rfl, rfl⟩

theorem withBody_outcome {s t : Printing} (ok : Ranged s) (h : withBody body s = some t) :
    (0 ≤ t.ctx.size → t.ctx.size = s.ctx.size + (body.getD []).length) ∧
      (s.ctx.size ≤ s.ctx.capacity → content t = content s ++ body.getD []) := by
  cases body with
  | none =>
    cases h
    simp
  | some body =>
    obtain ⟨-, -, -, size, -, whole, -⟩ := Printing.memcpy_outcome ok h
    refine ⟨fun _ => size, fun le => ?_⟩
    simpa using whole le

theorem withBody_ranged {s t : Printing} (ok : Ranged s) (h : withBody body s = some t) : Ranged t := by
  cases body with
  | none =>
    cases h
    exact ok
  | some body => exact (Printing.memcpy_outcome ok h).2.2.2.2.2.2

theorem withBody_room {s : Printing} (ok : Ranged s) (nonneg : 0 ≤ s.ctx.size)
    (total : s.ctx.size + (body.getD []).length < 2147483648) : ∃ t, withBody body s = some t := by
  cases body with
  | none => exact ⟨s, rfl⟩
  | some body => exact Printing.memcpy_room ok nonneg (by omega) (le_refl _) total

theorem exact_of_room (lo : 100 ≤ status) (hi : status ≤ 599)
    (plain : httpFlagCheck request.flags httpChunkedResponse = false) (h : detected request = some request')
    (room : (headText status date (httpFlagCheck request'.flags httpKeepAlive) calls.reverse
      (body.getD []).length).length < 1024)
    (total : (message status date (httpFlagCheck request'.flags httpKeepAlive) calls (body.getD [])).length ≤
      2147483647) :
    Exact (hsRequestRespond date blks request (built status calls body) memused)
      (message status date (httpFlagCheck request'.flags httpKeepAlive) calls (body.getD [])) := by
  have start := Printing.init_ranged blks memused
  obtain ⟨size₀, capacity₀, content₀⟩ := init_sizes blks memused
  rw [← headPieces_flatten] at room
  rw [message_eq, List.length_append] at total
  obtain ⟨s, hs, ok, hcap, hsize, hcontent⟩ := @prints_room _ (headPieces status date
    (httpFlagCheck request'.flags httpKeepAlive) calls.reverse (body.getD []).length) start (size₀ ▸ le_refl 0)
    pieces_nonempty (by omega)
  obtain ⟨t, ht⟩ := @withBody_room body s ok (by omega) (by omega)
  refine ⟨(httpPerformResponse request' t).1, (httpPerformResponse request' t).2, ?_, ?_⟩
  · rw [hsRequestRespond_eq lo hi plain h, hs, Option.bind_some, ht]
    rfl
  · rw [httpPerformResponse_sent, (withBody_outcome ok ht).2 (by omega), hcontent, content₀, message_eq]
    rfl

theorem counted_once {n extra : ℕ} (counted : (n : ℤ) = wrap32 (n + extra)) (le : extra ≤ n) (lt : n < 2147483648) :
    extra = 0 := by
  have := wrap32_emod (n + extra)
  rw [← counted] at this
  omega

theorem room_of_exact (lo : 100 ≤ status) (hi : status ≤ 599)
    (plain : httpFlagCheck request.flags httpChunkedResponse = false) (h : detected request = some request')
    (exact : Exact (hsRequestRespond date blks request (built status calls body) memused)
      (message status date (httpFlagCheck request'.flags httpKeepAlive) calls (body.getD []))) :
    (headText status date (httpFlagCheck request'.flags httpKeepAlive) calls.reverse
        (body.getD []).length).length < 1024 ∧
      (message status date (httpFlagCheck request'.flags httpKeepAlive) calls (body.getD [])).length ≤
        2147483647 := by
  obtain ⟨request'', memused', responded, text⟩ := exact
  rw [hsRequestRespond_eq lo hi plain h] at responded
  obtain ⟨t, ht, performed⟩ := Option.map_eq_some_iff.1 responded
  obtain ⟨s, hs, hbody⟩ := Option.bind_eq_some_iff.1 ht
  have start := Printing.init_ranged blks memused
  obtain ⟨size₀, capacity₀, content₀⟩ := init_sizes blks memused
  rw [← headPieces_flatten, message_eq]
  rw [message_eq, show request'' = (httpPerformResponse request' t).1 by rw [performed],
    httpPerformResponse_sent] at text
  generalize hp : headPieces status date (httpFlagCheck request'.flags httpKeepAlive) calls.reverse
    (body.getD []).length = pieces at hs text
  have nonempty : ∀ text ∈ pieces, text ≠ [] := hp ▸ pieces_nonempty
  obtain ⟨front, last⟩ : ∃ front, pieces.flatten = front ++ [10] := hp ▸ headPieces_last _ _ _
  have some_byte : 0 < pieces.flatten.length := by simp [last]
  have s_ranged : Ranged s := prints_ranged start nonempty hs
  have t_ranged : Ranged t := withBody_ranged s_ranged hbody
  obtain ⟨added, kept⟩ := withBody_outcome s_ranged hbody
  -- The size is the length of the message.
  have length := congrArg List.length text
  rw [content, slice_length, List.length_append] at length
  have lt := t_ranged.size_lt
  have size := added (by omega)
  have short : ∀ text ∈ pieces, text.length < 2147483648 := fun text htext => by
    have := List.Sublist.length_le (List.sublist_flatten_of_mem htext)
    omega
  obtain ⟨-, extra, le, counted, fits⟩ := prints_counted start nonempty short hs
  have s_size : s.ctx.size = pieces.flatten.length := by omega
  rw [size₀, zero_add, s_size] at counted
  have once := counted_once counted le (by omega)
  obtain ⟨capacity, room, full⟩ := fits once (by omega) (by rintro rfl; simp at some_byte)
  rw [List.length_append]
  refine ⟨?_, by omega⟩
  by_contra beyond
  have content_s := full (by omega)
  rw [kept room, content_s, content₀, List.nil_append, last, List.dropLast_concat] at text
  simpa using List.append_cancel_right text

/-- The response is exact when its header block and the NUL behind it fit into the first buffer. -/
theorem hsRequestRespond_exact (lo : 100 ≤ status) (hi : status ≤ 599)
    (plain : httpFlagCheck request.flags httpChunkedResponse = false) :
    Exact (hsRequestRespond date blks request (built status calls body) memused)
        (message status date (keepsAlive request) calls (body.getD [])) ↔
      detected request ≠ none ∧
        (headText status date (keepsAlive request) calls.reverse (body.getD []).length).length < 1024 ∧
        (message status date (keepsAlive request) calls (body.getD [])).length ≤ 2147483647 := by
  unfold keepsAlive
  cases h : detected request with
  | none =>
    constructor
    · rintro ⟨request', memused', responded, -⟩
      rw [hsRequestRespond_none h] at responded
      cases responded
    · rintro ⟨some_request, -⟩
      exact absurd rfl some_request
  | some request' =>
    constructor
    · intro exact
      exact ⟨Option.some_ne_none _, room_of_exact lo hi plain h exact⟩
    · rintro ⟨-, room, total⟩
      exact exact_of_room lo hi plain h room total

theorem hsRequestRespond_exact_ok :
    Exact (hsRequestRespond (cstring "Sat") (fun _ => ⟨4096, fun _ => 7⟩) {}
        (built 200 [(cstring "A", cstring "b")] (some (ascii "hi"))) 0)
      (message 200 (cstring "Sat") (keepsAlive {}) [(cstring "A", cstring "b")] (ascii "hi")) :=
  (@hsRequestRespond_exact _ _ _ _ _ _ (some (ascii "hi")) (by decide) (by decide) (by decide)).2
    ⟨by decide, by decide +kernel, by decide +kernel⟩

def longValue : CString := ⟨List.replicate 1000 97, fun h => absurd (List.eq_of_mem_replicate h) (by decide)⟩

/-- With it the header block does not fit. -/
theorem hsRequestRespond_not_exact :
    ¬ Exact (hsRequestRespond (cstring "Sat") (fun _ => ⟨4096, fun _ => 7⟩) {}
        (built 200 [(cstring "A", longValue)] (some (ascii "hi"))) 0)
      (message 200 (cstring "Sat") (keepsAlive {}) [(cstring "A", longValue)] (ascii "hi")) := by
  intro exact
  have h : detected {} = some {} := rfl
  obtain ⟨room, -⟩ := @room_of_exact _ _ _ _ _ 200 [(cstring "A", longValue)] (some (ascii "hi")) (by decide)
    (by decide) (by decide) h exact
  exact absurd room (by decide +kernel)

end Exact

end HttpServer.ResponseText
