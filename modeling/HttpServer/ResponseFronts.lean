import HttpServer.ResponseText

set_option autoImplicit false

/-!
# The front of a response

The flags of a response, and its first lines: whatever is printed behind them they stay as they are, unless a
header line has more bytes than an `int` counts.
-/
namespace HttpServer.ResponseFronts
open MachineInt PrintBuffer RequestUtil Respond PrintedText ResponseText

section Flags

variable {date : CString} {blks : ℕ → NewBlock} {request request' : HttpRequestS} {response : HttpResponseS}
  {memused memused' : ℤ} {s t : Printing}

theorem httpSerializeHeaders_detected (h : httpSerializeHeaders date request response s = some (request', t)) :
    detected request = some request' := by
  obtain ⟨r, hr, h⟩ := Option.bind_eq_some_iff.1 h
  change detected request = some r at hr
  rw [hr]
  by_cases known : 0 ≤ response.status ∧ response.status < 600
  · simp only [hsResponseSetHeader, known, and_self, if_true] at h
    obtain ⟨u, -, h⟩ := Option.bind_eq_some_iff.1 h
    obtain ⟨v, -, h⟩ := Option.bind_eq_some_iff.1 h
    obtain ⟨w, -, h⟩ := Option.map_eq_some_iff.1 h
    exact congrArg some (Prod.mk.inj h).1
  · simp only [hsResponseSetHeader, known, if_false] at h
    cases h

theorem hsRequestRespond_flags (h : hsRequestRespond date blks request response memused = some (request', memused')) :
    ∃ r, detected request = some r ∧ request'.flags = r.flags := by
  obtain ⟨r, hr, h⟩ := Option.bind_eq_some_iff.1 h
  obtain ⟨t, -, h⟩ := Option.map_eq_some_iff.1 h
  refine ⟨r.1, httpSerializeHeaders_detected hr, ?_⟩
  exact (congrArg (fun r => r.1.flags) h).symm

theorem hsRequestRespondChunk_flags
    (h : hsRequestRespondChunk date blks request response memused = some (request', memused')) :
    if httpFlagCheck request.flags httpChunkedResponse then request'.flags = request.flags
    else ∃ r, detected { request with flags := httpFlagSet request.flags httpChunkedResponse } = some r ∧
      request'.flags = r.flags := by
  obtain ⟨r, hr, h⟩ := Option.bind_eq_some_iff.1 h
  obtain ⟨t, -, h⟩ := Option.bind_eq_some_iff.1 h
  obtain ⟨u, -, h⟩ := Option.bind_eq_some_iff.1 h
  obtain ⟨v, -, h⟩ := Option.map_eq_some_iff.1 h
  have flags : request'.flags = r.1.flags := by
    exact (congrArg (fun r => r.1.flags) h).symm
  split at hr
  · cases hr
    rw [if_pos ‹_›]
    exact flags
  · rw [if_neg ‹_›]
    exact ⟨r.1, httpSerializeHeaders_detected hr, flags⟩

theorem hsRequestRespondChunkEnd_flags
    (h : hsRequestRespondChunkEnd blks request response memused = some (request', memused')) :
    request'.flags = httpFlagClear request.flags httpChunkedResponse := by
  obtain ⟨t, -, h⟩ := Option.bind_eq_some_iff.1 h
  obtain ⟨u, -, h⟩ := Option.bind_eq_some_iff.1 h
  obtain ⟨v, -, h⟩ := Option.map_eq_some_iff.1 h
  exact (congrArg (fun r => r.1.flags) h).symm

end Flags

section Fronts

variable {s t : Printing} {text front : List UInt8} {pieces : List (List UInt8)}

/-- The buffer holds `front` and maybe more. -/
structure Begins (front : List UInt8) (s : Printing) : Prop where
  size : (front.length : ℤ) ≤ s.ctx.size
  room : (front.length : ℤ) ≤ s.ctx.capacity
  text : slice s.ctx.data 0 front.length = front

theorem content_length (s : Printing) : (content s).length = s.ctx.size.toNat := slice_length _ _ _

theorem Begins.content (h : Begins front s) : front <+: content s := by
  obtain ⟨size, -, text⟩ := h
  obtain ⟨n, hn⟩ : ∃ n, s.ctx.size.toNat = front.length + n := Nat.exists_eq_add_of_le (by omega)
  unfold PrintedText.content
  rw [hn, slice_add, text]
  exact List.prefix_append _ _

theorem begins_of_content (nonneg : 0 ≤ s.ctx.size) (room : (front.length : ℤ) ≤ s.ctx.capacity)
    (h : front <+: PrintedText.content s) : Begins front s := by
  have length := h.length_le
  rw [content_length] at length
  refine ⟨by omega, room, ?_⟩
  obtain ⟨n, hn⟩ : ∃ n, s.ctx.size.toNat = front.length + n := Nat.exists_eq_add_of_le length
  obtain ⟨rest, eq⟩ := h
  unfold PrintedText.content at eq
  rw [hn, slice_add] at eq
  exact (List.append_inj eq (slice_length _ _ _).symm).1.symm

theorem printf_begins (ok : Ranged s) (some_text : text ≠ []) (short : text.length < 2147483648)
    (h : s.printf text = some t) (nonneg : 0 ≤ t.ctx.size) (begins : Begins front s) : Begins front t := by
  have le := begins.content
  have size := begins.size
  have room := begins.room
  have more : ∀ rest, PrintedText.content t = PrintedText.content s ++ rest → front <+: PrintedText.content t := by
    intro rest eq
    rw [eq]
    exact le.trans (List.prefix_append _ _)
  cases (Printing.printf_outcome ok some_text h).1 with
  | plain _ capacity_eq _ content_eq => exact begins_of_content nonneg (capacity_eq ▸ room) (more _ content_eq)
  | full _ capacity_eq _ content_eq =>
    exact begins_of_content nonneg (capacity_eq ▸ room) (more _ (content_eq.trans (List.append_assoc _ _ _)))
  | grown _ enough _ content_eq =>
    obtain ⟨printed, rest, eq, -⟩ := content_eq nonneg
    exact begins_of_content nonneg (by omega) (more _ (eq.trans (List.append_assoc _ _ _)))
  | failed long => omega
  | wrapped _ _ negative => omega

theorem prints_begins (ok : Ranged s) (some_text : ∀ text ∈ pieces, text ≠ [])
    (short : ∀ text ∈ pieces, text.length < 2147483648) (h : prints pieces s = some t) (nonneg : 0 ≤ t.ctx.size)
    (begins : Begins front s) : Begins front t := by
  induction pieces generalizing s with
  | nil =>
    cases h
    exact begins
  | cons text pieces ih =>
    rw [prints_cons] at h
    obtain ⟨u, hu, h⟩ := Option.bind_eq_some_iff.1 h
    have some_piece := some_text text List.mem_cons_self
    have ok' := (Printing.printf_outcome ok some_piece hu).2
    have nonneg' : 0 ≤ u.ctx.size := by
      cases pieces with
      | nil =>
        cases h
        exact nonneg
      | cons next pieces => exact (prints_inside ok' (List.cons_ne_nil _ _) h).1
    exact ih ok' (fun text ht => some_text text (List.mem_cons_of_mem _ ht))
      (fun text ht => short text (List.mem_cons_of_mem _ ht)) h
      (printf_begins ok some_piece (short text List.mem_cons_self) hu nonneg' begins)

theorem memcpy_begins {src : List UInt8} {n : ℤ} (ok : Ranged s) (h : s.memcpy src n = some t)
    (begins : Begins front s) : Begins front t := by
  obtain ⟨-, nonneg, -, size, capacity, -, -⟩ := Printing.memcpy_outcome ok h
  have le := begins.size
  have room := begins.room
  refine ⟨by omega, by omega, (slice_congr fun i lo hi => ?_).trans begins.text⟩
  obtain ⟨⟨ctx', memused'⟩, hr, rfl⟩ := Option.map_eq_some_iff.1 h
  unfold grwmemcpy at hr
  by_cases grows : wrap32 (s.ctx.size + n) > s.ctx.capacity
  · simp only [grows, if_true] at hr
    split at hr
    · cases hr
      change write _ _ _ i = _
      rw [write_before _ _ (by change i < s.ctx.size; omega)]
      exact if_pos (by omega)
    · cases hr
  · simp only [grows, if_false] at hr
    split at hr
    · cases hr
      exact write_before _ _ (by omega)
    · cases hr

theorem digits_length {base n k : ℕ} (large : 1 < base) (lt : n < base ^ k) (pos : 1 ≤ k) : (digits base n).length ≤ k := by
  unfold digits
  split
  · exact pos
  · rw [List.length_reverse, List.length_map]
    exact (Nat.digits_length_le_iff large n).2 lt

theorem decimal_length {n : ℤ} (ge : -2147483648 ≤ n) (lt : n < 2147483648) : (decimal n).length ≤ 11 := by
  unfold decimal
  split
  · have := @digits_length 10 n.natAbs 10 (by norm_num) (by omega) (by norm_num)
    rw [List.length_cons]
    omega
  · have := @digits_length 10 n.toNat 10 (by norm_num) (by omega) (by norm_num)
    omega

theorem hex_length (n : ℤ) : (hex n).length ≤ 8 := by
  have := @digits_length 16 (n % 4294967296).toNat 8 (by norm_num) (by omega) (by norm_num)
  unfold hex
  exact this

theorem hsStatusText_length (n : ℕ) : (ascii (hsStatusText n)).length ≤ 31 := by
  unfold hsStatusText
  split <;> decide

theorem statusLine_length {status : ℤ} {date : CString} (lo : 0 ≤ status) (hi : status < 600) (short : date.1.length < 32) :
    (statusLine status date).length ≤ 100 := by
  have number := @decimal_length status (by omega) (by omega)
  have word := hsStatusText_length status.toNat
  have fixed : (ascii "HTTP/1.1 ").length = 9 ∧ (ascii "Date: ").length = 6 := by decide
  unfold statusLine crlf
  simp only [List.length_append, List.length_cons, List.length_nil, fixed]
  omega

theorem contentLengthLine_length {n : ℤ} (ge : -2147483648 ≤ n) (lt : n < 2147483648) :
    (contentLengthLine n).length ≤ 40 := by
  have number := decimal_length ge lt
  have fixed : (ascii "Content-Length: ").length = 16 := by decide
  unfold contentLengthLine crlf
  simp only [List.length_append, List.length_cons, List.length_nil, fixed]
  omega

end Fronts

section Connection

variable {date : CString} {blks : ℕ → NewBlock} {request request' : HttpRequestS} {response : HttpResponseS}
  {memused memused' : ℤ} {s t : Printing}

def connectionWord (keep : Bool) : CString :=
  if keep then cstring "keep-alive" keepAlive_clean else cstring "close" close_clean

/-- The lines before the headers that user code sets. -/
def frontLines (date : CString) (response : HttpResponseS) (chunked keep : Bool) : List (List UInt8) :=
  statusLine response.status date :: ((if chunked then [] else [contentLengthLine response.contentLength]) ++
    [headerLine (cstring "Connection" connection_clean, connectionWord keep)])

/-- The response begins with the lines of the server, the last of which is its `Connection` header. -/
def Says (date : CString) (response : HttpResponseS) (request : HttpRequestS) (keep : Bool) : Prop :=
  (frontLines date response (httpFlagCheck request.flags httpChunkedResponse) keep).flatten <+: sent request

/-- A response whose length is an `int`, and whose header lines have fewer bytes than an `int` counts. -/
structure Printable (date : CString) (response : HttpResponseS) : Prop where
  date_lt : date.1.length < 32
  length_ge : -2147483648 ≤ response.contentLength
  length_lt : response.contentLength < 2147483648
  headers : ∀ header ∈ response.headers, (headerLine header).length < 2147483648

theorem httpSerializeHeaders_prints (h : httpSerializeHeaders date request response s = some (request', t)) :
    (0 ≤ response.status ∧ response.status < 600) ∧
      prints (frontLines date response (httpFlagCheck request'.flags httpChunkedResponse)
        (httpFlagCheck request'.flags httpKeepAlive) ++ (response.headers.map headerLine ++ [crlf])) s = some t := by
  obtain ⟨r, -, h⟩ := Option.bind_eq_some_iff.1 h
  by_cases known : 0 ≤ response.status ∧ response.status < 600
  swap
  · simp only [hsResponseSetHeader, known, if_false] at h
    cases h
  simp only [hsResponseSetHeader, known, and_self, if_true] at h
  obtain ⟨u, hu, h⟩ := Option.bind_eq_some_iff.1 h
  obtain ⟨v, hv, h⟩ := Option.bind_eq_some_iff.1 h
  obtain ⟨x, hx, h⟩ := Option.map_eq_some_iff.1 h
  cases h
  rw [httpSerializeHeadersList_eq] at hx
  refine ⟨known, ?_⟩
  unfold frontLines connectionWord
  rw [List.cons_append, prints_cons, hu, Option.bind_some, List.append_assoc, prints_append]
  split at hv
  · cases hv
    rw [if_pos ‹_›]
    exact hx
  · rw [if_neg ‹_›, prints_cons, hv]
    exact hx

theorem frontLines_ne_nil {chunked keep : Bool} : ∀ text ∈ frontLines date response chunked keep, text ≠ [] := by
  intro text htext
  unfold frontLines at htext
  simp only [List.mem_cons, List.mem_append, List.not_mem_nil, or_false] at htext
  rcases htext with rfl | htext | rfl
  · simp [statusLine, crlf]
  · split at htext
    · cases htext
    · rw [List.mem_singleton.1 htext]
      simp [contentLengthLine, crlf]
  · simp [headerLine, crlf]

theorem frontLines_length {chunked keep : Bool} (lo : 0 ≤ response.status) (hi : response.status < 600)
    (printable : Printable date response) : (frontLines date response chunked keep).flatten.length < 1024 := by
  have status := statusLine_length lo hi printable.date_lt
  have length := contentLengthLine_length printable.length_ge printable.length_lt
  have word : (headerLine (cstring "Connection", connectionWord keep)).length ≤ 24 := by
    cases keep <;> decide
  unfold frontLines
  rw [List.flatten_cons, List.flatten_append, List.length_append, List.length_append]
  have middle : (List.flatten (if chunked then [] else [contentLengthLine response.contentLength])).length ≤ 40 := by
    cases chunked
    · simpa using length
    · exact Nat.zero_le _
  simp only [List.flatten_cons, List.flatten_nil, List.append_nil]
  omega

theorem httpSerializeHeaders_begins (printable : Printable date response)
    (h : httpSerializeHeaders date request response (.init blks memused) = some (request', t)) :
    Ranged t ∧ (0 ≤ t.ctx.size → Begins (frontLines date response (httpFlagCheck request'.flags httpChunkedResponse)
      (httpFlagCheck request'.flags httpKeepAlive)).flatten t) := by
  obtain ⟨⟨lo, hi⟩, h⟩ := httpSerializeHeaders_prints h
  have start := Printing.init_ranged blks memused
  obtain ⟨size, capacity, empty⟩ := init_sizes blks memused
  have small := @frontLines_length date response (httpFlagCheck request'.flags httpChunkedResponse)
    (httpFlagCheck request'.flags httpKeepAlive) lo hi printable
  obtain ⟨u, hu, ok, capacity', size', text⟩ := prints_room start size.ge
    (@frontLines_ne_nil date response (httpFlagCheck request'.flags httpChunkedResponse)
      (httpFlagCheck request'.flags httpKeepAlive)) (by omega)
  rw [prints_append, hu, Option.bind_some] at h
  have nonempty : ∀ text ∈ response.headers.map headerLine ++ [crlf], text ≠ [] := by
    intro text htext
    rcases List.mem_append.1 htext with line | line
    · obtain ⟨header, -, rfl⟩ := List.mem_map.1 line
      simp [headerLine, crlf]
    · rw [List.mem_singleton.1 line]
      decide
  have short : ∀ text ∈ response.headers.map headerLine ++ [crlf], text.length < 2147483648 := by
    intro text htext
    rcases List.mem_append.1 htext with line | line
    · obtain ⟨header, mem, rfl⟩ := List.mem_map.1 line
      exact printable.headers header mem
    · rw [List.mem_singleton.1 line]
      decide
  refine ⟨prints_ranged ok nonempty h, fun nonneg => prints_begins ok nonempty short h nonneg ?_⟩
  refine begins_of_content (by omega) (by omega) ?_
  rw [text, empty]
  exact List.prefix_rfl

theorem hsRequestRespond_status (printable : Printable date response)
    (h : hsRequestRespond date blks request response memused = some (request', memused'))
    (nonneg : 0 ≤ request'.buffer.length) : Says date response request' (httpFlagCheck request'.flags httpKeepAlive) := by
  obtain ⟨⟨r, s⟩, hr, h⟩ := Option.bind_eq_some_iff.1 h
  obtain ⟨t, ht, h⟩ := Option.map_eq_some_iff.1 h
  obtain ⟨ok, begins⟩ := httpSerializeHeaders_begins printable hr
  have performed : request' = (httpPerformResponse r t).1 := (congrArg Prod.fst h).symm
  subst performed
  change _ <+: content t
  change 0 ≤ t.ctx.size at nonneg
  cases body : response.body with
  | none =>
    rw [body] at ht
    cases ht
    exact (begins nonneg).content
  | some bytes =>
    rw [body] at ht
    exact (memcpy_begins ok ht (begins (Printing.memcpy_outcome ok ht).1)).content

theorem hsRequestRespondChunk_status (printable : Printable date response)
    (first : httpFlagCheck request.flags httpChunkedResponse = false)
    (h : hsRequestRespondChunk date blks request response memused = some (request', memused'))
    (nonneg : 0 ≤ request'.buffer.length) : Says date response request' (httpFlagCheck request'.flags httpKeepAlive) := by
  obtain ⟨⟨r, s⟩, hr, h⟩ := Option.bind_eq_some_iff.1 h
  obtain ⟨t, ht, h⟩ := Option.bind_eq_some_iff.1 h
  obtain ⟨u, hu, h⟩ := Option.bind_eq_some_iff.1 h
  obtain ⟨v, hv, h⟩ := Option.map_eq_some_iff.1 h
  rw [if_neg (by rw [first]; decide)] at hr
  have chunked : Printable date (hsResponseSetHeader response (cstring "Transfer-Encoding") (cstring "chunked")) := by
    refine ⟨printable.date_lt, printable.length_ge, printable.length_lt, fun header mem => ?_⟩
    rcases List.mem_cons.1 mem with rfl | mem
    · decide
    · exact printable.headers header mem
  obtain ⟨ok, begins⟩ := httpSerializeHeaders_begins chunked hr
  have performed : request' = (httpPerformResponse { r with chunkCb := true } v).1 := (congrArg Prod.fst h).symm
  subst performed
  change _ <+: content v
  change 0 ≤ v.ctx.size at nonneg
  have size := hex_length response.contentLength
  have ok_t := (Printing.printf_outcome ok (by simp [crlf]) ht).2
  have copied := Printing.memcpy_outcome ok_t hu
  have begins := begins (Printing.printf_inside ok ht).1
  have begins := printf_begins ok (by simp [crlf]) (by simp [crlf]; omega) ht copied.1 begins
  have begins := memcpy_begins ok_t hu begins
  exact (printf_begins copied.2.2.2.2.2.2 (by decide) (by decide) hv nonneg begins).content

end Connection

end HttpServer.ResponseFronts
