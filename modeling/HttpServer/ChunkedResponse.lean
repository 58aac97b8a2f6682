import HttpServer.ResponseText

set_option autoImplicit false

/-!
# A response in chunks

`http_respond_chunk` is called for each chunk and `http_respond_chunk_end` after the last one. What
they write together is never one message: the end writes an empty line too many.
-/
namespace HttpServer.ChunkedResponse
open RequestUtil Respond PrintedText ResponseText

section Messages

/-- Neither NUL nor a line end. -/
def Clean (s : List UInt8) : Prop := (0 : UInt8) ∉ s ∧ (13 : UInt8) ∉ s ∧ (10 : UInt8) ∉ s

def hexDigit (c : UInt8) : Option ℕ :=
  if 48 ≤ c ∧ c ≤ 57 then some (c.toNat - 48)
  else if 65 ≤ c ∧ c ≤ 70 then some (c.toNat - 55)
  else if 97 ≤ c ∧ c ≤ 102 then some (c.toNat - 87)
  else none

/-- The number that some hexadecimal digits stand for. -/
def hexNumber (s : List UInt8) : Option ℕ :=
  s.foldlM (fun n c => (hexDigit c).map fun d => 16 * n + d) 0

/-- `chunk-size [ chunk-ext ]` -/
def SizeLine (n : ℕ) (line : List UInt8) : Prop :=
  ∃ size ext, line = size ++ ext ∧ size ≠ [] ∧ hexNumber size = some n ∧ (ext = [] ∨ ext.head? = some 59) ∧ Clean line

/-- A chunked body, with its content and its trailer fields. -/
inductive ChunkedBody : List UInt8 → List (CString × CString) → List UInt8 → Prop
  | last {line : List UInt8} {trailers : List (CString × CString)} (zero : SizeLine 0 line)
      (fields : ∀ field ∈ trailers, Clean field.1.1 ∧ Clean field.2.1) :
      ChunkedBody [] trailers (line ++ crlf ++ trailers.flatMap headerLine ++ crlf)
  | chunk {line data content bytes : List UInt8} {trailers : List (CString × CString)} (some_data : data ≠ [])
      (size : SizeLine data.length line) (rest : ChunkedBody content trailers bytes) :
      ChunkedBody (data ++ content) trailers (line ++ crlf ++ data ++ crlf ++ bytes)

/-- The header block of a message in chunks. -/
def chunkedHead (status : ℤ) (date : CString) (keepAlive : Bool) (headers : List (CString × CString)) : List UInt8 :=
  statusLine status date ++ headerLine (cstring "Connection" connection_clean,
      if keepAlive then cstring "keep-alive" keepAlive_clean else cstring "close" close_clean) ++
    headerLine (cstring "Transfer-Encoding" transferEncoding_clean, cstring "chunked" chunked_clean) ++
    headers.flatMap headerLine ++ crlf

/-- One message in chunks, and no byte behind it. -/
def OneMessage (status : ℤ) (date : CString) (keepAlive : Bool) (headers : List (CString × CString))
    (content : List UInt8) (trailers : List (CString × CString)) (bytes : List UInt8) : Prop :=
  ∃ body, ChunkedBody content trailers body ∧ bytes = chunkedHead status date keepAlive headers ++ body

variable {content bytes : List UInt8} {trailers : List (CString × CString)}

theorem ChunkedBody.last_line (h : ChunkedBody content trailers bytes) :
    ∃ front line, bytes = front ++ line ++ crlf ++ crlf ∧ Clean line ∧ line ≠ [] ∧
      (trailers = [] ∨ ∃ init field, trailers = init ++ [field] ∧ line.length + 2 = (headerLine field).length) := by
  induction h with
  | @last line trailers zero fields =>
    obtain ⟨size, ext, rfl, some_size, -, -, clean⟩ := zero
    rcases List.eq_nil_or_concat trailers with rfl | ⟨init, field, rfl⟩
    · refine ⟨[], size ++ ext, by simp, clean, ?_, .inl rfl⟩
      simp [some_size]
    · obtain ⟨key, value⟩ := fields field (by simp)
      refine ⟨size ++ ext ++ crlf ++ init.flatMap headerLine, field.1.1 ++ [58, 32] ++ field.2.1, ?_, ?_, by simp,
        .inr ⟨init, field, by simp, by simp [headerLine, crlf]; omega⟩⟩
      · simp [headerLine]
      · unfold Clean at key value ⊢
        simp [key, value]
  | @chunk line data content bytes trailers some_data size rest ih =>
    obtain ⟨front, last, rfl, clean⟩ := ih
    exact ⟨line ++ crlf ++ data ++ crlf ++ front, last, by simp only [List.append_assoc], clean⟩

end Messages

section Calls

/-- What is written of a response: all of it must lie in the block. -/
def written (request : HttpRequestS) : Option (List UInt8) :=
  if 0 ≤ request.buffer.length ∧ request.buffer.length ≤ request.buffer.capacity then some (sent request) else none

/-- Chunk after chunk, each written and its buffer freed. -/
def respondChunks (date : CString) (blks : ℕ → ℕ → NewBlock) :
    List HttpResponseS → HttpRequestS → ℤ → Option (HttpRequestS × ℤ × List UInt8)
  | [], request, memused => some (request, memused, [])
  | response :: responses, request, memused =>
    (hsRequestRespondChunk date (blks 0) request response memused).bind fun r =>
      (written r.1).bind fun bytes =>
        let freed := hsBufferFree r.1.buffer r.2
        (respondChunks date (fun n => blks (n + 1)) responses { r.1 with buffer := freed.1 } freed.2).map fun rest =>
          (rest.1, rest.2.1, bytes ++ rest.2.2)

/-- All that is written of a response in chunks. -/
def respondAll (date : CString) (blks : ℕ → ℕ → NewBlock) (request : HttpRequestS) (responses : List HttpResponseS)
    (last : HttpResponseS) (memused : ℤ) : Option (List UInt8) :=
  (respondChunks date (fun n => blks (n + 1)) responses request memused).bind fun r =>
    (hsRequestRespondChunkEnd (blks 0) r.1 last r.2.1).bind fun ended =>
      (written ended.1).map fun bytes => r.2.2 ++ bytes

/-- The responses that user code builds: the status and the headers belong to the first chunk. -/
def chunkResponses (status : ℤ) (calls : List (CString × CString)) (first : List UInt8) (chunks : List (List UInt8)) :
    List HttpResponseS :=
  built status calls (some first) :: chunks.map fun chunk => built 200 [] (some chunk)

end Calls

section Ends

variable {s t u : Printing} {text front : List UInt8} {blks : ℕ → NewBlock} {request request' : HttpRequestS}
  {memused memused' : ℤ} {response : HttpResponseS} {date : CString}

/-- The last byte is a line feed or a NUL. -/
def Ended (bytes : List UInt8) : Prop := ∃ front c, bytes = front ++ [c] ∧ (c = 10 ∨ c = 0)

theorem Zeroed.printed (zeroed : Zeroed s.blks) (h : Printed s t) : Zeroed t.blks := by
  intro n i
  obtain ⟨m, hm⟩ := h.blks_mem n
  rw [hm]
  exact zeroed m i

/-- A line that was printed: all of it, or a NUL in the place of its last byte or far behind it. -/
theorem printf_line (ok : Ranged s) (zeroed : Zeroed s.blks) (h : s.printf (front ++ [10]) = some t)
    (nonneg : 0 ≤ t.ctx.size) : content t = content s ++ (front ++ [10]) ∨ (∃ front', content t = front' ++ [0]) ∨
      2147483648 ≤ (front ++ [10]).length ∧ t.ctx.size = s.ctx.size - 1 ∧ content t = (content s).dropLast := by
  cases (Printing.printf_outcome ok (by simp) h).1 with
  | plain room capacity_eq size_eq content_eq => exact .inl content_eq
  | full exact capacity_eq size_eq content_eq => exact .inr (.inl ⟨_, content_eq⟩)
  | grown beyond enough size_eq content_eq =>
    obtain ⟨printed, rest, text, -, length, -, zeros⟩ := content_eq nonneg
    rw [text, zeros zeroed, List.length_append, List.length_singleton, List.replicate_succ']
    exact .inr (.inl ⟨content s ++ printed ++ List.replicate front.length 0, by simp only [List.append_assoc]⟩)
  | failed long capacity_eq size_eq content_eq => exact .inr (.inr ⟨long, size_eq, content_eq⟩)
  | wrapped long size_eq negative => omega

theorem printf_crlf (ok : Ranged s) (zeroed : Zeroed s.blks) (h : s.printf crlf = some t) (nonneg : 0 ≤ t.ctx.size) :
    content t = content s ++ crlf ∨ ∃ front, content t = front ++ [0] := by
  rcases @printf_line s t [13] ok zeroed h nonneg with plain | nul | ⟨long, -⟩
  · exact .inl plain
  · exact .inr nul
  · exact absurd long (by decide)

theorem printf_crlf_ended (ok : Ranged s) (zeroed : Zeroed s.blks) (h : s.printf crlf = some t) (nonneg : 0 ≤ t.ctx.size) :
    Ended (content t) := by
  rcases printf_crlf ok zeroed h nonneg with plain | ⟨front, nul⟩
  · exact ⟨content s ++ [13], 10, by rw [plain]; simp [crlf], .inl rfl⟩
  · exact ⟨front, 0, nul, .inr rfl⟩

theorem written_sent {bytes : List UInt8} (h : written (httpPerformResponse request s).1 = some bytes) :
    0 ≤ s.ctx.size ∧ bytes = content s := by
  unfold written at h
  split at h
  · rename_i inside
    cases h
    exact ⟨inside.1, rfl⟩
  · cases h

theorem headerLine_ended (header : CString × CString) : ∃ front, headerLine header = front ++ [10] :=
  ⟨header.1.1 ++ [58, 32] ++ header.2.1 ++ [13], by simp [headerLine, crlf]⟩

theorem headerLine_ne_nil (header : CString × CString) : headerLine header ≠ [] := by
  obtain ⟨front, line⟩ := headerLine_ended header
  simp [line]

theorem httpSerializeHeaders_ranged (ok : Ranged s)
    (h : httpSerializeHeaders date request response s = some (request', t)) : Ranged t := by
  obtain ⟨r, -, h⟩ := Option.bind_eq_some_iff.1 h
  by_cases known : 0 ≤ response.status ∧ response.status < 600
  swap
  · simp only [hsResponseSetHeader, known, if_false] at h
    cases h
  simp only [hsResponseSetHeader, known, and_self, if_true] at h
  obtain ⟨u, hu, h⟩ := Option.bind_eq_some_iff.1 h
  obtain ⟨v, hv, h⟩ := Option.bind_eq_some_iff.1 h
  obtain ⟨w, hw, h⟩ := Option.map_eq_some_iff.1 h
  cases h
  have first := (Printing.printf_outcome ok (by simp [statusLine, crlf]) hu).2
  have second : Ranged v := by
    split at hv
    · cases hv
      exact first
    · exact (Printing.printf_outcome first (by simp [contentLengthLine, crlf]) hv).2
  rw [httpSerializeHeadersList_eq] at hw
  refine prints_ranged second (fun text htext => ?_) hw
  rcases List.mem_append.1 htext with line | line
  · obtain ⟨header, -, rfl⟩ := List.mem_map.1 line
    exact headerLine_ne_nil header
  · simp [List.mem_singleton.1 line, crlf]

theorem hsRequestRespondChunk_ended {bytes : List UInt8} (zeroed : Zeroed blks)
    (h : hsRequestRespondChunk date blks request response memused = some (request', memused'))
    (out : written request' = some bytes) : Ended bytes := by
  obtain ⟨⟨r, s⟩, hr, h⟩ := Option.bind_eq_some_iff.1 h
  obtain ⟨t, ht, h⟩ := Option.bind_eq_some_iff.1 h
  obtain ⟨u, hu, h⟩ := Option.bind_eq_some_iff.1 h
  obtain ⟨v, hv, h⟩ := Option.map_eq_some_iff.1 h
  have start : Ranged (.init blks memused) := Printing.init_ranged blks memused
  have zeroed₀ : Zeroed (Printing.init blks memused).blks := fun n => zeroed (n + 1)
  have begun : Ranged s ∧ Printed (.init blks memused) s := by
    split at hr
    · cases hr
      exact ⟨start, .refl _⟩
    · exact ⟨httpSerializeHeaders_ranged start hr, (httpSerializeHeaders_printed hr).2⟩
  have sized := (Printing.printf_outcome begun.1 (by simp [crlf]) ht).2
  have put := (Printing.memcpy_outcome sized hu).2.2.2.2.2.2
  have zeroed' : Zeroed u.blks := Zeroed.printed zeroed₀ (begun.2.trans ((Printing.printf_printed ht).trans (Printing.memcpy_printed hu)))
  rw [show request' = (httpPerformResponse { r with chunkCb := true } v).1 by rw [h]] at out
  obtain ⟨nonneg, rfl⟩ := written_sent out
  exact printf_crlf_ended put zeroed' hv nonneg

theorem respondChunks_ended {blks : ℕ → ℕ → NewBlock} {responses : List HttpResponseS} {bytes : List UInt8}
    (some_response : responses ≠ []) (zeroed : ∀ n, Zeroed (blks n))
    (h : respondChunks date blks responses request memused = some (request', memused', bytes)) : Ended bytes := by
  induction responses generalizing blks request memused bytes with
  | nil => exact absurd rfl some_response
  | cons response responses ih =>
    obtain ⟨⟨r, memused₁⟩, hr, h⟩ := Option.bind_eq_some_iff.1 h
    obtain ⟨first, out, h⟩ := Option.bind_eq_some_iff.1 h
    obtain ⟨⟨r', memused₂, rest⟩, hrest, h⟩ := Option.map_eq_some_iff.1 h
    cases h
    cases responses with
    | nil =>
      cases hrest
      rw [List.append_nil]
      exact hsRequestRespondChunk_ended (zeroed 0) hr out
    | cons next responses =>
      obtain ⟨front, c, rfl, last⟩ := ih (List.cons_ne_nil _ _) (fun n => zeroed (n + 1)) hrest
      exact ⟨first ++ front, c, (List.append_assoc _ _ _).symm, last⟩

theorem hsRequestRespondChunkEnd_eq : hsRequestRespondChunkEnd blks request response memused =
    (((prints (ascii "0\r\n" :: response.headers.map headerLine) (.init blks memused)).bind fun s => s.printf crlf).bind
      fun s => s.printf crlf).map
        (httpPerformResponse { request with flags := httpFlagClear request.flags httpChunkedResponse }) := by
  unfold hsRequestRespondChunkEnd
  rw [prints_cons, Option.bind_assoc, Option.bind_assoc, Option.map_bind]
  congr 1
  funext s
  rw [httpSerializeHeadersList_eq, prints_append, Function.comp_apply, Option.map_bind, Option.bind_assoc]
  congr 1
  funext t
  change ((t.printf crlf).bind some).bind _ = Option.map _ ((t.printf crlf).bind fun s => s.printf crlf)
  cases t.printf crlf <;> rfl

theorem prints_printed {pieces : List (List UInt8)} (h : prints pieces s = some t) : Printed s t := by
  induction pieces generalizing s with
  | nil =>
    cases h
    exact .refl _
  | cons text pieces ih =>
    rw [prints_cons] at h
    obtain ⟨u, hu, h⟩ := Option.bind_eq_some_iff.1 h
    exact (Printing.printf_printed hu).trans (ih h)

/-- Lines that were printed: the last one ends the content, unless it is too long to be printed. -/
theorem prints_line {pieces : List (List UInt8)} (ok : Ranged s) (zeroed : Zeroed s.blks)
    (some_text : ∀ text ∈ pieces, text ≠ []) (h : prints (pieces ++ [front ++ [10]]) s = some t) (nonneg : 0 ≤ t.ctx.size) :
    Ended (content t) ∨ 2147483648 ≤ (front ++ [10]).length := by
  rw [prints_append] at h
  obtain ⟨u, hu, h⟩ := Option.bind_eq_some_iff.1 h
  rw [prints_cons] at h
  obtain ⟨v, hv, h⟩ := Option.bind_eq_some_iff.1 h
  cases h
  rcases printf_line (prints_ranged ok some_text hu) (Zeroed.printed zeroed (prints_printed hu)) hv nonneg with
    plain | ⟨x, nul⟩ | ⟨long, -⟩
  · exact .inl ⟨content u ++ front, 10, plain.trans (List.append_assoc _ _ _).symm, .inl rfl⟩
  · exact .inl ⟨x, 0, nul, .inr rfl⟩
  · exact .inr long

theorem Ended.not_clean {bytes all line : List UInt8} (ended : Ended bytes) (some_line : line ≠ []) (suffix : bytes <:+ all)
    (suffix' : line <:+ all) : ¬ Clean line := by
  rintro ⟨nul, -, feed⟩
  obtain ⟨front, c, rfl, last⟩ := ended
  have mem : c ∈ line := by
    rcases List.eq_nil_or_concat line with rfl | ⟨init, d, rfl⟩
    · exact absurd rfl some_line
    · obtain ⟨x, rfl⟩ := suffix
      obtain ⟨y, eq⟩ := suffix'
      rw [List.concat_eq_append, ← List.append_assoc, ← List.append_assoc] at eq
      have := List.append_inj_right' eq rfl
      simp_all
  rcases last with rfl | rfl
  · exact feed mem
  · exact nul mem

theorem nul_ne_crlf (before front x : List UInt8) : before ++ (front ++ [0]) ≠ x ++ crlf := by
  intro eq
  have := congrArg List.getLast? eq
  simp [crlf] at this

theorem hsRequestRespondChunkEnd_lines {before bytes front line : List UInt8} (zeroed : Zeroed blks)
    (h : hsRequestRespondChunkEnd blks request response memused = some (request', memused'))
    (out : written request' = some bytes) (ended : Ended before) (clean : Clean line) (some_line : line ≠ [])
    (last : response.headers = [] ∨
      ∃ init field, response.headers = init ++ [field] ∧ line.length + 2 = (headerLine field).length) :
    before ++ bytes ≠ front ++ line ++ crlf ++ crlf := by
  intro eq
  rw [hsRequestRespondChunkEnd_eq] at h
  obtain ⟨t, ht, performed⟩ := Option.map_eq_some_iff.1 h
  obtain ⟨v, hv, ht⟩ := Option.bind_eq_some_iff.1 ht
  obtain ⟨u, hu, hv⟩ := Option.bind_eq_some_iff.1 hv
  rw [show request' = (httpPerformResponse { request with flags := httpFlagClear request.flags httpChunkedResponse } t).1
    by rw [performed]] at out
  obtain ⟨nonneg, rfl⟩ := written_sent out
  have start : Ranged (.init blks memused) := Printing.init_ranged blks memused
  have zeroed₀ : Zeroed (Printing.init blks memused).blks := fun n => zeroed (n + 1)
  have some_text : ∀ text ∈ ascii "0\r\n" :: response.headers.map headerLine, text ≠ [] := by
    intro text htext
    rcases List.mem_cons.1 htext with rfl | htext
    · decide
    · obtain ⟨header, -, rfl⟩ := List.mem_map.1 htext
      exact headerLine_ne_nil header
  have u_ranged := prints_ranged start some_text hu
  have u_zeroed := Zeroed.printed zeroed₀ (prints_printed hu)
  have v_ranged := (Printing.printf_outcome u_ranged (by decide) hv).2
  have v_zeroed := Zeroed.printed u_zeroed (Printing.printf_printed hv)
  -- Both empty lines were printed as they are.
  have plain_t : content t = content v ++ crlf := by
    rcases printf_crlf v_ranged v_zeroed ht nonneg with plain | ⟨x, nul⟩
    · exact plain
    · rw [nul] at eq
      exact absurd eq (nul_ne_crlf _ _ _)
  rw [plain_t, ← List.append_assoc] at eq
  replace eq := List.append_cancel_right eq
  have plain_v : content v = content u ++ crlf := by
    rcases printf_crlf u_ranged u_zeroed hv (Printing.printf_inside v_ranged ht).1 with plain | ⟨x, nul⟩
    · exact plain
    · rw [nul] at eq
      exact absurd eq (nul_ne_crlf _ _ _)
  rw [plain_v, ← List.append_assoc] at eq
  replace eq := List.append_cancel_right eq
  have suffix : line <:+ before ++ content u := ⟨front, eq.symm⟩
  have u_nonneg := (Printing.printf_inside u_ranged hv).1
  -- The text in front of them ends with a line feed, or it was not printed at all.
  have u_ended : Ended (content u) ∨ (content u).length < line.length := by
    rcases last with none | ⟨init, field, some_fields, length⟩
    · rw [none] at hu
      rcases @prints_line _ _ (ascii "0\r") [] start zeroed₀ (by simp) hu u_nonneg with ended | long
      · exact .inl ended
      · exact absurd long (by decide)
    · obtain ⟨front, line_eq⟩ := headerLine_ended field
      rw [some_fields, List.map_append, List.map_singleton, line_eq, ← List.cons_append] at hu some_text
      rcases prints_line start zeroed₀ (fun text h => some_text text (List.mem_append_left _ h)) hu u_nonneg with
        ended | long
      · exact .inl ended
      · have sizes := congrArg List.length plain_v
        rw [List.length_append, content, content, slice_length, slice_length] at sizes
        have := v_ranged.size_lt
        rw [content, slice_length]
        simp only [crlf, List.length_cons, List.length_nil] at sizes
        rw [line_eq] at length
        exact .inr (by omega)
  rcases u_ended with u_ended | short
  · exact u_ended.not_clean some_line ⟨before, rfl⟩ suffix clean
  · obtain ⟨x, c, rfl, last⟩ := ended
    have tail : [c] ++ content u <:+ x ++ [c] ++ content u := ⟨x, by simp only [List.append_assoc]⟩
    have inside : [c] ++ content u <:+ line :=
      List.suffix_of_suffix_length_le tail suffix (by rw [List.length_append, List.length_singleton]; omega)
    have mem : c ∈ line := inside.subset (by simp)
    rcases last with rfl | rfl
    · exact clean.2.2 mem
    · exact clean.1 mem

end Ends

section Never

variable {date : CString} {request : HttpRequestS} {memused status : ℤ} {calls trailers : List (CString × CString)}
  {first : List UInt8} {chunks : List (List UInt8)}

theorem respondAll_zeroed {blks : ℕ → ℕ → NewBlock} {bytes : List UInt8} (zeroed : ∀ n, Zeroed (blks n))
    (h : respondAll date blks request (chunkResponses status calls first chunks) (built 200 trailers none) memused =
      some bytes) : ¬ OneMessage status date (keepsAlive request) calls.reverse (first ++ chunks.flatten) trailers.reverse
        bytes := by
  rintro ⟨body, chunked, rfl⟩
  obtain ⟨⟨r, memused₁, before⟩, hr, h⟩ := Option.bind_eq_some_iff.1 h
  obtain ⟨⟨r', memused₂⟩, hr', h⟩ := Option.bind_eq_some_iff.1 h
  obtain ⟨after, out, eq⟩ := Option.map_eq_some_iff.1 h
  have ended := respondChunks_ended (List.cons_ne_nil _ _) (fun n => zeroed (n + 1)) hr
  obtain ⟨front, line, rfl, clean, some_line, last⟩ := chunked.last_line
  rw [built_eq (by decide) (by decide)] at hr'
  have differs := fun front' =>
    @hsRequestRespondChunkEnd_lines _ _ _ _ _ _ _ _ front' line (zeroed 0) hr' out ended clean some_line last
  apply differs (chunkedHead status date (keepsAlive request) calls.reverse ++ front)
  dsimp only at eq
  rw [eq]
  simp only [List.append_assoc]

/-- Whatever the chunks and the trailers are, what is written is not one message: the list of the
    trailers ends with an empty line, and another one follows. -/
theorem respondAll_not_message (date : CString) (request : HttpRequestS) (memused status : ℤ)
    (calls : List (CString × CString)) (first : List UInt8) (chunks : List (List UInt8))
    (trailers : List (CString × CString)) :
    ¬ ∀ blks, ∃ bytes,
      respondAll date blks request (chunkResponses status calls first chunks) (built 200 trailers none) memused =
        some bytes ∧
      OneMessage status date (keepsAlive request) calls.reverse (first ++ chunks.flatten) trailers.reverse bytes := by
  intro h
  obtain ⟨bytes, all, message⟩ := h fun _ _ => ⟨4096, fun _ => 0⟩
  exact respondAll_zeroed (fun _ _ _ => rfl) all message

/-- One chunk, `x`, without trailers. -/
theorem respondAll_extra_line :
    respondAll (cstring "Sat") (fun _ _ => ⟨4096, fun _ => 0⟩) {} (chunkResponses 200 [] (ascii "x") [])
        (built 200 [] none) 0 =
      some (chunkedHead 200 (cstring "Sat") (keepsAlive {}) [] ++ ascii "1\r\nx\r\n0\r\n\r\n" ++ crlf) ∧
    ¬ ∀ blks, ∃ bytes,
      respondAll (cstring "Sat") blks {} (chunkResponses 200 [] (ascii "x") []) (built 200 [] none) 0 = some bytes ∧
      OneMessage 200 (cstring "Sat") (keepsAlive {}) [] (ascii "x" ++ [].flatten) [] bytes := by
  constructor
  · decide +kernel
  · intro h
    obtain ⟨bytes, all, message⟩ := h fun _ _ => ⟨4096, fun _ => 0⟩
    exact respondAll_zeroed (fun _ _ _ => rfl) all message

end Never

end HttpServer.ChunkedResponse
