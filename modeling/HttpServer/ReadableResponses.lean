import HttpServer.Lib.Messages
import HttpServer.RefusedConnections

set_option autoImplicit false

/-!
# What a client reads

A client that cuts the bytes of a connection into responses, by the header block and its Content-Length,
reads the responses that user code and the library have made, in their order.
-/
namespace HttpServer.ReadableResponses
open Messages HttpServer.Parser ReadBuffer RequestUtil PrintBuffer Respond ResponseText ResponseFronts Connection
  ConnectionSteps ConnectionInvariant HeldRequests WrittenResponses RefusedConnections

section Client

/-- A response as a client has it. -/
structure Reply where
  status : ℕ
  headers : List (List UInt8 × List UInt8)
  body : List UInt8
deriving DecidableEq

/-- `HTTP/1.1 status reason` -/
def statusOf (line : List UInt8) : Option ℕ :=
  if line.take 9 = ascii "HTTP/1.1 " then number ((line.drop 9).takeWhile (· ≠ 32)) else none

/-- The response with this header block, when its body is there. -/
def withLines (first : List UInt8) (fields : List (List UInt8)) (rest : List UInt8) : Option (Reply × List UInt8) :=
  (statusOf first).bind fun status =>
    (fields.mapM splitField).bind fun headers =>
      (headers.lookup (ascii "Content-Length")).bind fun text =>
        (number text).bind fun n =>
          if n ≤ rest.length then some (⟨status, headers, rest.take n⟩, rest.drop n) else none

/-- The first response of a stream. -/
def readReply (bytes : List UInt8) : Option (Reply × List UInt8) :=
  (readLines [] [] bytes).bind fun r =>
    match r.1 with
    | [] => none
    | first :: fields => withLines first fields r.2

theorem readReply_extends : Extends readReply := by
  intro bytes more reply rest h
  obtain ⟨⟨lines, after⟩, hlines, h⟩ := Option.bind_eq_some_iff.1 h
  have block := readLines_extends [] [] bytes more lines after hlines
  unfold readReply
  rw [block, Option.bind_some]
  cases lines with
  | nil => cases h
  | cons first fields =>
    obtain ⟨status, hstatus, h⟩ := Option.bind_eq_some_iff.1 h
    obtain ⟨headers, hheaders, h⟩ := Option.bind_eq_some_iff.1 h
    obtain ⟨text, htext, h⟩ := Option.bind_eq_some_iff.1 h
    obtain ⟨n, hn, h⟩ := Option.bind_eq_some_iff.1 h
    split at h
    · rename_i le
      cases h
      dsimp only at le ⊢
      unfold withLines
      rw [hstatus, Option.bind_some, hheaders, Option.bind_some, htext, Option.bind_some, hn, Option.bind_some,
        if_pos (by rw [List.length_append]; omega), List.take_append_of_le_length le, List.drop_append_of_le_length le]
    · cases h

end Client

section Made

/-- What a client should read of a response. -/
def replyTo (date : CString) (keep : Bool) (response : HttpResponseS) : Reply where
  status := response.status.toNat
  headers := [(ascii "Date", date.1), (ascii "Content-Length", decimal response.contentLength),
      (ascii "Connection", ascii (if keep then "keep-alive" else "close"))] ++
    response.headers.map fun header => (header.1.1, header.2.1)
  body := response.body.getD []

/-- A response whose strings are header fields, and whose header block fits. -/
def Sendable (date : CString) (keep : Bool) (response : HttpResponseS) : Prop :=
  (100 ≤ response.status ∧ response.status ≤ 599) ∧
    response.contentLength = (response.body.getD []).length ∧
    (∀ header ∈ response.headers, (58 : UInt8) ∉ header.1.1 ∧ (13 : UInt8) ∉ header.1.1 ∧ (13 : UInt8) ∉ header.2.1) ∧
    (13 : UInt8) ∉ date.1 ∧
    (headText response.status date keep response.headers response.contentLength).length < 1024 ∧
    (headText response.status date keep response.headers response.contentLength).length +
      (response.body.getD []).length ≤ 2147483647

instance (date : CString) (keep : Bool) (response : HttpResponseS) : Decidable (Sendable date keep response) := by
  unfold Sendable
  infer_instance

variable {date : CString} {keep : Bool} {response : HttpResponseS}

theorem decimal_digits {n : ℤ} (nonneg : 0 ≤ n) : (∀ c ∈ decimal n, 48 ≤ c ∧ c ≤ 57) ∧ number (decimal n) = some n.toNat := by
  have digit : ∀ d < 10, digitChar d = (48 + d).toUInt8 ∧ 48 ≤ digitChar d ∧ digitChar d ≤ 57 := by
    intro d lt
    interval_cases d <;> decide
  unfold decimal digits
  rw [if_neg (by omega)]
  split
  · rename_i zero
    rw [zero]
    refine ⟨fun c hc => ?_, by decide⟩
    rw [List.mem_singleton.1 hc]
    decide
  · rename_i pos
    have small : ∀ d ∈ Nat.digits 10 n.toNat, d < 10 := fun d hd => Nat.digits_lt_base (by norm_num) hd
    have same : (Nat.digits 10 n.toNat).map digitChar = (Nat.digits 10 n.toNat).map fun d => (48 + d).toUInt8 :=
      List.map_congr_left fun d hd => (digit d (small d hd)).1
    refine ⟨fun c hc => ?_, ?_⟩
    · obtain ⟨d, hd, rfl⟩ := List.mem_map.1 (List.mem_reverse.1 hc)
      exact (digit d (small d hd)).2
    · rw [same, number_digits (Nat.digits_ne_nil_iff_ne_zero.2 pos) small, Nat.ofDigits_digits]

theorem statusText_clean (n : ℕ) : (13 : UInt8) ∉ ascii (hsStatusText n) := by
  unfold hsStatusText
  split <;> decide

/-- The lines of a header block. -/
def headLines (date : CString) (keep : Bool) (response : HttpResponseS) : List (List UInt8) :=
  (ascii "HTTP/1.1 " ++ decimal response.status ++ ascii " " ++ ascii (hsStatusText response.status.toNat)) ::
    (replyTo date keep response).headers.map fun header => header.1 ++ 58 :: 32 :: header.2

theorem headText_lines : headText response.status date keep response.headers response.contentLength =
    (headLines date keep response).flatMap (fun text => text ++ [13, 10]) ++ 13 :: 10 :: [] := by
  have user : ∀ headers : List (CString × CString),
      headers.flatMap (fun header => header.1.1 ++ ascii ": " ++ header.2.1 ++ crlf) =
        ((headers.map fun header => (header.1.1, header.2.1)).map fun header => header.1 ++ 58 :: 32 :: header.2).flatMap
          fun text => text ++ [13, 10] := by
    intro headers
    rw [List.map_map, List.flatMap_map]
    refine congrArg (List.flatMap · headers) (funext fun header => ?_)
    change header.1.1 ++ [58, 32] ++ header.2.1 ++ [13, 10] = (header.1.1 ++ 58 :: 32 :: header.2.1) ++ [13, 10]
    rw [List.append_assoc header.1.1]
    rfl
  unfold headText headLines replyTo
  rw [user]
  simp only [List.map_cons, List.flatMap_cons, List.append_assoc, List.cons_append, List.nil_append]
  rfl

theorem statusOf_line {n : ℤ} (nonneg : 0 ≤ n) (reason : List UInt8) :
    statusOf (ascii "HTTP/1.1 " ++ decimal n ++ ascii " " ++ reason) = some n.toNat := by
  obtain ⟨digits, value⟩ := decimal_digits nonneg
  have nine : (ascii "HTTP/1.1 ").length = 9 := by decide
  have front : (ascii "HTTP/1.1 " ++ decimal n ++ ascii " " ++ reason) =
      ascii "HTTP/1.1 " ++ (decimal n ++ 32 :: reason) := by
    rw [List.append_assoc, List.append_assoc]
    rfl
  have word : (decimal n ++ 32 :: reason).takeWhile (· ≠ 32) = decimal n := by
    rw [List.takeWhile_append_of_pos]
    · rw [List.takeWhile_cons_of_neg (by decide), List.append_nil]
    · intro c hc
      have := (digits c hc).1
      simp only [ne_eq, decide_eq_true_eq]
      rintro rfl
      exact absurd this (by decide)
  unfold statusOf
  rw [front, ← nine, List.take_left, List.drop_left, if_pos rfl, word, value]

theorem readReply_reads (h : Sendable date keep response) : Reads readReply (replyTo date keep response)
    (headText response.status date keep response.headers response.contentLength ++ response.body.getD []) := by
  obtain ⟨⟨lo, hi⟩, length, clean, cleanDate, -⟩ := h
  obtain ⟨digits, value⟩ := @decimal_digits response.contentLength (by omega)
  have number_clean : ∀ n : ℤ, 0 ≤ n → (13 : UInt8) ∉ decimal n := by
    intro n nonneg mem
    exact absurd ((decimal_digits nonneg).1 13 mem).1 (by decide)
  have field_clean : ∀ header ∈ (replyTo date keep response).headers,
      (58 : UInt8) ∉ header.1 ∧ (13 : UInt8) ∉ header.1 ∧ (13 : UInt8) ∉ header.2 := by
    intro header mem
    have names : ∀ name ∈ ["Date", "Content-Length", "Connection"],
        (58 : UInt8) ∉ ascii name ∧ (13 : UInt8) ∉ ascii name := by
      decide
    rcases List.mem_append.1 mem with fixed | user
    · simp only [List.mem_cons, List.not_mem_nil, or_false] at fixed
      rcases fixed with rfl | rfl | rfl
      · exact ⟨(names "Date" (by simp)).1, (names "Date" (by simp)).2, cleanDate⟩
      · exact ⟨(names "Content-Length" (by simp)).1, (names "Content-Length" (by simp)).2, number_clean _ (by omega)⟩
      · refine ⟨(names "Connection" (by simp)).1, (names "Connection" (by simp)).2, ?_⟩
        cases keep <;> decide
    · obtain ⟨call, called, rfl⟩ := List.mem_map.1 user
      exact clean call called
  have line_clean : ∀ text ∈ headLines date keep response, (13 : UInt8) ∉ text ∧ text ≠ [] := by
    intro text mem
    rcases List.mem_cons.1 mem with rfl | mem
    · refine ⟨?_, by simp [ascii]⟩
      simp only [List.mem_append, not_or]
      exact ⟨⟨⟨by decide, number_clean _ (by omega)⟩, by decide⟩, statusText_clean _⟩
    · obtain ⟨header, listed, rfl⟩ := List.mem_map.1 mem
      obtain ⟨-, key, value⟩ := field_clean header listed
      exact ⟨by simp [key, value], by simp⟩
  have block : readLines [] [] (headText response.status date keep response.headers response.contentLength ++
      response.body.getD []) = some (headLines date keep response, response.body.getD []) := by
    rw [headText_lines, List.append_assoc]
    exact readLines_block (fun text mem => (line_clean text mem).1) fun text mem => (line_clean text mem).2
  have fields := splitField_map fun header mem => (field_clean header mem).1
  have found : (replyTo date keep response).headers.lookup (ascii "Content-Length") =
      some (decimal response.contentLength) := rfl
  refine ⟨by rw [headText_lines]; simp, ?_⟩
  unfold readReply
  rw [block, Option.bind_some]
  change withLines _ _ (response.body.getD []) = _
  unfold withLines
  rw [statusOf_line (by omega), Option.bind_some, fields, Option.bind_some, found, Option.bind_some, value,
    Option.bind_some, if_pos (by omega), List.take_of_length_le (by omega), List.drop_of_length_le (by omega)]
  rfl

/-- A response that is sendable is read back from what `http_respond` writes. -/
theorem respond_reads {blks : ℕ → NewBlock} {request request' : HttpRequestS} {memused memused' : ℤ}
    (plain : httpFlagCheck request.flags httpChunkedResponse = false)
    (sendable : Sendable date (keepsAlive request) response)
    (h : hsRequestRespond date blks request response memused = some (request', memused')) :
    Reads readReply (replyTo date (httpFlagCheck request'.flags httpKeepAlive) response) (sent request') := by
  obtain ⟨r, hr, flags⟩ := hsRequestRespond_flags h
  have keep : keepsAlive request = httpFlagCheck request'.flags httpKeepAlive := by
    unfold keepsAlive
    rw [hr, flags]
  obtain ⟨⟨lo, hi⟩, length, clean, cleanDate, room, total⟩ := sendable
  have same : response = built response.status response.headers.reverse response.body := by
    rw [built_eq lo hi, List.reverse_reverse, ← length]
  have headers : response.headers.reverse.reverse = response.headers := List.reverse_reverse _
  have exact := @exact_of_room date request r blks memused response.status response.headers.reverse response.body lo hi
    plain hr
  rw [headers, ← length, ← same] at exact
  unfold message at exact
  rw [headers, ← length, ← flags, ← keep] at exact
  obtain ⟨request'', memused'', again, text⟩ := exact room (by rw [List.length_append]; exact total)
  obtain ⟨rfl, -⟩ := Prod.mk.inj (Option.some.inj (again.symm.trans h))
  rw [text, ← keep]
  exact readReply_reads ⟨⟨lo, hi⟩, length, clean, cleanDate, room, total⟩

theorem badRequest_clean : (0 : UInt8) ∉ ascii "Bad Request" := by decide

theorem serviceUnavailable_clean : (0 : UInt8) ∉ ascii "Service Unavailable" := by decide

def errorResponse (code : ℤ) (text : CString) : HttpResponseS :=
  { headers := errorHeaders, body := some text.1, contentLength := text.1.length, status := code }

theorem errorResponse_sendable {code : ℤ} {text : CString} (lo : 100 ≤ code) (hi : code ≤ 599)
    (short : text.1.length < 32) (clean : (13 : UInt8) ∉ date.1) (small : date.1.length < 32) :
    Sendable date keep (errorResponse code text) := by
  have room : (headText code date keep errorHeaders text.1.length).length < 1024 := by
    have first := @statusLine_length code date (by omega) (by omega) small
    have second := @contentLengthLine_length (text.1.length : ℤ) (by omega) (by omega)
    have word : (headerLine (cstring "Connection" connection_clean,
        if keep then cstring "keep-alive" keepAlive_clean else cstring "close" close_clean)).length ≤ 30 := by
      cases keep <;> decide
    have rest : ((errorHeaders.map headerLine).flatten.length) = 26 := by decide
    rw [← headPieces_flatten]
    unfold headPieces
    simp only [List.flatten_append, List.flatten_cons, List.flatten_nil, List.length_append, rest, List.append_nil]
    have last : crlf.length = 2 := rfl
    omega
  have fields : ∀ header ∈ errorHeaders,
      (58 : UInt8) ∉ header.1.1 ∧ (13 : UInt8) ∉ header.1.1 ∧ (13 : UInt8) ∉ header.2.1 := by
    decide
  refine ⟨⟨lo, hi⟩, rfl, fields, clean, room, ?_⟩
  change (headText code date keep errorHeaders text.1.length).length + text.1.length ≤ 2147483647
  omega

theorem respondError_reads {blks : ℕ → NewBlock} {request request' : HttpRequestS} {memused memused' code : ℤ}
    {text : CString} (lo : 100 ≤ code) (hi : code ≤ 599) (short : text.1.length < 32) (clean : (13 : UInt8) ∉ date.1)
    (small : date.1.length < 32) (plain : httpFlagCheck request.flags httpChunkedResponse = false)
    (h : hsRequestRespondError date blks request code text memused = some (request', memused')) :
    Reads readReply (replyTo date (httpFlagCheck request'.flags httpKeepAlive) (errorResponse code text)) (sent request') := by
  have status : hsResponseSetStatus {} code = { status := code } := by
    unfold hsResponseSetStatus
    rw [if_neg (by omega)]
  have made : hsRequestRespond date blks request (errorResponse code text) memused = some (request', memused') := by
    unfold hsRequestRespondError at h
    rw [status] at h
    exact h
  exact respond_reads plain (errorResponse_sendable lo hi short clean small) made

end Made

section Talk

variable {cfg : Config} {c c' : Conn} {l : Label} {n : Wire}

/-- What a step starts to write: nothing, the response of a call, or the answer to a parse error. -/
theorem starts_cases (move : Move cfg c l c') : started (since c c') = none ∨
    (∃ call f env request memused, l = .call call ∧ responds call = some (f, env) ∧
      f c.request c.memused = some (request, memused) ∧ c'.request.flags = request.flags ∧
      started (since c c') = some (sent request)) ∨
    ∃ blk respond parser buffer request memused, l = .exec blk respond ∧
      hsRequestRespondError respond.date respond.blks { c.request with parser := parser, buffer := buffer } 400
        (cstring "Bad Request") c.memused = some (request, memused) ∧ c'.request.flags = request.flags ∧
      started (since c c') = some (sent request) := by
  have quiet : ∀ events : List Event, c'.events = c.events ++ events → started events = none →
      started (since c c') = none := by
    intro events happened none
    rw [since_append happened]
    exact none
  cases move with
  | wakeRead => exact .inl (quiet [] (List.append_nil _).symm rfl)
  | wakeWrite => exact .inl (quiet [] (List.append_nil _).symm rfl)
  | swallow => exact .inl (quiet [] (List.append_nil _).symm rfl)
  | tick => exact .inl (quiet [] (List.append_nil _).symm rfl)
  | expire => exact .inl (quiet [.terminate] rfl rfl)
  | readSkip => exact .inl (quiet [] (by simp [popped]) rfl)
  | @readEof env =>
    refine .inl (quiet [.read (env.readCalls.map ReadCall.result), .terminate] ?_ rfl)
    simp [hsRequestTerminateConnection, filled, popped]
  | @readMore env => exact .inl (quiet [.read (env.readCalls.map ReadCall.result)] (by simp [filled, popped]) rfl)
  | execNone => exact .inl (quiet [] (List.append_nil _).symm rfl)
  | @execErr blk respond stack token parser buffer request memused hstack hr type hresp =>
    refine .inr (.inr ⟨blk, respond, parser, buffer, request, memused, rfl, hresp, rfl, ?_⟩)
    rw [@since_append _ _ [.parseErr, .response request, .watch .epollout]
      (by simp [hsRequestBeginWrite, answered, parsed, popped])]
    rfl
  | execLine => exact .inl (quiet [.push _ _] rfl rfl)
  | execHead => exact .inl (quiet [.push _ _, .invoke _ _ _] (List.append_assoc _ _ _) rfl)
  | execSmall => exact .inl (quiet [.push _ _, .invoke _ _ _] (List.append_assoc _ _ _) rfl)
  | execFinal => exact .inl (quiet [.push _ _, .invoke _ _ _] (List.append_assoc _ _ _) rfl)
  | execPiece => exact .inl (quiet [.push _ _, .invoke _ _ _] (List.append_assoc _ _ _) rfl)
  | @writeMore call => exact .inl (quiet [.write call.bytes] rfl rfl)
  | @writeErr call =>
    refine .inl (quiet [.write call.bytes, .terminate] ?_ rfl)
    simp [hsRequestTerminateConnection, finished, written, popped]
  | @writeClose call =>
    refine .inl (quiet [.write call.bytes, .responded c.serial, .terminate] ?_ rfl)
    simp [hsRequestTerminateConnection, finished, written, popped]
  | @writeNext call =>
    refine .inl (quiet [.write call.bytes, .responded c.serial, .watch .epollin] ?_ rfl)
    simp [hsRequestBeginRead, finished, written, popped]
  | writeChunk => exact .inl (quiet [.write _, .invoke _ _ _] (List.append_assoc _ _ _) rfl)
  | @respond call f env request memused user live hcall hf =>
    refine .inr (.inl ⟨call, f, env, request, memused, rfl, hcall, hf, rfl, ?_⟩)
    rw [@since_append _ _ [.response request, .watch .epollout] (by simp [hsRequestBeginWrite, answered])]
    rfl
  | readChunk => exact .inl (quiet [.watch .epollin] rfl rfl)
  | freeBuffer => exact .inl (quiet [] (List.append_nil _).symm rfl)
  | connection => exact .inl (quiet [] (List.append_nil _).symm rfl)
  | callbackReturn => exact .inl (quiet [] (List.append_nil _).symm rfl)
  | finalChunk => exact .inl (quiet [.push _ _, .invoke _ _ _] (List.append_assoc _ _ _) rfl)

def Whole (c : Conn) : Prop := httpFlagCheck c.request.flags httpChunkedResponse = false

theorem Whole.step (h : Whole c) (whole : ∀ response env, l ≠ .call (.respondChunk response env) ∧
    l ≠ .call (.respondChunkEnd response env)) (move : Move cfg c l c') : Whole c' := by
  have streamed : ∀ flags : BitVec 8, httpFlagCheck (httpFlagSet flags httpFlgStreamed) httpChunkedResponse =
      httpFlagCheck flags httpChunkedResponse := by decide
  have entered_flags : ∀ env d, (entered cfg env d).request.flags = d.request.flags := by
    intro env d
    unfold entered initBuffer
    split <;> rfl
  have answers : ∀ {date blks request response memused request' memused'}, request.flags = c.request.flags →
      hsRequestRespond date blks request response memused = some (request', memused') →
      httpFlagCheck request'.flags httpChunkedResponse = false := by
    intro date blks request response memused request' memused' same hresp
    obtain ⟨r, hr, flags⟩ := hsRequestRespond_flags hresp
    obtain ⟨bits, rfl, chunked⟩ := detected_flags hr
    rw [flags]
    exact chunked.trans (same ▸ h)
  cases move with
  | @readSkip env stack =>
    exact (congrArg (httpFlagCheck · httpChunkedResponse) (entered_flags env (popped stack c))).trans h
  | @readEof env stack =>
    exact (congrArg (httpFlagCheck · httpChunkedResponse) (entered_flags env (popped stack c))).trans h
  | @readMore env stack =>
    exact (congrArg (httpFlagCheck · httpChunkedResponse) (entered_flags env (popped stack c))).trans h
  | @execErr _ _ _ _ parser buffer _ _ _ _ _ hresp =>
    have same : (parsed parser buffer (popped [] c)).request.flags = c.request.flags := rfl
    have plain := answers same hresp
    exact plain
  | execHead => exact (streamed _).trans h
  | @respond call f env request memused _ _ hcall hf =>
    cases call with
    | respond response env =>
      cases hcall
      have plain := answers rfl hf
      exact plain
    | respondChunk response env => exact absurd rfl (whole response env).1
    | respondChunkEnd response env => exact absurd rfl (whole response env).2
    | _ => cases hcall
  | @connection directive =>
    have bits : ∀ flags : BitVec 8,
        httpFlagCheck (httpFlagSet (httpFlagClear flags httpAutomatic) httpKeepAlive) httpChunkedResponse =
          httpFlagCheck flags httpChunkedResponse ∧
        httpFlagCheck (httpFlagClear (httpFlagClear flags httpAutomatic) httpKeepAlive) httpChunkedResponse =
          httpFlagCheck flags httpChunkedResponse := by
      decide
    change httpFlagCheck (hsRequestSetKeepAliveFlag c.request directive).flags httpChunkedResponse = false
    unfold hsRequestSetKeepAliveFlag
    split
    · exact (bits _).1.trans h
    · split
      · exact (bits _).2.trans h
      · exact h
  | _ => exact h

theorem keyA_clean : (0 : UInt8) ∉ ascii "A" := by decide

theorem valueB_clean : (0 : UInt8) ∉ ascii "b" := by decide

/-- A connection with the responses that were started on it so far. -/
structure Talk where
  wire : Wire
  made : List Reply := []

/-- The response that a step makes. -/
def makes (l : Label) (c c' : Conn) : List Reply :=
  if (started (since c c')).isSome then
    match l with
    | .call (.respond response env) => [replyTo env.date (httpFlagCheck c'.request.flags httpKeepAlive) response]
    | .exec _ respond => [replyTo respond.date (httpFlagCheck c'.request.flags httpKeepAlive)
        (errorResponse 400 (cstring "Bad Request" badRequest_clean))]
    | _ => []
  else []

def Talk.step (cfg : Config) (t : Talk) (l : Label) : Option Talk :=
  (Connection.step cfg t.wire.conn l).map fun c =>
    { wire := t.wire.after c l, made := t.made ++ makes l t.wire.conn c }

/-- A date that the server sets: one line of fewer than 32 bytes. -/
def DateOk (date : CString) : Prop := (13 : UInt8) ∉ date.1 ∧ date.1.length < 32

/-- An accepted connection, which the server may have refused. -/
def TalkOpened (t : Talk) : Prop :=
  t.wire.accepted = [] ∧ t.wire.complete = [] ∧ t.wire.current = started t.wire.conn.events ∧
    ∃ respond memused, DateOk respond.date ∧ hsAcceptAndBeginRequestCycle respond memused = some t.wire.conn ∧
      t.made = if memused > httpMaxTotalEstMemUsage then [replyTo respond.date
        (httpFlagCheck t.wire.conn.request.flags httpKeepAlive)
        (errorResponse 503 (cstring "Service Unavailable" serviceUnavailable_clean))] else []

/-- One whole response at a time, which is sendable. -/
def Sends (t : Talk) (l : Label) : Prop :=
  OneAtATime t.wire l ∧
    match l with
    | .call (.respond response env) => Sendable env.date (keepsAlive t.wire.conn.request) response
    | .call (.respondChunk _ _) | .call (.respondChunkEnd _ _) => False
    | .exec _ respond => DateOk respond.date
    | _ => True

/-- The responses on the wire are the ones that were made. -/
structure Told (t : Talk) : Prop where
  steady : Steady t.wire.conn
  order : InOrder t.wire
  whole : Whole t.wire.conn
  texts : List.Forall₂ (Reads readReply) t.made (t.wire.complete ++ t.wire.current.toList)

theorem after_conn (n : Wire) (c : Conn) (l : Label) : (n.after c l).conn = c := by
  unfold Wire.after
  split
  · split <;> rfl
  · rfl

theorem started_free {text : List UInt8} (steady : Steady n.conn) (order : InOrder n) (ok : OneAtATime n l)
    (move : Move cfg n.conn l c) (start : started (since n.conn c) = some text) : n.current = none := by
  rcases starts_cases move with quiet | ⟨call, f, env, request, memused, rfl, hcall, -⟩ |
    ⟨blk, respond, parser, buffer, request, memused, rfl, -⟩
  · rw [quiet] at start
    cases start
  · cases call <;> first | exact ok | cases hcall
  · have parsing : ∃ stack, n.conn.stack = .parseBuffer :: stack := by
      cases move <;> exact ⟨_, by assumption⟩
    obtain ⟨stack, hstack⟩ := parsing
    exact order.reading (steady.library hstack rfl).live (steady.reading hstack (.inr rfl)).1

/-- A step adds the response that it starts, and a write moves the current one to the complete ones. -/
theorem after_texts (steady : Steady n.conn) (order : InOrder n) (ok : OneAtATime n l) (move : Move cfg n.conn l c) :
    (n.after c l).complete ++ (n.after c l).current.toList =
      n.complete ++ n.current.toList ++ (started (since n.conn c)).toList := by
  have quiet : (∃ call, l = .write call) → started (since n.conn c) = none := by
    rintro ⟨call, rfl⟩
    rcases starts_cases move with none | ⟨_, _, _, _, _, other, -⟩ | ⟨_, _, _, _, _, _, other, -⟩
    · exact none
    · cases other
    · cases other
  have others : (n.after c l).complete = n.complete →
      (n.after c l).current = (started (since n.conn c)).or n.current →
      (n.after c l).complete ++ (n.after c l).current.toList =
        n.complete ++ n.current.toList ++ (started (since n.conn c)).toList := by
    intro complete current
    rw [complete, current]
    cases start : started (since n.conn c) with
    | none => simp
    | some text => simp [started_free steady order ok move start]
  cases l with
  | write call =>
    have writing : ∃ stack, n.conn.stack = .writeSocket :: stack := by
      cases move <;> exact ⟨_, by assumption⟩
    obtain ⟨stack, hstack⟩ := writing
    have text := (order.writing (steady.library hstack rfl).live (steady.writing hstack).1).1
    rw [quiet ⟨call, rfl⟩, text]
    unfold Wire.after
    dsimp only
    split
    · simp [text]
    · simp [text]
  | _ => exact others rfl rfl

theorem makes_reads {t : Talk} (whole : Whole t.wire.conn) (sends : Sends t l) (move : Move cfg t.wire.conn l c) :
    List.Forall₂ (Reads readReply) (makes l t.wire.conn c) (started (since t.wire.conn c)).toList := by
  rcases starts_cases move with quiet | ⟨call, f, env, request, memused, rfl, hcall, hf, flags, start⟩ |
    ⟨blk, respond, parser, buffer, request, memused, rfl, hresp, flags, start⟩
  · unfold makes
    rw [quiet]
    exact .nil
  · unfold makes
    rw [start, flags]
    cases call with
    | respond response env =>
      cases hcall
      exact .cons (respond_reads whole sends.2 hf) .nil
    | respondChunk response env => exact absurd sends.2 id
    | respondChunkEnd response env => exact absurd sends.2 id
    | _ => cases hcall
  · unfold makes
    rw [start, flags]
    have plain : httpFlagCheck ({ t.wire.conn.request with parser := parser, buffer := buffer } : HttpRequestS).flags
        httpChunkedResponse = false := whole
    obtain ⟨clean, short⟩ := sends.2
    exact .cons (respondError_reads (by decide) (by decide) (by decide) clean short plain hresp) .nil

theorem Told.step {t t' : Talk} (told : Told t) (sends : Sends t l) (hs : t.step cfg l = some t') : Told t' := by
  obtain ⟨c, hc, rfl⟩ := Option.map_eq_some_iff.1 hs
  have move := step_move hc
  have whole : ∀ response env, l ≠ .call (.respondChunk response env) ∧ l ≠ .call (.respondChunkEnd response env) := by
    intro response env
    constructor
    · rintro rfl
      exact sends.2
    · rintro rfl
      exact sends.2
  refine ⟨?_, told.order.step told.steady sends.1 hc, ?_, ?_⟩
  · rw [after_conn]
    exact told.steady.step move
  · rw [after_conn]
    exact told.whole.step whole move
  · rw [after_texts told.steady told.order sends.1 move]
    exact List.rel_append told.texts (makes_reads told.whole sends move)

theorem told_opened {t : Talk} (h : TalkOpened t) : Told t := by
  obtain ⟨nothing, none, current, respond, memused, ⟨clean, short⟩, start, made⟩ := h
  have accepted : Accepted t.wire.conn := ⟨respond, memused, start⟩
  have opened : Opened t.wire := ⟨accepted, nothing, none, current⟩
  have plain : httpFlagCheck (hsRequestInit memused).request.flags httpChunkedResponse = false := by
    change httpFlagCheck httpAutomatic httpChunkedResponse = false
    decide
  unfold hsAcceptAndBeginRequestCycle at start
  dsimp only at start
  split at start
  · rename_i much
    obtain ⟨r, hr, conn⟩ := Option.map_eq_some_iff.1 start
    have reads := respondError_reads (by decide) (by decide) (by decide) clean short plain hr
    have text : t.wire.current = some (sent r.1) := by
      rw [current, ← conn]
      rfl
    have flags : t.wire.conn.request.flags = r.1.flags := by
      rw [← conn]
      rfl
    refine ⟨steady_accepted accepted, inOrder_opened opened, ?_, ?_⟩
    · obtain ⟨r', hr', same⟩ := hsRequestRespond_flags hr
      obtain ⟨bits, rfl, chunked⟩ := detected_flags hr'
      unfold Whole
      rw [flags, same]
      exact chunked.trans plain
    · rw [made, if_pos much, none, text, flags]
      exact .cons reads .nil
  · rename_i little
    have conn := Option.some.inj start
    have idle : t.wire.current = Option.none := by
      rw [current, ← conn]
      rfl
    refine ⟨steady_accepted accepted, inOrder_opened opened, ?_, ?_⟩
    · rw [← conn]
      exact plain
    · rw [made, if_neg little, none, idle]
      exact .nil

/-- In every run with one whole response at a time, a client that reads the bytes which the socket has accepted finds
    the responses that were made, in their order and with their status, headers and body: those that were reported as
    written, nothing that was not made, and all of them when none is in progress. -/
theorem replies_read {t : Talk} (run : Runs.Reached (Talk.step cfg) TalkOpened Sends t) :
    (readAll readReply t.wire.accepted).1 <+: t.made ∧
      t.wire.complete.length ≤ (readAll readReply t.wire.accepted).1.length ∧
      (t.wire.current = none → readAll readReply t.wire.accepted = (t.made, [])) := by
  have told : Told t := run.invariant (fun _ => told_opened) fun _ _ _ told sends hs => told.step sends hs
  have accepted := told.order.accepted_eq
  have texts := told.texts
  have ext := readReply_extends
  cases current : t.wire.current with
  | none =>
    rw [current] at accepted texts
    rw [Option.toList_none, List.append_nil] at texts
    have all := readAll_messages ext texts (show readReply [] = none from rfl)
    have same : t.wire.accepted = t.wire.complete.flatten ++ [] := by simpa using accepted
    rw [same, all]
    exact ⟨List.prefix_refl _, texts.length_eq.ge, fun _ => rfl⟩
  | some text =>
    rw [current] at accepted texts
    rw [Option.toList_some] at texts
    rw [Option.getD_some] at accepted
    have front := List.forall₂_take_append _ _ _ texts
    have back := List.forall₂_drop_append _ _ _ texts
    by_cases whole : text.take t.wire.conn.request.bytesWritten.toNat = text
    · -- all of it was written, but the write was taken for an error
      have all := readAll_messages ext texts (show readReply [] = none from rfl)
      have same : t.wire.accepted = (t.wire.complete ++ [text]).flatten ++ [] := by simpa [whole] using accepted
      have length := texts.length_eq
      rw [List.length_append] at length
      rw [same, all]
      exact ⟨List.prefix_refl _, by dsimp only; omega, nofun⟩
    · have early : readReply (text.take t.wire.conn.request.bytesWritten.toNat) = none := by
        obtain ⟨reply, more, reads, -⟩ := List.forall₂_cons_right_iff.1 back
        exact reads.cut ext (List.take_prefix _ _) whole
      have all := readAll_messages ext front early
      rw [accepted, all]
      exact ⟨List.take_prefix _ _, front.length_eq.ge, nofun⟩

instance (t : Talk) (l : Label) : Decidable (Sends t l) := by
  unfold Sends DateOk
  exact @instDecidableAnd _ _ inferInstance (by
    cases l with
    | call call => cases call <;> infer_instance
    | _ => infer_instance)

/-- A request is answered with a header and a body, in two writes. -/
theorem replies_read_get : ∃ t, Runs.Reached (Talk.step {}) TalkOpened Sends t ∧ t.wire.accepted.length = 106 ∧
    readAll readReply t.wire.accepted = (t.made, []) := by
  have run : ((Runs.exec (Runs.guarded (Talk.step {}) Sends) (handled ++
      [.call (.respond (built 200 [(cstring "A" keyA_clean, cstring "b" valueB_clean)] (some (ascii "hi"))) sessionEnv),
        .write ⟨10, false⟩, .socketEvent, .write ⟨96, false⟩]) { wire := { conn := accepted } }).any fun t =>
          decide (t.wire.accepted.length = 106 ∧ t.wire.current = none)) = true := by
    decide +kernel
  obtain ⟨t, ht, hs⟩ := (Option.any_eq_true _ _).1 run
  obtain ⟨length, idle⟩ := of_decide_eq_true hs
  have opened : TalkOpened { wire := { conn := accepted } } :=
    ⟨rfl, rfl, rfl, sessionEnv, 0, ⟨by decide, by decide⟩, rfl, rfl⟩
  have reached : Runs.Reached (Talk.step {}) TalkOpened Sends t := .guarded (.init opened) ht
  exact ⟨t, reached, length, (replies_read reached).2.2 idle⟩

end Talk

end HttpServer.ReadableResponses
