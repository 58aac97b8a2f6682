import HttpServer.ChunkedBodies
import HttpServer.ChunkedResponse

set_option autoImplicit false

/-!
# Chunks that the server writes, read by its own parser

`http_respond_chunk` writes a short chunk in the coding that the parser reads, so that the callbacks of a server
are given what the chunks of another one hold.
-/
namespace HttpServer.EncodedChunks
open HttpServer.Parser HeadTexts RequestUtil Respond PrintedText ChunkedResponse Connection
  ConnectionSteps AnsweredRequests HeldRequests ArrivedRequests SizeLines GivenPieces ChunkedBodies

section Sizes

variable {d n : ℕ} {ds : List ℕ}

theorem digitChar_hex (lt : d < 16) : isHex (digitChar d) = true ∧ digitValue (digitChar d) = d := by
  interval_cases d <;> decide

theorem hexValue_digits (small : ∀ d ∈ ds, d < 16) :
    hexValue (ds.map digitChar).reverse = (Nat.ofDigits 16 ds : ℕ) := by
  induction ds with
  | nil => rfl
  | cons d ds ih =>
    rw [List.map_cons, List.reverse_cons, hexValue_append, ih fun d mem => small d (List.mem_cons_of_mem _ mem),
      (digitChar_hex (small d List.mem_cons_self)).2]
    change _ = ((d + 16 * Nat.ofDigits 16 ds : ℕ) : ℤ)
    omega

theorem hex_size (pos : 0 < n) (lt : n < 2147483648) :
    hex n = ((Nat.digits 16 n).map digitChar).reverse ∧ (∀ d ∈ Nat.digits 16 n, d < 16) := by
  have same : ((n : ℤ) % 4294967296).toNat = n := by omega
  refine ⟨?_, fun d mem => Nat.digits_lt_base (by norm_num) mem⟩
  unfold hex digits
  rw [same, if_neg pos.ne']

theorem hex_head (pos : 0 < n) (lt : n < 2147483648) : (hex n).head?.any fun c => c ≠ 48 := by
  obtain ⟨size, small⟩ := hex_size pos lt
  have some_digit : Nat.digits 16 n ≠ [] := Nat.digits_ne_nil_iff_ne_zero.2 pos.ne'
  have last := Nat.getLast_digit_ne_zero 16 pos.ne'
  rw [size, List.head?_reverse, List.getLast?_map, List.getLast?_eq_some_getLast some_digit]
  have lt := small _ (List.getLast_mem some_digit)
  generalize (Nat.digits 16 n).getLast some_digit = d at last lt
  interval_cases d <;> first | exact absurd rfl last | decide

end Sizes

section Texts

/-- A body that is written as one chunk in the first block of the print buffer. -/
structure ShortBody where
  data : List UInt8
  some_byte : data ≠ []
  short : (hex data.length).length + data.length + 4 < 1024

theorem ShortBody.pos (body : ShortBody) : 0 < body.data.length := List.length_pos_of_ne_nil body.some_byte

theorem ShortBody.lt (body : ShortBody) : body.data.length < 2147483648 := by
  have short := body.short
  omega

theorem ShortBody.hex (body : ShortBody) : ∀ c ∈ Respond.hex body.data.length, isHex c = true := by
  obtain ⟨size, small⟩ := hex_size body.pos body.lt
  intro c mem
  rw [size, List.mem_reverse] at mem
  obtain ⟨d, hd, rfl⟩ := List.mem_map.1 mem
  exact (digitChar_hex (small d hd)).1

theorem ShortBody.value (body : ShortBody) : hexValue (Respond.hex body.data.length) = body.data.length := by
  obtain ⟨size, small⟩ := hex_size body.pos body.lt
  rw [size, hexValue_digits small, Nat.ofDigits_digits]

def ShortBody.chunk (body : ShortBody) : Chunk where
  size := Respond.hex body.data.length
  data := body.data
  hex := body.hex
  nonzero := hex_head body.pos body.lt
  value := body.value
  small := body.lt

/-- The response that `hs_response_set_body` makes of a body. -/
def ShortBody.response (body : ShortBody) : HttpResponseS := hsResponseSetBody {} body.data body.data.length

variable {date : CString} {request : HttpRequestS} {memused : ℤ} {bodies : List ShortBody} {s : Printing}
  {text : List UInt8}

theorem printf_fits (ok : Ranged s) (nonneg : 0 ≤ s.ctx.size) (some_text : text ≠ [])
    (room : s.ctx.size + text.length < s.ctx.capacity) : ∃ t, s.printf text = some t ∧ Ranged t ∧
      t.ctx.capacity = s.ctx.capacity ∧ t.ctx.size = s.ctx.size + text.length ∧ content t = content s ++ text := by
  obtain ⟨t, ht, ranged, capacity, size, same⟩ := @prints_room s [text] ok nonneg (by simpa using some_text) (by simpa using room)
  rw [prints_cons] at ht
  obtain ⟨u, hu, ht⟩ := Option.bind_eq_some_iff.1 ht
  cases ht
  rw [List.flatten_singleton] at size same
  exact ⟨_, hu, ranged, capacity, size, same⟩

theorem written_performed (request : HttpRequestS) (inside : 0 ≤ s.ctx.size ∧ s.ctx.size ≤ s.ctx.capacity) :
    ChunkedResponse.written (httpPerformResponse request s).1 = some (content s) := if_pos inside

theorem hsRequestRespondChunk_text (body : ShortBody) (blks : ℕ → NewBlock)
    (flag : httpFlagCheck request.flags httpChunkedResponse = true) : ∃ request' memused',
    hsRequestRespondChunk date blks request body.response memused = some (request', memused') ∧
      ChunkedResponse.written request' = some body.chunk.text ∧ httpFlagCheck request'.flags httpChunkedResponse = true := by
  have short := body.short
  have init_size : (Printing.init blks memused).ctx.size = 0 := rfl
  have init_capacity : (Printing.init blks memused).ctx.capacity = 1024 := rfl
  have line_length : (Respond.hex body.data.length ++ crlf).length = (Respond.hex body.data.length).length + 2 := by
    rw [List.length_append]
    rfl
  obtain ⟨s, hs, s_ok, s_capacity, s_size, s_content⟩ := @printf_fits (Printing.init blks memused)
    (Respond.hex body.data.length ++ crlf) (Printing.init_ranged blks memused) (by rw [init_size])
    (List.append_ne_nil_of_right_ne_nil _ (List.cons_ne_nil _ _)) (by rw [init_size, init_capacity, line_length]; omega)
  rw [init_size, line_length] at s_size
  obtain ⟨t, ht⟩ := @Printing.memcpy_room s body.data body.data.length s_ok (by omega) (by omega) le_rfl (by omega)
  obtain ⟨-, -, -, t_size, t_capacity, t_content, t_ok⟩ := Printing.memcpy_outcome s_ok ht
  have t_content := t_content (by omega)
  obtain ⟨u, hu, -, u_capacity, u_size, u_content⟩ := @printf_fits t crlf t_ok (by omega) (List.cons_ne_nil _ _) (by
    change t.ctx.size + 2 < t.ctx.capacity
    omega)
  change u.ctx.size = t.ctx.size + 2 at u_size
  have call : hsRequestRespondChunk date blks request body.response memused =
      some (httpPerformResponse { request with chunkCb := true } u) := by
    unfold hsRequestRespondChunk
    dsimp only
    rw [if_pos flag, Option.bind_some]
    change ((Printing.init blks memused).printf (Respond.hex body.data.length ++ crlf)).bind _ = _
    rw [hs, Option.bind_some]
    change (s.memcpy body.data body.data.length).bind _ = _
    rw [ht, Option.bind_some, hu]
    rfl
  refine ⟨(httpPerformResponse { request with chunkCb := true } u).1, _, call, ?_, flag⟩
  rw [written_performed _ (by omega), u_content, t_content, s_content, Int.toNat_natCast, List.take_length]
  simp [content, init_size, Chunk.text, ShortBody.chunk, crlf, HttpServer.slice]

theorem respondChunks_text (blks : ℕ → ℕ → NewBlock) (flag : httpFlagCheck request.flags httpChunkedResponse = true) :
    ∃ request' memused', respondChunks date blks (bodies.map ShortBody.response) request memused =
      some (request', memused', (bodies.map ShortBody.chunk).flatMap Chunk.text) := by
  induction bodies generalizing blks request memused with
  | nil => exact ⟨request, memused, rfl⟩
  | cons body bodies ih =>
    obtain ⟨request₁, memused₁, call, text, flag₁⟩ := @hsRequestRespondChunk_text date request memused body (blks 0) flag
    obtain ⟨request', memused', rest⟩ := @ih { request₁ with buffer := (hsBufferFree request₁.buffer memused₁).1 }
      (hsBufferFree request₁.buffer memused₁).2 (fun n => blks (n + 1)) flag₁
    refine ⟨request', memused', ?_⟩
    rw [List.map_cons, respondChunks, call, Option.bind_some]
    dsimp only
    rw [text, Option.bind_some, rest]
    rfl

theorem respondAll_text (blks : ℕ → ℕ → NewBlock) (flag : httpFlagCheck request.flags httpChunkedResponse = true) :
    respondAll date blks request (bodies.map ShortBody.response) {} memused =
      some (encode (bodies.map ShortBody.chunk) ++ [13, 10, 13, 10]) := by
  obtain ⟨request', memused', chunks⟩ := @respondChunks_text date request memused bodies (fun n => blks (n + 1)) flag
  obtain ⟨s, hs, -, s_capacity, s_size, s_content⟩ := @prints_room (Printing.init (blks 0) memused')
    [ascii "0\r\n", crlf, crlf] (Printing.init_ranged _ _) le_rfl (by decide) (by
      change (0 : ℤ) + 7 < 1024
      norm_num)
  have inside : 0 ≤ s.ctx.size ∧ s.ctx.size ≤ s.ctx.capacity := by
    rw [s_size, s_capacity]
    change (0 : ℤ) ≤ 0 + 7 ∧ (0 : ℤ) + 7 ≤ 1024
    norm_num
  have ended : hsRequestRespondChunkEnd (blks 0) request' {} memused' =
      some (httpPerformResponse { request' with flags := httpFlagClear request'.flags httpChunkedResponse } s) := by
    rw [hsRequestRespondChunkEnd_eq]
    change Option.map _ (((prints [ascii "0\r\n"] _).bind fun s => s.printf crlf).bind fun s => s.printf crlf) = _
    have lines : ∀ t : Printing, (t.printf crlf).bind (fun t => t.printf crlf) = prints [crlf, crlf] t := by
      intro t
      rw [prints_cons]
      refine congrArg _ (funext fun u => ?_)
      change u.printf crlf = (u.printf crlf).bind some
      cases u.printf crlf <;> rfl
    rw [Option.bind_assoc, funext lines, ← prints_append]
    exact congrArg _ hs
  unfold respondAll
  rw [chunks, Option.bind_some, ended, Option.bind_some, written_performed _ inside, s_content]
  refine congrArg some ?_
  change _ ++ [48, 13, 10, 13, 10, 13, 10] = _
  unfold encode
  rw [List.append_assoc]
  rfl

end Texts

section Runs

variable {date : CString} {request : HttpRequestS} {blks : ℕ → ℕ → NewBlock} {memused : ℤ} {bodies : List ShortBody}

/-- What `http_respond_chunk` writes of some bodies, and `http_respond_chunk_end`, is all of the coding; and a server
    that reads it behind a head hands over these bodies in order. -/
theorem encoded_given (date : CString) (blks : ℕ → ℕ → NewBlock) (memused : ℤ) (bodies : List ShortBody)
    (flag : httpFlagCheck request.flags httpChunkedResponse = true) :
    ∃ bytes, respondAll date blks request (bodies.map ShortBody.response) {} memused = some bytes ∧
      ∀ (cfg : Config) (c : Conn) (w : List UInt8),
        Runs.Reached (Connection.step cfg) Accepted (Keeping (ChunksFit cfg.httpMaxRequestBufSize)) c →
        AcceptedHead w → HasChunks w → arriving c.events ≠ [] → arriving c.events <+: w ++ bytes →
        given c.events <+: bodies.map ShortBody.data ++ [[]] := by
  refine ⟨_, respondAll_text blks flag, fun cfg c w run accepted chunked some_byte start => ?_⟩
  have same : contents (bodies.map ShortBody.chunk) = bodies.map ShortBody.data ++ [[]] := by
    unfold contents
    rw [List.map_map]
    rfl
  rw [← same]
  exact chunks_given run accepted chunked start some_byte

theorem abc_short : ascii "abc" ≠ [] ∧ (hex (ascii "abc").length).length + (ascii "abc").length + 4 < 1024 := by decide +kernel

theorem defg_short : ascii "defg" ≠ [] ∧ (hex (ascii "defg").length).length + (ascii "defg").length + 4 < 1024 := by
  decide +kernel

def letterBodies : List ShortBody := [⟨ascii "abc", abc_short.1, abc_short.2⟩, ⟨ascii "defg", defg_short.1, defg_short.2⟩]

/-- Two bodies, which a client sends on as they were written, in two pieces. -/
theorem encoded_given_letters : ∃ bytes, respondAll (cstring "Sat") (fun _ _ => ⟨4096, fun _ => 0⟩)
      { flags := httpFlagSet 0 httpChunkedResponse } (letterBodies.map ShortBody.response) {} 0 = some bytes ∧
    ∃ c, Runs.Reached (Connection.step {}) Accepted (Keeping (ChunksFit ({} : Config).httpMaxRequestBufSize)) c ∧
      given c.events = [ascii "abc", ascii "defg", []] ∧ given c.events <+: letterBodies.map ShortBody.data ++ [[]] := by
  obtain ⟨bytes, all, handed_over⟩ := @encoded_given { flags := httpFlagSet 0 httpChunkedResponse } (cstring "Sat")
    (fun _ _ => ⟨4096, fun _ => 0⟩) 0 letterBodies (by decide)
  have run : ((Runs.exec (Runs.guarded (Connection.step {}) (Keeping (ChunksFit ({} : Config).httpMaxRequestBufSize)))
      (firstRead ++ secondRead) accepted).any fun c =>
        decide (given c.events = [ascii "abc", ascii "defg", []] ∧ arriving c.events ≠ [] ∧
          (respondAll (cstring "Sat") (fun _ _ => ⟨4096, fun _ => 0⟩) { flags := httpFlagSet 0 httpChunkedResponse }
            (letterBodies.map ShortBody.response) {} 0).any fun bytes =>
              decide (arriving c.events <+: SizeLines.chunkedHead ++ bytes))) = true := by
    decide +kernel
  rw [all] at run
  obtain ⟨c, hc, hs⟩ := (Option.any_eq_true _ _).1 run
  obtain ⟨shown, some_byte, start⟩ := of_decide_eq_true hs
  obtain ⟨head, chunked⟩ := chunkedHead_accepted
  have reached : Runs.Reached (Connection.step {}) Accepted (Keeping (ChunksFit ({} : Config).httpMaxRequestBufSize)) c :=
    .guarded (.init accepted_accepted) hc
  exact ⟨bytes, all, c, reached, shown, handed_over {} c _ reached head chunked some_byte (of_decide_eq_true start)⟩

end Runs

end HttpServer.EncodedChunks
