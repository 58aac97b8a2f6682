import HttpServer.ResponseFronts
import HttpServer.WrittenResponses

set_option autoImplicit false

/-!
# Connections beyond the memory limit

When the server holds too much memory a new connection is answered with 503 and closed. It is never read
from, and no user code sees it.
-/
namespace HttpServer.RefusedConnections
open RequestUtil Respond ResponseText ResponseFronts Connection ConnectionSteps ConnectionInvariant HeldRequests
  WrittenResponses

section Errors

variable {date : CString} {blks : ℕ → NewBlock} {request request' : HttpRequestS} {code memused : ℤ} {text : CString}

theorem contentType_clean : (0 : UInt8) ∉ ascii "Content-Type" := by decide

theorem textPlain_clean : (0 : UInt8) ∉ ascii "text/plain" := by decide

/-- The headers that `hs_request_respond_error` sets. -/
def errorHeaders : List (CString × CString) :=
  [(cstring "Content-Type" contentType_clean, cstring "text/plain" textPlain_clean)]

theorem hsRequestRespondError_exact (lo : 100 ≤ code) (hi : code ≤ 599)
    (plain : httpFlagCheck request.flags httpChunkedResponse = false) (h : detected request = some request')
    (room : (headText code date (httpFlagCheck request'.flags httpKeepAlive) errorHeaders text.1.length).length < 1024)
    (total : (message code date (httpFlagCheck request'.flags httpKeepAlive) errorHeaders text.1).length ≤ 2147483647) :
    Exact (hsRequestRespondError date blks request code text memused)
      (message code date (httpFlagCheck request'.flags httpKeepAlive) errorHeaders text.1) :=
  @exact_of_room date request request' blks memused code errorHeaders (some text.1) lo hi plain h room total

end Errors

/-- The answer to a connection that is refused. -/
def refusal (date : CString) : List UInt8 :=
  ascii "HTTP/1.1 503 Service Unavailable\r\nDate: " ++ date.1 ++
    ascii "\r\nContent-Length: 19\r\nConnection: close\r\nContent-Type: text/plain\r\n\r\nService Unavailable"

section Refused

variable {date : CString}

theorem headText_refusal (date : CString) : headText 503 date false errorHeaders 19 =
    ascii "HTTP/1.1 503 Service Unavailable\r\nDate: " ++ date.1 ++
      ascii "\r\nContent-Length: 19\r\nConnection: close\r\nContent-Type: text/plain\r\n\r\n" := by
  have front : ascii "HTTP/1.1 " ++ decimal 503 ++ ascii " " ++ ascii (hsStatusText (503 : ℤ).toNat) ++
      crlf ++ ascii "Date: " = ascii "HTTP/1.1 503 Service Unavailable\r\nDate: " := by
    decide +kernel
  have back : crlf ++ (ascii "Content-Length: " ++ (decimal 19 ++ (crlf ++
      (ascii "Connection: " ++ (ascii "close" ++ (crlf ++
        (errorHeaders.flatMap (fun header => header.1.1 ++ ascii ": " ++ header.2.1 ++ crlf) ++
          crlf))))))) =
      ascii "\r\nContent-Length: 19\r\nConnection: close\r\nContent-Type: text/plain\r\n\r\n" := by
    decide +kernel
  unfold headText
  rw [front, ← back]
  simp only [List.append_assoc]
  rfl

theorem message_refusal (date : CString) : message 503 date false errorHeaders (ascii "Service Unavailable") = refusal date := by
  unfold message refusal
  rw [show errorHeaders.reverse = errorHeaders from rfl, show ((ascii "Service Unavailable").length : ℤ) = 19 by decide,
    headText_refusal, List.append_assoc, List.append_assoc, List.append_assoc]
  rfl

/-- A connection that was accepted beyond the limit, with this date. -/
def Refused (date : CString) (n : Wire) : Prop :=
  Opened n ∧ ∃ blocks memused, httpMaxTotalEstMemUsage < memused ∧
    hsAcceptAndBeginRequestCycle ⟨date, blocks⟩ memused = some n.conn

/-- The events of a refused connection: nothing is read, and no user code is called. -/
def isRefusal : Event → Bool
  | .watch _ | .response _ | .write _ | .responded _ | .terminate => true
  | _ => false

/-- A connection that is being refused. -/
inductive Refusing (date : CString) (n : Wire) : Prop
  | writing (live : n.conn.live = true) (hstack : n.conn.stack = [] ∨ n.conn.stack = [.writeSocket])
      (state : n.conn.request.state = .write)
      (whole : httpFlagCheck n.conn.request.flags httpChunkedResponse = false)
      (close : httpFlagCheck n.conn.request.flags httpKeepAlive = false)
      (text : n.current = some (refusal date)) (none : n.complete = [])
      (left : n.conn.request.bytesWritten < n.conn.request.buffer.length)
  | closed (live : n.conn.live = false) (hstack : n.conn.stack = [])
      (sent : n.complete = [] ∧ n.current = some (refusal date) ∨ n.complete = [refusal date] ∧ n.current = none)

theorem room_refusal (short : date.1.length < 32) : (headText 503 date false errorHeaders 19).length < 1024 := by
  have sizes : (ascii "HTTP/1.1 503 Service Unavailable\r\nDate: ").length = 40 ∧
      (ascii "\r\nContent-Length: 19\r\nConnection: close\r\nContent-Type: text/plain\r\n\r\n").length = 69 := by
    decide +kernel
  rw [headText_refusal, List.length_append, List.length_append, sizes.1, sizes.2]
  omega

theorem refusal_length (date : CString) : (refusal date).length = 128 + date.1.length := by
  have sizes : (ascii "HTTP/1.1 503 Service Unavailable\r\nDate: ").length = 40 ∧ (ascii
      "\r\nContent-Length: 19\r\nConnection: close\r\nContent-Type: text/plain\r\n\r\nService Unavailable").length = 88 := by
    decide +kernel
  rw [refusal, List.length_append, List.length_append, sizes.1, sizes.2]
  omega

theorem refused_start (short : date.1.length < 32) {n : Wire} (h : Refused date n) :
    Refusing date n ∧ ∀ event ∈ n.conn.events, isRefusal event = true := by
  obtain ⟨⟨accepted, -, none, current⟩, blocks, memused, much, start⟩ := h
  have detects : detected (hsRequestInit memused).request = some (hsRequestInit memused).request := by
    have automatic : httpFlagCheck httpAutomatic httpAutomatic = true := by decide
    unfold detected
    exact (if_pos automatic).trans rfl
  have flags : httpFlagCheck httpAutomatic httpChunkedResponse = false ∧ httpFlagCheck httpAutomatic httpKeepAlive = false := by
    decide
  have total : (message 503 date false errorHeaders (ascii "Service Unavailable")).length ≤ 2147483647 := by
    rw [message_refusal, refusal_length]
    omega
  have exact := @hsRequestRespondError_exact date (RespondEnv.blks ⟨date, blocks⟩) _ _ 503 memused
    (cstring "Service Unavailable") (by decide) (by decide) flags.1 detects (by
      rw [show httpFlagCheck (hsRequestInit memused).request.flags httpKeepAlive = false from flags.2]
      exact room_refusal short) (by
      rw [show httpFlagCheck (hsRequestInit memused).request.flags httpKeepAlive = false from flags.2]
      exact total)
  rw [show httpFlagCheck (hsRequestInit memused).request.flags httpKeepAlive = false from flags.2] at exact
  obtain ⟨request, memused', hresp, text⟩ := exact
  have text : sent request = refusal date := text.trans (message_refusal date)
  have responded := hsRequestRespond_responded hresp
  obtain ⟨r, hr, same⟩ := hsRequestRespond_flags hresp
  obtain rfl : (hsRequestInit memused).request = r := Option.some.inj (detects.symm.trans hr)
  have conn : n.conn = hsRequestBeginWrite (answered request memused' (hsRequestInit memused)) := by
    unfold hsAcceptAndBeginRequestCycle at start
    dsimp only at start
    rw [if_pos much] at start
    unfold startResponse at start
    obtain ⟨r, hr, heq⟩ := Option.map_eq_some_iff.1 start
    rw [← heq]
    obtain rfl : r = (request, memused') := Option.some.inj (hr.symm.trans hresp)
    rfl
  have length : request.buffer.length.toNat = 128 + date.1.length := by
    have length := congrArg List.length text
    rwa [refusal_length, sent, slice_length] at length
  refine ⟨.writing ?_ (.inr ?_) ?_ ?_ ?_ ?_ none ?_, ?_⟩
  · rw [conn]
    rfl
  · rw [conn]
    rfl
  · rw [conn]
    rfl
  · rw [conn]
    exact (congrArg (httpFlagCheck · httpChunkedResponse) same).trans flags.1
  · rw [conn]
    exact (congrArg (httpFlagCheck · httpKeepAlive) same).trans flags.2
  · rw [current, conn]
    exact congrArg some text
  · rw [conn]
    change request.bytesWritten < request.buffer.length
    rw [responded.written_eq]
    omega
  · rw [conn]
    simp [hsRequestBeginWrite, answered, hsRequestInit, isRefusal]

variable {cfg : Config} {n : Wire} {c : Conn} {l : Label}

theorem step_closed (dead : c.live = false) (hstack : c.stack = []) : Connection.step cfg c l = none := by
  unfold Connection.step
  cases l <;> simp [hstack, dead]

theorem Refusing.step (h : Refusing date n) (held : Holding n.conn) (asked : Asked n.conn l)
    (hs : Connection.step cfg n.conn l = some c) :
    Refusing date (n.after c l) ∧ ∃ more, c.events = n.conn.events ++ more ∧ ∀ event ∈ more, isRefusal event = true := by
  cases h with
  | closed dead hstack =>
    rw [step_closed dead hstack] at hs
    cases hs
  | writing live hstack state whole close text none left =>
    have noCall : ∀ call, l ≠ .call call := fun call hl =>
      absurd ((held.1 (asked call hl)).symm.trans state) (by decide)
    have only : ∀ {frame stack}, n.conn.stack = frame :: stack → frame = .writeSocket ∧ stack = [] := by
      intro frame stack other
      rcases hstack with frames | frames <;> rw [frames] at other <;> cases other
      exact ⟨rfl, rfl⟩
    -- the response goes on: nothing is started
    have goes : ∀ {d : Conn} {more : List Event}, d.events = n.conn.events ++ more → started more = Option.none →
        (n.after d .timerEvent).complete = [] ∧ (n.after d .timerEvent).current = some (refusal date) := by
      intro d more events silent
      refine ⟨none, ?_⟩
      change (started (since n.conn d)).or n.current = _
      rw [since_append events, silent, Option.none_or, text]
    have counts : ∀ call : WriteCall, (written call n.conn).request.bytesWritten =
        if call.bytes > 0 then n.conn.request.bytesWritten + call.bytes else n.conn.request.bytesWritten := fun _ => rfl
    cases step_move hs with
    | wakeRead _ _ other => exact absurd (state.symm.trans other) (by decide)
    | wakeWrite _ hstack =>
      obtain ⟨complete, current⟩ := @goes (n.conn.push .writeSocket) [] (List.append_nil _).symm rfl
      exact ⟨.writing live (.inr (congrArg (Frame.writeSocket :: ·) hstack)) state whole close current complete left, [],
        (List.append_nil _).symm, by simp⟩
    | swallow _ _ _ notWrite => exact absurd state notWrite
    | tick =>
      obtain ⟨complete, current⟩ := @goes (setTimeout (n.conn.request.timeout - 1) n.conn) [] (List.append_nil _).symm rfl
      exact ⟨.writing live hstack state whole close current complete left, [], (List.append_nil _).symm, by simp⟩
    | expire _ hstack =>
      obtain ⟨complete, current⟩ := @goes (hsRequestTerminateConnection (setTimeout (n.conn.request.timeout - 1) n.conn))
        [.terminate] rfl rfl
      exact ⟨.closed rfl hstack (.inl ⟨complete, current⟩), [.terminate], rfl, by simp [isRefusal]⟩
    | readSkip other => cases (only other).1
    | readEof other => cases (only other).1
    | readMore other => cases (only other).1
    | execNone other => cases (only other).1
    | execErr other => cases (only other).1
    | execLine other => cases (only other).1
    | execHead other => cases (only other).1
    | execSmall other => cases (only other).1
    | execFinal other => cases (only other).1
    | execPiece other => cases (only other).1
    | @writeMore call stack frames fits pipe part =>
      obtain ⟨-, rfl⟩ := only frames
      have rc : WrittenResponses.succeeds (writeRc call n.conn) = false := by
        unfold writeRc
        simp [pipe, part, WrittenResponses.succeeds]
      have after : n.after (setTimeout httpRequestTimeout (written call (popped [] n.conn))) (.write call) =
          { n with
              conn := setTimeout httpRequestTimeout (written call (popped [] n.conn))
              accepted := n.accepted ++ delivered call n.conn } := if_neg (by rw [rc]; decide)
      rw [after]
      refine ⟨.writing live (.inl rfl) state whole close text none ?_, [.write call.bytes], rfl, by simp [isRefusal]⟩
      change (written call n.conn).request.bytesWritten < n.conn.request.buffer.length
      rw [counts] at part ⊢
      split at part <;> rename_i more <;> simp only [more, if_true, if_false] at part ⊢ <;> omega
    | @writeErr call stack frames pipe =>
      obtain ⟨-, rfl⟩ := only frames
      have rc : WrittenResponses.succeeds (writeRc call n.conn) = false := by
        unfold writeRc
        simp [pipe, WrittenResponses.succeeds]
      have after : ∀ d, n.after d (.write call) = { n with conn := d, accepted := n.accepted ++ delivered call n.conn } :=
        fun d => if_neg (by rw [rc]; decide)
      rw [after]
      refine ⟨.closed rfl rfl (.inl ⟨none, text⟩), [.write call.bytes, .terminate], ?_, by simp [isRefusal]⟩
      simp [hsRequestTerminateConnection, finished, written, popped]
    | @writeClose call stack frames pipe all =>
      obtain ⟨-, rfl⟩ := only frames
      have rc : WrittenResponses.succeeds (writeRc call n.conn) = true := by
        rw [writeRc_flags pipe all, whole, close]
        rfl
      have after : ∀ d, n.after d (.write call) = { conn := d, accepted := n.accepted ++ delivered call n.conn, complete := n.complete ++ [n.current.getD []] } :=
        fun d => if_pos rc
      rw [after]
      refine ⟨.closed rfl rfl (.inr ⟨?_, rfl⟩), [.write call.bytes, .responded n.conn.serial, .terminate], ?_,
        by simp [isRefusal]⟩
      · dsimp only
        rw [none, text]
        rfl
      · simp [hsRequestTerminateConnection, finished, written, popped]
    | writeNext _ _ _ _ keep => exact absurd (close.symm.trans keep) (by decide)
    | writeChunk _ _ _ chunk => exact absurd (whole.symm.trans chunk) (by decide)
    | respond => exact absurd rfl (noCall _)
    | readChunk => exact absurd rfl (noCall _)
    | freeBuffer => exact absurd rfl (noCall _)
    | connection => exact absurd rfl (noCall _)
    | callbackReturn other => cases (only other).1
    | finalChunk other => cases (only other).1

theorem Refusing.alone (h : Refusing date n) (held : Holding n.conn) (asked : Asked n.conn l) : OneAtATime n l ∨ n.conn.live = false := by
  cases h with
  | closed dead => exact .inr dead
  | writing _ _ state =>
    refine .inl ?_
    cases l with
    | call call => exact absurd ((held.1 (asked call rfl)).symm.trans state) (by decide)
    | _ => trivial

structure RefusedRun (date : CString) (n : Wire) : Prop where
  regular : Regular n.conn
  inOrder : InOrder n
  refusing : Refusing date n
  quiet : ∀ event ∈ n.conn.events, isRefusal event = true

theorem refusedRun_start (short : date.1.length < 32) {n : Wire} (h : Refused date n) : RefusedRun date n :=
  have first := refused_start short h
  ⟨regular_accepted h.1.1, inOrder_opened h.1, first.1, first.2⟩

theorem RefusedRun.step {l : Label} {n n' : Wire} (h : RefusedRun date n) (asked : Asked n.conn l)
    (hs : Wire.step cfg n l = some n') : RefusedRun date n' := by
  obtain ⟨c, hc, rfl⟩ := Option.map_eq_some_iff.1 hs
  have alone : OneAtATime n l := by
    refine (h.refusing.alone h.regular.held asked).resolve_right fun dead => ?_
    cases h.refusing with
    | writing live => exact absurd (dead.symm.trans live) (by decide)
    | closed _ hstack =>
      rw [step_closed dead hstack] at hc
      cases hc
  have conn : (n.after c l).conn = c := by
    unfold Wire.after
    split
    · split <;> rfl
    · rfl
  obtain ⟨refusing, more, events, silent⟩ := h.refusing.step h.regular.held asked hc
  refine ⟨?_, h.inOrder.step h.regular.steady alone hc, refusing, ?_⟩ <;> rw [conn]
  · exact h.regular.step (step_move hc)
  · intro event mem
    rw [events] at mem
    exact (List.mem_append.1 mem).elim (h.quiet event) (silent event)

/-- In every run a refused connection has sent a part of the answer, and it is closed when that is all of it. It was
    never read from, and no user code was called. -/
theorem refused_reached (short : date.1.length < 32)
    (run : Runs.Reached (Wire.step cfg) (Refused date) (fun n l => Asked n.conn l) n) :
    n.accepted <+: refusal date ∧ (∀ event ∈ n.conn.events, isRefusal event = true) ∧
      (n.conn.live = true → n.accepted.length < (refusal date).length) := by
  have kept : RefusedRun date n := run.invariant (fun _ => refusedRun_start short) fun _ _ _ h asked hs => h.step asked hs
  obtain ⟨-, inOrder, refusing, quiet⟩ := kept
  have accepted := inOrder.accepted_eq
  refine ⟨?_, quiet, fun live => ?_⟩
  · cases refusing with
    | writing _ _ _ _ _ text none =>
      rw [accepted, none, text]
      exact List.take_prefix _ _
    | closed _ _ sent =>
      rcases sent with ⟨none, text⟩ | ⟨whole, text⟩ <;> rw [accepted, text]
      · rw [none]
        exact List.take_prefix _ _
      · rw [whole]
        simp
  · cases refusing with
    | closed dead => exact absurd (dead.symm.trans live) (by decide)
    | writing _ _ state _ _ text none left =>
      obtain ⟨current, nonneg⟩ := inOrder.writing live state
      have same : sent n.conn.request = refusal date := Option.some.inj (current.symm.trans text)
      have length := congrArg List.length same
      rw [sent, slice_length] at length
      rw [accepted, none, text, List.flatten_nil, List.nil_append, Option.getD_some, List.length_take]
      omega

/-- The memory is more than the limit, and the answer is written in two parts. -/
theorem refused_reached_parts : ∃ n, Runs.Reached (Wire.step {}) (Refused sessionEnv.date) (fun n l => Asked n.conn l) n ∧
    n.conn.live = false ∧ n.accepted.length = 156 ∧ n.accepted <+: refusal sessionEnv.date := by
  have run : ((hsAcceptAndBeginRequestCycle sessionEnv 4294967297).any fun c =>
      ((Runs.exec (Runs.guarded (Wire.step {}) fun n l => Asked n.conn l) [.write ⟨100, false⟩, .socketEvent, .write ⟨56, false⟩]
        { conn := c, current := started c.events }).any fun n => !n.conn.live && decide (n.accepted.length = 156))) = true := by
    decide +kernel
  obtain ⟨c, hc, run⟩ := (Option.any_eq_true _ _).1 run
  obtain ⟨n, hn, closed⟩ := (Option.any_eq_true _ _).1 run
  rw [Bool.and_eq_true, Bool.not_eq_true', decide_eq_true_eq] at closed
  have refused : Refused sessionEnv.date { conn := c, current := started c.events } :=
    ⟨⟨⟨sessionEnv, 4294967297, hc⟩, rfl, rfl, rfl⟩, sessionEnv.blocks, 4294967297, by decide, hc⟩
  have reached := Runs.Reached.guarded (.init refused) hn
  exact ⟨n, reached, closed.1, closed.2, (refused_reached (by decide) reached).1⟩

end Refused

end HttpServer.RefusedConnections
