import HttpServer.HeldRequests
import HttpServer.ResponseText

set_option autoImplicit false

/-!
# What the socket accepts of the responses

The bytes that `write` accepts over a whole connection are the responses in their order, each as it
was serialized.
-/
namespace HttpServer.WrittenResponses
open ReadBuffer RequestUtil Respond ResponseText Connection ConnectionSteps ConnectionInvariant HeldRequests

section Wire

/-- A connection with the bytes that the socket accepted, the responses that were reported as written
    and the one in progress, each as it was handed to `http_write`. -/
structure Wire where
  conn : Conn
  accepted : List UInt8 := []
  complete : List (List UInt8) := []
  current : Option (List UInt8) := none

/-- What one `write` accepts. -/
def delivered (call : WriteCall) (c : Conn) : List UInt8 :=
  slice c.request.buffer.data c.request.bytesWritten call.bytes.toNat

/-- The response that was started in some events. -/
def started (events : List Event) : Option (List UInt8) :=
  events.findSome? fun
    | .response request => some (sent request)
    | _ => none

/-- `HS_WRITE_RC_SUCCESS`, `HS_WRITE_RC_SUCCESS_CHUNK` and `HS_WRITE_RC_SUCCESS_CLOSE` -/
def succeeds : HsWriteRc → Bool
  | .success | .successChunk | .successClose => true
  | _ => false

def Wire.after (n : Wire) (c : Conn) : Label → Wire
  | .write call =>
    if succeeds (writeRc call n.conn) then
      { conn := c, accepted := n.accepted ++ delivered call n.conn, complete := n.complete ++ [n.current.getD []] }
    else { n with conn := c, accepted := n.accepted ++ delivered call n.conn }
  | _ => { n with conn := c, current := (started (since n.conn c)).or n.current }

def Wire.step (cfg : Config) (n : Wire) (l : Label) : Option Wire :=
  (Connection.step cfg n.conn l).map fun c => n.after c l

def Opened (n : Wire) : Prop :=
  Accepted n.conn ∧ n.accepted = [] ∧ n.complete = [] ∧ n.current = started n.conn.events

/-- One response at a time: while there is one, user code neither starts another one nor reads nor frees
    the buffer. -/
def OneAtATime (n : Wire) : Label → Prop
  | .call (.connection _) => True
  | .call _ => n.current = none
  | _ => True

instance (n : Wire) (l : Label) : Decidable (OneAtATime n l) :=
  match l with
  | .call (.connection _) => isTrue trivial
  | .call (.respond _ _) | .call (.respondChunk _ _) | .call (.respondChunkEnd _ _) | .call .readChunk
  | .call .freeBuffer => inferInstanceAs (Decidable (n.current = none))
  | .socketEvent | .timerEvent | .read _ | .exec _ _ | .write _ | .callbackReturn | .finalChunk => isTrue trivial

end Wire

section Order

variable {cfg : Config} {n : Wire} {c : Conn} {l : Label}

/-- The accepted bytes are the complete responses and the part of the current one that was written. -/
structure InOrder (n : Wire) : Prop where
  accepted_eq : n.accepted =
    n.complete.flatten ++ (n.current.getD []).take n.conn.request.bytesWritten.toNat
  writing : n.conn.live = true → n.conn.request.state = .write →
    n.current = some (sent n.conn.request) ∧ 0 ≤ n.conn.request.bytesWritten
  reading : n.conn.live = true → n.conn.request.state = .read → n.current = none

theorem nop_ne : HttpSession.nop ≠ .write ∧ HttpSession.nop ≠ .read := by decide
theorem read_ne : HttpSession.read ≠ .write := by decide

theorem InOrder.away (h : InOrder n) (free : n.current = none)
    (quiet : n.after c l = { n with conn := c, current := (started (since n.conn c)).or n.current })
    (none : started (since n.conn c) = none) (state : c.live = true → c.request.state ≠ .write) :
    InOrder (n.after c l) := by
  have accepted := h.accepted_eq
  rw [quiet, none, free, Option.or_none]
  rw [free] at accepted
  refine ⟨by simpa using accepted, fun live write => absurd write (state live), fun _ _ => rfl⟩

theorem InOrder.starts (h : InOrder n) (free : n.current = none)
    (quiet : n.after c l = { n with conn := c, current := (started (since n.conn c)).or n.current })
    (text : started (since n.conn c) = some (sent c.request)) (written : c.request.bytesWritten = 0)
    (state : c.request.state = .write) : InOrder (n.after c l) := by
  have accepted := h.accepted_eq
  rw [quiet, text, Option.some_or]
  rw [free] at accepted
  refine ⟨?_, fun _ _ => ⟨rfl, written.ge⟩, fun _ read => absurd (read.symm.trans state) read_ne⟩
  simpa [written] using accepted

theorem InOrder.waits (h : InOrder n)
    (quiet : n.after c l = { n with conn := c, current := (started (since n.conn c)).or n.current })
    (none : started (since n.conn c) = none) (written : c.request.bytesWritten = n.conn.request.bytesWritten)
    (same : c.live = true → c.request.state = .nop ∨ n.conn.live = true ∧
      c.request.state = n.conn.request.state ∧ sent c.request = sent n.conn.request) : InOrder (n.after c l) := by
  rw [quiet, none, Option.none_or]
  refine ⟨?_, fun live write => ?_, fun live read => ?_⟩
  · rw [written]
    exact h.accepted_eq
  · rcases same live with held | ⟨live₀, state, text⟩
    · exact absurd (held.symm.trans write) nop_ne.1
    · have := h.writing live₀ (state.symm.trans write)
      rw [text, written]
      exact this
  · rcases same live with held | ⟨live₀, state, -⟩
    · exact absurd (held.symm.trans read) nop_ne.2
    · exact h.reading live₀ (state.symm.trans read)

theorem take_delivered {call : WriteCall} (nonneg : 0 ≤ n.conn.request.bytesWritten)
    (fits : 0 ≤ n.conn.request.buffer.length - n.conn.request.bytesWritten ∧ -1 ≤ call.bytes ∧
      call.bytes ≤ n.conn.request.buffer.length - n.conn.request.bytesWritten) :
    0 ≤ (written call n.conn).request.bytesWritten ∧
      (sent n.conn.request).take (written call n.conn).request.bytesWritten.toNat =
        (sent n.conn.request).take n.conn.request.bytesWritten.toNat ++ delivered call n.conn := by
  have count : (written call n.conn).request.bytesWritten =
      if call.bytes > 0 then n.conn.request.bytesWritten + call.bytes else n.conn.request.bytesWritten := rfl
  unfold sent delivered
  by_cases pos : call.bytes > 0
  · rw [count, if_pos pos]
    refine ⟨by omega, ?_⟩
    rw [slice_take _ _ (by omega), slice_take _ _ (by omega),
      show (n.conn.request.bytesWritten + call.bytes).toNat = n.conn.request.bytesWritten.toNat + call.bytes.toNat by
        omega, slice_add, zero_add, Int.toNat_of_nonneg nonneg]
  · rw [count, if_neg pos, show call.bytes.toNat = 0 by omega]
    exact ⟨nonneg, (List.append_nil _).symm⟩

theorem InOrder.writes {call : WriteCall} {stack : List Frame} (h : InOrder n) (steady : Steady n.conn)
    (hstack : n.conn.stack = .writeSocket :: stack) (hs : Connection.step cfg n.conn (.write call) = some c) (rc : succeeds (writeRc call n.conn) = false)
    (written' : c.request.bytesWritten = (written call n.conn).request.bytesWritten)
    (same : c.live = true → c.request.state = .write ∧ sent c.request = sent n.conn.request) :
    InOrder (n.after c (.write call)) := by
  obtain ⟨current, nonneg⟩ := h.writing (steady.library hstack rfl).live (steady.writing hstack).1
  obtain ⟨nonneg', added⟩ := take_delivered nonneg (write_fits hstack hs)
  have accepted := h.accepted_eq
  have after : n.after c (.write call) = { n with conn := c, accepted := n.accepted ++ delivered call n.conn } :=
    if_neg (by rw [rc]; decide)
  rw [after]
  rw [current, Option.getD_some] at accepted
  refine ⟨?_, fun live => ?_, fun live read => ?_⟩
  · dsimp only
    rw [accepted, current, Option.getD_some, written', added, List.append_assoc]
  · obtain ⟨-, text⟩ := same live
    dsimp only
    rw [text, current, written']
    exact fun _ => ⟨rfl, nonneg'⟩
  · exact absurd (read.symm.trans (same live).1) read_ne

theorem InOrder.completes {call : WriteCall} {stack : List Frame} (h : InOrder n) (steady : Steady n.conn)
    (hstack : n.conn.stack = .writeSocket :: stack) (hs : Connection.step cfg n.conn (.write call) = some c)
    (rc : succeeds (writeRc call n.conn) = true)
    (all : (written call n.conn).request.bytesWritten = n.conn.request.buffer.length)
    (state' : c.live = true → c.request.state ≠ .write) : InOrder (n.after c (.write call)) := by
  obtain ⟨current, nonneg⟩ := h.writing (steady.library hstack rfl).live (steady.writing hstack).1
  obtain ⟨-, added⟩ := take_delivered nonneg (write_fits hstack hs)
  have accepted := h.accepted_eq
  have after : n.after c (.write call) =
      { conn := c, accepted := n.accepted ++ delivered call n.conn, complete := n.complete ++ [n.current.getD []] } :=
    if_pos rc
  rw [after]
  rw [current, Option.getD_some] at accepted
  refine ⟨?_, fun live write => absurd write (state' live), fun _ _ => rfl⟩
  have whole : (sent n.conn.request).take n.conn.request.buffer.length.toNat = sent n.conn.request :=
    List.take_of_length_le (by rw [sent, slice_length])
  rw [all, whole] at added
  dsimp only
  rw [accepted, List.append_assoc, ← added, current]
  simp

theorem InOrder.step (steady : Steady n.conn) (h : InOrder n) (ok : OneAtATime n l)
    (hs : Connection.step cfg n.conn l = some c) : InOrder (n.after c l) := by
  have nothing : ∀ events : List Event, c.events = n.conn.events ++ events → started events = none →
      started (since n.conn c) = none := by
    intro events happened none
    rw [since_append happened]
    exact none
  have free : ∀ {frame stack}, n.conn.stack = frame :: stack → frame = .readRequest ∨ frame = .parseBuffer →
      n.current = none := by
    intro frame stack hstack reading
    have library : ConnectionInvariant.waits frame = false := by rcases reading with rfl | rfl <;> rfl
    exact h.reading (steady.library hstack library).live (steady.reading hstack reading).1
  cases step_move hs with
  | wakeRead live stack state =>
    exact h.waits rfl (nothing [] (List.append_nil _).symm rfl) rfl fun _ => .inr ⟨live, rfl, rfl⟩
  | wakeWrite live stack state =>
    exact h.waits rfl (nothing [] (List.append_nil _).symm rfl) rfl fun _ => .inr ⟨live, rfl, rfl⟩
  | swallow live => exact h.waits rfl (nothing [] (List.append_nil _).symm rfl) rfl fun _ => .inr ⟨live, rfl, rfl⟩
  | tick live => exact h.waits rfl (nothing [] (List.append_nil _).symm rfl) rfl fun _ => .inr ⟨live, rfl, rfl⟩
  | expire => exact h.waits rfl (nothing [.terminate] rfl rfl) rfl (by rintro ⟨⟩)
  | @readSkip env stack hstack =>
    have events : (entered cfg env (popped stack n.conn)).events = n.conn.events ++ [] := by simp [popped]
    exact h.away (free hstack (.inl rfl)) rfl (nothing [] events rfl) fun _ => by simp
  | @readEof env stack r hstack =>
    refine h.away (free hstack (.inl rfl)) rfl ?_ (by rintro ⟨⟩)
    refine nothing [.read (env.readCalls.map ReadCall.result), .terminate] ?_ rfl
    simp [hsRequestTerminateConnection, filled, popped]
  | @readMore env stack r hstack =>
    refine h.away (free hstack (.inl rfl)) rfl ?_ fun _ => by simp [filled]
    refine nothing [.read (env.readCalls.map ReadCall.result)] ?_ rfl
    simp [filled, popped]
  | execNone hstack =>
    have state := (steady.reading hstack (.inr rfl)).1
    exact h.away (free hstack (.inr rfl)) rfl (nothing [] (List.append_nil _).symm rfl) fun _ => state.trans_ne read_ne
  | @execErr blk respond stack token parser buffer request memused hstack hr type hresp =>
    refine h.starts (free hstack (.inr rfl)) rfl ?_ ?_ rfl
    · rw [@since_append _ _ [.parseErr, .response request, .watch .epollout]
        (by simp [hsRequestBeginWrite, answered, parsed, popped])]
      rfl
    · exact (hsRequestRespond_responded hresp).written_eq
  | execLine hstack =>
    have state := (steady.reading hstack (.inr rfl)).1
    exact h.away (free hstack (.inr rfl)) rfl (nothing [.push _ _] rfl rfl) fun _ => state.trans_ne read_ne
  | execHead hstack =>
    refine h.away (free hstack (.inr rfl)) rfl ?_ fun _ => nop_ne.1
    exact nothing [.push _ _, .invoke _ _ _] (List.append_assoc _ _ _) rfl
  | execSmall hstack =>
    refine h.away (free hstack (.inr rfl)) rfl ?_ fun _ => nop_ne.1
    exact nothing [.push _ _, .invoke _ _ _] (List.append_assoc _ _ _) rfl
  | execFinal hstack =>
    refine h.away (free hstack (.inr rfl)) rfl ?_ fun _ => nop_ne.1
    exact nothing [.push _ _, .invoke _ _ _] (List.append_assoc _ _ _) rfl
  | execPiece hstack =>
    refine h.away (free hstack (.inr rfl)) rfl ?_ fun _ => nop_ne.1
    exact nothing [.push _ _, .invoke _ _ _] (List.append_assoc _ _ _) rfl
  | @writeMore call stack hstack fits pipe left =>
    refine h.writes steady hstack hs ?_ rfl fun _ => ⟨(steady.writing hstack).1, rfl⟩
    unfold writeRc
    simp [pipe, left, succeeds]
  | @writeErr call stack hstack pipe =>
    refine h.writes steady hstack hs ?_ rfl (by rintro ⟨⟩)
    unfold writeRc
    simp [pipe, succeeds]
  | writeClose hstack pipe all whole close =>
    refine h.completes steady hstack hs ?_ all (by rintro ⟨⟩)
    rw [writeRc_flags pipe all, whole, close]
    rfl
  | writeNext hstack pipe all whole keep =>
    refine h.completes steady hstack hs ?_ all fun _ => read_ne
    rw [writeRc_flags pipe all, whole, keep]
    rfl
  | writeChunk hstack pipe all chunk =>
    refine h.completes steady hstack hs ?_ all fun _ => nop_ne.1
    rw [writeRc_flags pipe all, chunk]
    rfl
  | @respond call f env request memused user live hcall hf =>
    have free : n.current = none := by
      cases call <;> first | exact ok | cases hcall
    refine h.starts free (by cases call <;> rfl) ?_ (responds_responded hcall hf).written_eq rfl
    rw [@since_append _ _ [.response request, .watch .epollout] (by simp [hsRequestBeginWrite, answered])]
    rfl
  | readChunk user live =>
    exact h.away ok rfl (nothing [.watch .epollin] rfl rfl) fun _ => read_ne
  | freeBuffer user live =>
    refine h.waits rfl (nothing [] (List.append_nil _).symm rfl) rfl fun _ => .inr ⟨live, rfl, ?_⟩
    unfold sent finished hsBufferFree
    split <;> rfl
  | @connection directive user live =>
    obtain ⟨flags, set⟩ := setKeepAlive_flags n.conn.request directive
    rw [set]
    exact h.waits rfl (nothing [] (List.append_nil _).symm rfl) rfl fun _ => .inr ⟨live, rfl, rfl⟩
  | callbackReturn hstack =>
    exact h.waits rfl (nothing [] (List.append_nil _).symm rfl) rfl fun live => .inr ⟨live, rfl, rfl⟩
  | finalChunk hstack live =>
    exact h.waits rfl (nothing [.push _ _, .invoke _ _ _] (List.append_assoc _ _ _) rfl) rfl fun _ => .inl rfl

theorem inOrder_opened (h : Opened n) : InOrder n := by
  obtain ⟨accepted, nothing, none, current⟩ := h
  obtain ⟨memused, hc | ⟨respond, request, memused', hresp, hc⟩⟩ := accepted_cases accepted
  · have idle : n.current = Option.none := by
      rw [current, hc]
      rfl
    refine ⟨by rw [nothing, none, idle]; simp, fun _ write => ?_, fun _ _ => idle⟩
    rw [hc] at write
    exact absurd write read_ne
  · have text : n.current = some (sent request) := by
      rw [current, hc]
      rfl
    have unwritten : n.conn.request.bytesWritten = 0 := by
      rw [hc]
      exact (hsRequestRespond_responded hresp).written_eq
    refine ⟨?_, fun _ _ => ⟨?_, unwritten.ge⟩, fun _ read => ?_⟩
    · rw [nothing, none, unwritten]
      rfl
    · rw [text, hc]
      rfl
    · rw [hc] at read
      exact absurd read.symm read_ne

theorem inOrder_reached (run : Runs.Reached (Wire.step cfg) Opened OneAtATime n) : Steady n.conn ∧ InOrder n := by
  refine run.invariant (I := fun n => Steady n.conn ∧ InOrder n) (fun n h => ⟨steady_accepted h.1, inOrder_opened h⟩) ?_
  rintro n l n' ⟨steady, inOrder⟩ ok hs
  obtain ⟨c, hc, rfl⟩ := Option.map_eq_some_iff.1 hs
  have conn : (n.after c l).conn = c := by
    unfold Wire.after
    split
    · split <;> rfl
    · rfl
  rw [conn]
  exact ⟨steady.step (step_move hc), inOrder.step steady ok hc⟩

/-- In every run with one response at a time, the socket has accepted the complete responses in order
    and the part of the current one that was written, and a response is reported as complete only with
    the write that makes it so. -/
theorem accepted_responses (run : Runs.Reached (Wire.step cfg) Opened OneAtATime n) :
    n.accepted = n.complete.flatten ++ (n.current.getD []).take n.conn.request.bytesWritten.toNat ∧
      ∀ call r stack, n.conn.stack = .writeSocket :: stack → hsWriteSocket call n.conn = some r →
        succeeds r.1 = true → n.current = some (sent n.conn.request) ∧
          n.accepted ++ delivered call n.conn = n.complete.flatten ++ sent n.conn.request := by
  obtain ⟨steady, inOrder⟩ := inOrder_reached run
  refine ⟨inOrder.accepted_eq, fun call r stack hstack hr success => ?_⟩
  obtain ⟨fits, rfl⟩ := hsWriteSocket_eq hr
  obtain ⟨current, nonneg⟩ := inOrder.writing (steady.library hstack rfl).live (steady.writing hstack).1
  obtain ⟨-, added⟩ := take_delivered nonneg fits
  have all : (written call n.conn).request.bytesWritten = n.conn.request.buffer.length := by
    by_contra left
    unfold writeRc at success
    simp only [ne_eq, left, not_false_eq_true, if_true] at success
    split at success <;> cases success
  have whole : (sent n.conn.request).take n.conn.request.buffer.length.toNat = sent n.conn.request :=
    List.take_of_length_le (by rw [sent, slice_length])
  rw [all, whole] at added
  have accepted := inOrder.accepted_eq
  rw [current, Option.getD_some] at accepted
  exact ⟨current, by rw [accepted, List.append_assoc, ← added]⟩

/-- A response is written with two writes. -/
theorem accepted_responses_get : ∃ n, Runs.Reached (Wire.step {}) Opened OneAtATime n ∧ n.complete.flatten.length = 98 ∧
    n.accepted = n.complete.flatten ++ (n.current.getD []).take n.conn.request.bytesWritten.toNat := by
  have run : ((Runs.exec (Runs.guarded (Wire.step {}) OneAtATime)
      (handled ++ [.call (.respond {} sessionEnv), .write ⟨10, false⟩, .socketEvent, .write ⟨88, false⟩])
        { conn := accepted }).any fun n => decide (n.complete.flatten.length = 98)) = true := by
    decide +kernel
  obtain ⟨n, hn, length⟩ := (Option.any_eq_true _ _).1 run
  rw [decide_eq_true_eq] at length
  have reached : Runs.Reached (Wire.step {}) Opened OneAtATime n :=
    .guarded (.init ⟨accepted_accepted, rfl, rfl, rfl⟩) hn
  exact ⟨n, reached, length, (accepted_responses reached).1⟩

end Order

end HttpServer.WrittenResponses
