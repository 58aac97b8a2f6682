import HttpServer.HeldRequests

set_option autoImplicit false

/-!
# The timeout of a connection

Every run of the read code and of the write code sets the timeout, and the read code that follows a
complete response runs at once. A connection that waits has 20 ticks, whatever it waits for.
-/
namespace HttpServer.Timeouts
open ReadBuffer RequestUtil Respond Connection ConnectionSteps ConnectionInvariant HeldRequests

section Runs

/-- A connection with the ticks since the read or write code ran last. -/
structure Timed where
  conn : Conn
  ticks : ℕ := 0

def ticksAfter (ticks : ℕ) : Label → ℕ
  | .timerEvent => ticks + 1
  | .read _ | .write _ => 0
  | _ => ticks

def Timed.step (cfg : Config) (n : Timed) (l : Label) : Option Timed :=
  (Connection.step cfg n.conn l).map fun c => { conn := c, ticks := ticksAfter n.ticks l }

def Opened (n : Timed) : Prop := Accepted n.conn ∧ n.ticks = 0

/-- Whether the last activity is the complete write of a response, after an event. -/
def idleAfter (idle : Bool) : Event → Bool
  | .responded _ => true
  | .read results => idle && results.all fun result => result.received.isEmpty
  | .watch _ | .terminate => idle
  | _ => false

/-- The last activity is the complete write of a response, and no byte has arrived since. -/
def idle (events : List Event) : Bool := events.foldl idleAfter false

/-- How many ticks without activity a connection should have. -/
def allowance (c : Conn) : ℕ :=
  if idle c.events then httpKeepAliveTimeout.toNat else httpRequestTimeout.toNat

/-- The timer alone, `k` times. -/
def ticked (k : ℕ) (c : Conn) : Conn := hsOnEpollRequestTimerEvent^[k] c

def Expires (k : ℕ) (c : Conn) : Prop := (ticked k c).live = false ∧ ∀ j < k, (ticked j c).live = true

end Runs

section Timer

variable {cfg : Config} {c c' : Conn} {l : Label} {n n' : Timed}

theorem ticked_timeout (c : Conn) {k : ℕ} (lt : (k : ℤ) < c.request.timeout) :
    ticked k c = setTimeout (c.request.timeout - k) c := by
  induction k with
  | zero => simp [ticked, setTimeout]
  | succ k ih =>
    unfold ticked at ih ⊢
    push_cast at lt
    rw [Function.iterate_succ_apply', ih (by omega)]
    unfold hsOnEpollRequestTimerEvent
    have left : c.request.timeout - k - 1 ≠ 0 := by omega
    simp only [setTimeout, left, if_false]
    push_cast
    rw [← sub_sub]

theorem expires_timeout (live : c.live = true) (pos : 0 < c.request.timeout) : Expires c.request.timeout.toNat c := by
  obtain ⟨k, hk⟩ : ∃ k : ℕ, c.request.timeout = k + 1 := ⟨(c.request.timeout - 1).toNat, by omega⟩
  constructor
  · rw [hk, show ((k : ℤ) + 1).toNat = k + 1 by omega]
    have last := ticked_timeout c (k := k) (by omega)
    unfold ticked at last ⊢
    rw [Function.iterate_succ_apply', last, hk]
    unfold hsOnEpollRequestTimerEvent
    simp [setTimeout, hsRequestTerminateConnection, Conn.log]
  · intro j hj
    rw [ticked_timeout c (by omega)]
    exact live

theorem expires_unique {j k : ℕ} (hj : Expires j c) (hk : Expires k c) : j = k := by
  rcases lt_trichotomy j k with lt | rfl | lt
  · exact absurd (hj.1.symm.trans (hk.2 j lt)) (by decide)
  · rfl
  · exact absurd (hk.1.symm.trans (hj.2 k lt)) (by decide)

/-- The read or the write code runs next. -/
def pending : List Frame → Bool
  | .readRequest :: _ | .writeSocket :: _ => true
  | _ => false

/-- Unless the timeout is about to be set, it is what the ticks have left of it. -/
def InTime (c : Conn) (ticks : ℕ) : Prop :=
  c.live = true → pending c.stack = false → c.request.timeout = httpRequestTimeout - ticks ∧ 0 < c.request.timeout

theorem InTime.kept {ticks : ℕ} (h : InTime c ticks) (frame : pending c.stack = false) (live : c.live = true)
    (same : c'.request.timeout = c.request.timeout) : InTime c' ticks := by
  intro _ _
  rw [same]
  exact h live frame

theorem inTime_pending {ticks : ℕ} (next : pending c.stack = true) : InTime c ticks :=
  fun _ free => absurd (next.symm.trans free) (by decide)

theorem inTime_set (set : c.request.timeout = httpRequestTimeout) : InTime c 0 := by
  intro _ _
  rw [set]
  decide

theorem inTime_dead {ticks : ℕ} (dead : c.live = false) : InTime c ticks :=
  fun live => absurd (live.symm.trans dead) (by decide)

@[simp] theorem entered_timeout (env : ReadEnv) (c : Conn) : (entered cfg env c).request.timeout = httpRequestTimeout := by
  unfold entered initBuffer
  split <;> rfl

theorem user_pending {stack : List Frame} (user : userRuns stack = true) : pending stack = false := by
  cases stack with
  | nil => rfl
  | cons frame stack => cases frame <;> first | rfl | cases user

theorem InTime.step (steady : Steady c) {ticks : ℕ} (h : InTime c ticks) (move : Move cfg c l c') :
    InTime c' (ticksAfter ticks l) := by
  have alive : ∀ {frame stack}, c.stack = frame :: stack → waits frame = false → c.live = true := by
    intro frame stack hstack runs
    exact (steady.library hstack runs).live
  have parsing : ∀ {stack}, c.stack = .parseBuffer :: stack → pending c.stack = false := by
    intro stack hstack
    rw [hstack]
    rfl
  cases move with
  | wakeRead => exact inTime_pending rfl
  | wakeWrite => exact inTime_pending rfl
  | swallow live stack => exact h.kept (by rw [stack]; rfl) live rfl
  | tick live stack left =>
    obtain ⟨timeout, pos⟩ := h live (by rw [stack]; rfl)
    intro _ _
    simp only [setTimeout, ticksAfter]
    push_cast
    omega
  | expire => exact inTime_dead rfl
  | readSkip => exact inTime_set (entered_timeout _ _)
  | readEof => exact inTime_dead rfl
  | readMore => exact inTime_set (entered_timeout _ _)
  | execNone hstack => exact h.kept (parsing hstack) (alive hstack rfl) rfl
  | execErr => exact inTime_pending rfl
  | execLine hstack => exact h.kept (parsing hstack) (alive hstack rfl) rfl
  | execHead hstack => exact h.kept (parsing hstack) (alive hstack rfl) rfl
  | execSmall hstack => exact h.kept (parsing hstack) (alive hstack rfl) rfl
  | execFinal hstack => exact h.kept (parsing hstack) (alive hstack rfl) rfl
  | execPiece hstack => exact h.kept (parsing hstack) (alive hstack rfl) rfl
  | writeMore => exact inTime_set rfl
  | writeErr => exact inTime_dead rfl
  | writeClose => exact inTime_dead rfl
  | writeNext => exact inTime_pending rfl
  | writeChunk => exact inTime_set rfl
  | respond => exact inTime_pending rfl
  | readChunk => exact inTime_pending rfl
  | freeBuffer user live => exact h.kept (user_pending user) live rfl
  | @connection directive user live =>
    refine h.kept (user_pending user) live ?_
    obtain ⟨flags, set⟩ := setKeepAlive_flags c.request directive
    change (hsRequestSetKeepAliveFlag c.request directive).timeout = _
    rw [set]
  | callbackReturn hstack =>
    intro live free
    exact h live (by rw [hstack]; rfl)
  | finalChunk hstack live => exact h.kept (by rw [hstack]; rfl) live rfl

theorem inTime_accepted (h : Accepted c) : InTime c 0 := by
  obtain ⟨memused, rfl | ⟨respond, request, memused', -, rfl⟩⟩ := accepted_cases h <;> exact inTime_pending rfl

theorem timed_invariant (run : Runs.Reached (Timed.step cfg) Opened (fun _ _ => True) n) :
    Steady n.conn ∧ InTime n.conn n.ticks := by
  refine run.invariant (I := fun n => Steady n.conn ∧ InTime n.conn n.ticks) (fun n h => ⟨steady_accepted h.1, ?_⟩) ?_
  · rw [h.2]
    exact inTime_accepted h.1
  · rintro n l n' ⟨steady, inTime⟩ - hs
    obtain ⟨c, hc, rfl⟩ := Option.map_eq_some_iff.1 hs
    have move := step_move hc
    exact ⟨steady.step move, inTime.step steady move⟩

/-- Whatever a connection waits for, the timer ends it 20 ticks after the read or write code ran. -/
theorem timed_expires (run : Runs.Reached (Timed.step cfg) Opened (fun _ _ => True) n) (rest : n.conn.stack = [])
    (live : n.conn.live = true) : n.ticks < 20 ∧ Expires (20 - n.ticks) n.conn := by
  obtain ⟨timeout, pos⟩ := (timed_invariant run).2 live (by rw [rest]; rfl)
  have ends := expires_timeout live pos
  rw [timeout] at ends pos
  have lt : n.ticks < 20 := by
    unfold httpRequestTimeout at pos
    omega
  rw [show (httpRequestTimeout - (n.ticks : ℤ)).toNat = 20 - n.ticks by unfold httpRequestTimeout; omega] at ends
  exact ⟨lt, ends⟩

/-- In every run, a connection that reads or writes has the timeout that it should have, unless the
    last activity is a complete response: then it should have 120 ticks. -/
theorem expires_allowance (run : Runs.Reached (Timed.step cfg) Opened (fun _ _ => True) n) (rest : n.conn.stack = [])
    (live : n.conn.live = true) :
    Expires (allowance n.conn - n.ticks) n.conn ↔ idle n.conn.events = false := by
  obtain ⟨lt, ends⟩ := timed_expires run rest live
  cases hidle : idle n.conn.events with
  | false =>
    rw [allowance, hidle]
    exact ⟨fun _ => rfl, fun _ => ends⟩
  | true =>
    rw [allowance, hidle]
    constructor
    · intro late
      have := expires_unique late ends
      change 120 - n.ticks = 20 - n.ticks at this
      omega
    · intro none
      cases none

/-- Ten bytes of a response are written, and three ticks have passed. -/
theorem expires_allowance_partly : ∃ n, Runs.Reached (Timed.step {}) Opened (fun _ _ => True) n ∧ n.ticks = 3 ∧
    n.conn.request.state = .write ∧ n.conn.request.bytesWritten = 10 ∧
    (Expires (allowance n.conn - n.ticks) n.conn ↔ idle n.conn.events = false) := by
  have run : ((Runs.exec (Timed.step {}) (handled ++ [.call (.respond {} sessionEnv), .write ⟨10, false⟩, .timerEvent,
      .timerEvent, .timerEvent]) { conn := accepted }).any fun n =>
        decide (n.conn.stack = [] ∧ n.conn.live = true ∧ n.ticks = 3 ∧ n.conn.request.state = .write ∧
          n.conn.request.bytesWritten = 10)) = true := by
    decide +kernel
  obtain ⟨n, hn, hs⟩ := (Option.any_eq_true _ _).1 run
  obtain ⟨rest, live, ticks, state, written⟩ := of_decide_eq_true hs
  have reached : Runs.Reached (Timed.step {}) Opened (fun _ _ => True) n :=
    .exec (.init ⟨accepted_accepted, rfl⟩) hn
  exact ⟨n, reached, ticks, state, written, expires_allowance reached rest live⟩

/-- Twenty ticks after a complete response the connection is gone. -/
theorem idle_expires_early : ∃ n, Runs.Reached (Timed.step {}) Opened (fun _ _ => True) n ∧
    n.conn.stack = [] ∧ n.conn.live = true ∧ n.conn.request.state = .read ∧ idle n.conn.events = true ∧
    ¬ Expires (allowance n.conn - n.ticks) n.conn := by
  have run : ((Runs.exec (Timed.step {}) (handled ++ [.call (.respond {} sessionEnv), .write ⟨98, false⟩, readsOnce .fail] ++
      execs 1) { conn := accepted }).any fun n =>
        decide (n.conn.stack = [] ∧ n.conn.live = true ∧ n.conn.request.state = .read ∧ idle n.conn.events = true)) =
        true := by
    decide +kernel
  obtain ⟨n, hn, hs⟩ := (Option.any_eq_true _ _).1 run
  rw [decide_eq_true_eq] at hs
  have reached : Runs.Reached (Timed.step {}) Opened (fun _ _ => True) n :=
    .exec (.init ⟨accepted_accepted, rfl⟩) hn
  obtain ⟨lt, ends⟩ := timed_expires reached hs.1 hs.2.1
  refine ⟨n, reached, hs.1, hs.2.1, hs.2.2.1, hs.2.2.2, fun late => ?_⟩
  have := expires_unique late ends
  rw [allowance, hs.2.2.2] at this
  change 120 - n.ticks = 20 - n.ticks at this
  omega

end Timer

end HttpServer.Timeouts
