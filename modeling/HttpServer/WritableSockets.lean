import HttpServer.Lib.FairRuns
import HttpServer.ReadableResponses
import HttpServer.WakeUps

set_option autoImplicit false

/-!
# Edge-triggered output

A connection with its socket: the bytes that the send buffer still takes, and whether an event is queued.
`EPOLL_CTL_MOD` to output queues one when there is room, and so does room that is made while output is
watched for. A write takes what fits.
-/
namespace HttpServer.WritableSockets
open ReadBuffer Respond Connection ConnectionSteps ConnectionInvariant HeldRequests AnsweredRequests
  WrittenResponses
open ReadableResponses (after_conn)

section Socket

/-- A connection with its socket. -/
structure Outlet where
  wire : Wire
  room : ℕ := 0
  queued : Bool := false

/-- What a `write` of all that is left may return: as much as there is room for, or a failure. -/
def Outlet.Takes (n : Outlet) (call : WriteCall) : Prop :=
  let left := n.wire.conn.request.buffer.length - n.wire.conn.request.bytesWritten
  (0 < n.room ∨ left = 0) ∧ call.bytes = min left n.room ∨ call.bytes = -1 ∧ (n.room = 0 ∨ call.epipe = true)

instance (n : Outlet) (call : WriteCall) : Decidable (n.Takes call) := inferInstanceAs (Decidable (_ ∧ _ ∨ _ ∧ _))

/-- What the kernel does at an event of the connection. -/
def Outlet.hear (n : Outlet) : Event → Outlet
  | .write bytes => { n with room := n.room - bytes.toNat }
  | .watch .epollout => { n with queued := decide (0 < n.room) }
  | .watch .epollin => { n with queued := false }
  | _ => n

/-- The peer takes some bytes, an event is given up since there is no room, or the connection takes a step. -/
inductive OutletLabel where
  | drains (k : ℕ)
  | drops
  | moves (l : Label)

def Outlet.allows (n : Outlet) : Label → Bool
  | .write call => decide (n.Takes call)
  | _ => true

def Outlet.step (cfg : Config) (n : Outlet) : OutletLabel → Option Outlet
  | .drains k => some { n with
      room := n.room + k, queued := n.queued || decide (0 < k ∧ n.wire.conn.interest = .epollout) }
  | .drops => if n.room = 0 then some { n with queued := false } else none
  | .moves l =>
    if n.allows l then
      (n.wire.step cfg l).map fun wire => (since n.wire.conn wire.conn).foldl Outlet.hear
        { n with wire := wire, queued := n.queued && !WakeUps.delivers l }
    else none

/-- A connection as it was accepted; there may have been room before. -/
def Opened (n : Outlet) : Prop :=
  WrittenResponses.Opened n.wire ∧ (n.wire.conn.interest = .epollout → 0 < n.room → n.queued = true)

variable {cfg : Config} {n n' : Outlet} {l : Label}

theorem hear_wire (events : List Event) (n : Outlet) : (events.foldl Outlet.hear n).wire = n.wire := by
  induction events generalizing n with
  | nil => rfl
  | cons event events ih =>
    refine (ih _).trans ?_
    cases event with
    | watch interest => cases interest <;> rfl
    | _ => rfl

theorem step_moves (h : Outlet.step cfg n (.moves l) = some n') : n.allows l = true ∧
    ∃ c, Connection.step cfg n.wire.conn l = some c ∧ n'.wire = n.wire.after c l ∧
      n' = (since n.wire.conn c).foldl Outlet.hear
        { n with wire := n.wire.after c l, queued := n.queued && !WakeUps.delivers l } := by
  unfold Outlet.step at h
  dsimp only at h
  split at h
  · obtain ⟨w, hw, rfl⟩ := Option.map_eq_some_iff.1 h
    obtain ⟨c, hc, rfl⟩ := Option.map_eq_some_iff.1 hw
    have conn : (n.wire.after c l).conn = c := after_conn _ _ _
    refine ⟨‹_›, c, hc, hear_wire _ _, ?_⟩
    rw [conn]
  · cases h

/-- While the connection writes and no call of `hs_write_socket` is about to happen, an event tells of the room. -/
def Noticed (n : Outlet) : Prop :=
  n.wire.conn.live = true → n.wire.conn.request.state = .write → .writeSocket ∉ n.wire.conn.stack →
    0 < n.room → n.queued = true

theorem not_reading {c : Conn} {frame : Frame} {stack : List Frame} (steady : Steady c)
    (state : c.request.state = .write) (hstack : c.stack = frame :: stack)
    (reads : frame = .readRequest ∨ frame = .parseBuffer) : False :=
  absurd ((steady.reading hstack reads).1.symm.trans state) (by decide)

/-- What is left of a response after a write that goes on: no room is left either. -/
theorem writeMore_left {call : WriteCall} (takes : n.Takes call)
    (fits : 0 ≤ n.wire.conn.request.buffer.length - n.wire.conn.request.bytesWritten ∧ -1 ≤ call.bytes ∧
      call.bytes ≤ n.wire.conn.request.buffer.length - n.wire.conn.request.bytesWritten) (pipe : call.epipe = false)
    (left : (written call n.wire.conn).request.bytesWritten ≠ n.wire.conn.request.buffer.length) :
    n.room - call.bytes.toNat = 0 ∧
      (n.room = 0 → (written call n.wire.conn).request.bytesWritten = n.wire.conn.request.bytesWritten) ∧
      (0 < n.room →
        n.wire.conn.request.bytesWritten < (written call n.wire.conn).request.bytesWritten ∧
          (written call n.wire.conn).request.bytesWritten < n.wire.conn.request.buffer.length) := by
  have count : (written call n.wire.conn).request.bytesWritten =
      if call.bytes > 0 then n.wire.conn.request.bytesWritten + call.bytes else n.wire.conn.request.bytesWritten := rfl
  rw [count] at left ⊢
  unfold Outlet.Takes at takes
  rw [pipe] at takes
  simp only [Bool.false_eq_true, or_false] at takes
  split at left <;> rename_i pos
  · rw [if_pos pos]
    omega
  · rw [if_neg pos]
    omega

theorem Noticed.step (steady : Steady n.wire.conn) (h : Noticed n) (hs : Outlet.step cfg n (.moves l) = some n') :
    Noticed n' := by
  obtain ⟨allowed, c, hc, wire, heard⟩ := step_moves hs
  have conn : n'.wire.conn = c := by rw [wire, after_conn]
  have other : c.live = false ∨ c.request.state ≠ .write ∨ .writeSocket ∈ c.stack → Noticed n' := by
    intro other live state idle
    rw [conn] at live state idle
    rcases other with dead | away | writes
    · exact absurd (dead.symm.trans live) (by decide)
    · exact absurd state away
    · exact absurd writes idle
  -- nothing that the kernel cares about happens
  have still : since n.wire.conn c = [] → WakeUps.delivers l = false → n'.room = n.room ∧ n'.queued = n.queued := by
    intro none silent
    rw [none, silent] at heard
    rw [heard]
    exact ⟨rfl, Bool.and_true _⟩
  have same : since n.wire.conn c = [] → WakeUps.delivers l = false →
      (c.live = true → c.request.state = .write → .writeSocket ∉ c.stack → n.wire.conn.live = true ∧
        n.wire.conn.request.state = .write ∧ .writeSocket ∉ n.wire.conn.stack) → Noticed n' := by
    intro none silent before live state idle room
    obtain ⟨sameRoom, sameQueue⟩ := still none silent
    rw [conn] at live state idle
    rw [sameRoom] at room
    rw [sameQueue]
    obtain ⟨live, state, idle⟩ := before live state idle
    exact h live state idle room
  cases step_move hc with
  | wakeRead live stack state => exact other (.inr (.inl (state.trans_ne (by decide))))
  | wakeWrite => exact other (.inr (.inr List.mem_cons_self))
  | swallow live stack notRead notWrite => exact other (.inr (.inl notWrite))
  | tick => exact same (since_append (List.append_nil _).symm) rfl fun live state idle => ⟨live, state, idle⟩
  | expire => exact other (.inl rfl)
  | readSkip => exact other (.inr (.inl (by simp)))
  | readEof => exact other (.inl rfl)
  | readMore => exact other (.inr (.inl (by simp [filled])))
  | execNone hstack => exact other (.inr (.inl fun state => not_reading steady state hstack (.inr rfl)))
  | execErr => exact other (.inr (.inr List.mem_cons_self))
  | execLine hstack => exact other (.inr (.inl fun state => not_reading steady state hstack (.inr rfl)))
  | execHead => exact other (.inr (.inl nop_ne.1))
  | execSmall => exact other (.inr (.inl nop_ne.1))
  | execFinal => exact other (.inr (.inl nop_ne.1))
  | execPiece => exact other (.inr (.inl nop_ne.1))
  | @writeMore call stack hstack fits pipe left =>
    have news : since n.wire.conn (setTimeout httpRequestTimeout (written call (popped stack n.wire.conn))) =
        [.write call.bytes] := since_append rfl
    rw [news] at heard
    have takes : n.Takes call := of_decide_eq_true allowed
    intro _ _ _ room
    rw [heard] at room
    exact absurd (writeMore_left takes fits pipe left).1 (Nat.pos_iff_ne_zero.1 room)
  | writeErr => exact other (.inl rfl)
  | writeClose => exact other (.inl rfl)
  | writeNext => exact other (.inr (.inl read_ne))
  | writeChunk => exact other (.inr (.inl nop_ne.1))
  | respond => exact other (.inr (.inr List.mem_cons_self))
  | readChunk => exact other (.inr (.inl read_ne))
  | freeBuffer => exact same (since_append (List.append_nil _).symm) rfl fun live state idle => ⟨live, state, idle⟩
  | connection =>
    refine same (since_append (List.append_nil _).symm) rfl fun live state idle => ⟨live, ?_, idle⟩
    rwa [setKeepAlive_state] at state
  | @callbackReturn cb stack hstack =>
    refine same (since_append (List.append_nil _).symm) rfl fun live state idle => ⟨live, state, fun writes => idle ?_⟩
    rw [hstack] at writes
    exact (List.mem_cons.1 writes).resolve_left (by rintro ⟨⟩)
  | finalChunk => exact other (.inr (.inl nop_ne.1))

theorem Noticed.drains (steady : Steady n.wire.conn) (h : Noticed n) (k : ℕ) : Noticed { n with
    room := n.room + k, queued := n.queued || decide (0 < k ∧ n.wire.conn.interest = .epollout) } := by
  intro live state idle room
  change (n.queued || decide (0 < k ∧ n.wire.conn.interest = .epollout)) = true
  rcases Nat.eq_zero_or_pos k with rfl | pos
  · rw [h live state idle room, Bool.true_or]
  · rw [decide_eq_true ⟨pos, steady.writeInterest state⟩, Bool.or_true]

theorem noticed_opened (h : Opened n) : Noticed n := by
  obtain ⟨⟨accepted, -⟩, told⟩ := h
  exact fun _ state _ room => told ((steady_accepted accepted).writeInterest state) room

/-- A step keeps a property of the connection, and what the socket does keeps it too. -/
theorem noticed_step (steady : Steady n.wire.conn) (h : Noticed n) {ol : OutletLabel}
    (hs : Outlet.step cfg n ol = some n') : Steady n'.wire.conn ∧ Noticed n' := by
  cases ol with
  | drains k =>
    cases hs
    exact ⟨steady, h.drains steady k⟩
  | drops =>
    unfold Outlet.step at hs
    dsimp only at hs
    split at hs
    · rename_i full
      cases hs
      exact ⟨steady, fun _ _ _ room => absurd full (Nat.pos_iff_ne_zero.1 room)⟩
    · cases hs
  | moves l =>
    refine ⟨?_, h.step steady hs⟩
    obtain ⟨-, c, hc, wire, -⟩ := step_moves hs
    rw [wire, after_conn]
    exact steady.step (step_move hc)

/-- In every run, whatever user code does: when there is room for what a connection has to write, an event is queued,
    or a write is about to happen. -/
theorem room_noticed (run : Runs.Reached (Outlet.step cfg) Opened (fun _ _ => True) n)
    (live : n.wire.conn.live = true) (state : n.wire.conn.request.state = .write)
    (idle : .writeSocket ∉ n.wire.conn.stack) (room : 0 < n.room) : n.queued = true := by
  have start : ∀ n, Opened n → Steady n.wire.conn ∧ Noticed n := fun n h =>
    ⟨steady_accepted h.1.1, noticed_opened h⟩
  obtain ⟨-, noticed⟩ := run.invariant start fun n l n' inv _ hs => noticed_step inv.1 inv.2 hs
  exact noticed live state idle room

def answering : Outlet := { wire := { conn := accepted }, room := 10 }

theorem opened_answering : Opened answering := ⟨⟨accepted_accepted, rfl, rfl, rfl⟩, by rintro ⟨⟩⟩

/-- A response of 98 bytes, of which the socket takes ten. -/
def answers : List OutletLabel :=
  (handled ++ [Label.call (.respond {} sessionEnv), .write ⟨10, false⟩]).map .moves

/-- The peer takes some of the ten bytes. -/
theorem room_noticed_get : ∃ n, Runs.Reached (Outlet.step {}) Opened (fun _ _ => True) n ∧ n.room = 4 ∧
    n.queued = true := by
  have run : ((Runs.exec (Outlet.step {}) (answers ++ [.drains 4]) answering).any fun n =>
      decide (n.wire.conn.live = true ∧ n.wire.conn.request.state = .write ∧ .writeSocket ∉ n.wire.conn.stack ∧
        n.room = 4)) = true := by
    decide +kernel
  obtain ⟨n, hn, hs⟩ := (Option.any_eq_true _ _).1 run
  rw [decide_eq_true_eq] at hs
  obtain ⟨live, state, idle, room⟩ := hs
  have reached : Runs.Reached (Outlet.step {}) Opened (fun _ _ => True) n := .exec (.init opened_answering) hn
  exact ⟨n, reached, room, room_noticed reached live state idle (by rw [room]; decide)⟩

end Socket

section Progress

/-- The condition on a step: user code calls while a call is outstanding, asks only for more in the callback of a final
    piece, and makes one response at a time. -/
def WriteOk (n : Outlet) (l : OutletLabel) : Prop :=
  ∀ m, l = .moves m → Asked n.wire.conn m ∧ Finishing n.wire.conn m ∧ OneAtATime n.wire m

instance (n : Outlet) (l : OutletLabel) : Decidable (WriteOk n l) :=
  match l with
  | .drains _ | .drops => isTrue fun _ h => by cases h
  | .moves m => decidable_of_iff (Asked n.wire.conn m ∧ Finishing n.wire.conn m ∧ OneAtATime n.wire m)
      ⟨fun h _ hl => by cases hl; exact h, fun h => h m rfl⟩

/-- Whose turn it is while a response is written. -/
inductive Turn where
  | peer | wake | write | callback

def Possible : Turn → Outlet → Prop
  | .peer, n => n.room = 0
  | .wake, n => n.wire.conn.live = true ∧ n.wire.conn.stack = [] ∧ n.queued = true
  | .write, n => n.wire.conn.stack.head? = some .writeSocket
  | .callback, n => ∃ cb, n.wire.conn.stack.head? = some (.callback cb)

def Taken : Turn → OutletLabel → Prop
  | .peer, l => ∃ k, 0 < k ∧ l = .drains k
  | .wake, l => l = .moves .socketEvent
  | .write, l => ∃ call, l = .moves (.write call)
  | .callback, l => l = .moves .callbackReturn

structure Writing (text : List UInt8) (complete : List (List UInt8)) (n : Outlet) : Prop where
  live : n.wire.conn.live = true
  state : n.wire.conn.request.state = .write
  current_eq : n.wire.current = some text
  complete_eq : n.wire.complete = complete

/-- The response was written and the socket has accepted all bytes of it, or the connection was closed. -/
def Ends (text : List UInt8) (complete : List (List UInt8)) (n : Outlet) : Prop :=
  n.wire.complete = complete ++ [text] ∧ n.wire.accepted = (complete ++ [text]).flatten ∨ n.wire.conn.live = false

def left (c : Conn) : ℕ := (c.request.buffer.length - c.request.bytesWritten).toNat

def depth : List Frame → ℕ
  | .writeSocket :: _ => 0
  | stack => stack.length + 1

def turn : List Frame → Turn
  | [] => .wake
  | .writeSocket :: _ => .write
  | _ => .callback

def helpful (n : Outlet) : Turn := if n.room = 0 then .peer else turn n.wire.conn.stack

/-- The bytes that are left, and how far the code is from writing some of them. -/
def rank (n : Outlet) : ℕ ×ₗ WithTop ℕ :=
  toLex (left n.wire.conn, if n.room = 0 then ⊤ else (depth n.wire.conn.stack : WithTop ℕ))

structure Sound (n : Outlet) : Prop where
  steady : Steady n.wire.conn
  held : Holding n.wire.conn
  buffered : Buffered n.wire.conn
  kept : Kept n.wire.conn
  order : InOrder n.wire
  noticed : Noticed n

variable {cfg : Config} {n n' : Outlet} {c : Conn} {l : Label} {ol : OutletLabel} {text : List UInt8}
  {complete : List (List UInt8)}

theorem sound_reached (run : Runs.Reached (Outlet.step cfg) Opened WriteOk n) : Sound n := by
  refine run.invariant (fun n h => ?_) ?_
  · have accepted := h.1.1
    exact ⟨steady_accepted accepted, holding_accepted accepted, buffered_accepted accepted, kept_accepted accepted,
      inOrder_opened h.1, noticed_opened h⟩
  · rintro n ol n' ⟨steady, held, buffered, kept, order, noticed⟩ ok hs
    obtain ⟨steady', noticed'⟩ := noticed_step steady noticed hs
    cases ol with
    | drains k =>
      cases hs
      exact ⟨steady, held, buffered, kept, order, noticed'⟩
    | drops =>
      unfold Outlet.step at hs
      dsimp only at hs
      split at hs
      · cases hs
        exact ⟨steady, held, buffered, kept, order, noticed'⟩
      · cases hs
    | moves l =>
      obtain ⟨asked, finishing, one⟩ := ok l rfl
      obtain ⟨-, c, hc, wire, -⟩ := step_moves hs
      have move := step_move hc
      refine ⟨steady', ?_, ?_, ?_, ?_, noticed'⟩ <;> rw [wire]
      · rw [after_conn]
        exact held.step steady move
      · rw [after_conn]
        exact buffered.step steady held asked move
      · rw [after_conn]
        exact kept.step steady held buffered asked finishing move
      · exact order.step steady one hc

theorem Sound.possible (sound : Sound n) (h : Writing text complete n) : Possible (helpful n) n := by
  unfold helpful
  by_cases full : n.room = 0
  · rw [if_pos full]
    exact full
  rw [if_neg full]
  cases hstack : n.wire.conn.stack with
  | nil => exact ⟨h.live, hstack, sound.noticed h.live h.state (by rw [hstack]; simp) (Nat.pos_of_ne_zero full)⟩
  | cons frame stack =>
    cases frame with
    | readRequest => exact (not_reading sound.steady h.state hstack (.inl rfl)).elim
    | parseBuffer => exact (not_reading sound.steady h.state hstack (.inr rfl)).elim
    | writeSocket =>
      change n.wire.conn.stack.head? = _
      rw [hstack]
      rfl
    | callback cb =>
      refine ⟨cb, ?_⟩
      rw [hstack]
      rfl
    | finalChunk serial =>
      exact absurd h.state (sound.kept.final serial (by rw [hstack]; exact List.mem_cons_self)).state_ne

theorem onTheWay_level (h : Writing text complete n') (same : left n'.wire.conn = left n.wire.conn)
    (room : n'.room = 0 ↔ n.room = 0) (place : n.room = 0 ∨ n'.wire.conn.stack = n.wire.conn.stack)
    (other : ¬ Taken (helpful n) ol) :
    Runs.OnTheWay (Writing text complete) (Ends text complete) Taken rank helpful n ol n' := by
  refine .inr ⟨h, .inr ⟨?_, ?_, other⟩⟩
  · unfold rank
    by_cases full : n.room = 0
    · rw [same, if_pos full, if_pos (room.2 full)]
    · rw [same, if_neg full, if_neg (mt room.1 full), place.resolve_left full]
  · unfold helpful
    by_cases full : n.room = 0
    · rw [if_pos full, if_pos (room.2 full)]
    · rw [if_neg full, if_neg (mt room.1 full), place.resolve_left full]

theorem taken_moves (h : Taken (helpful n) ol) : n.room = 0 ∧ (∃ k, 0 < k ∧ ol = .drains k) ∨ ∃ m, ol = .moves m := by
  unfold helpful at h
  by_cases full : n.room = 0
  · rw [if_pos full] at h
    exact .inl ⟨full, h⟩
  rw [if_neg full] at h
  refine .inr ?_
  unfold turn at h
  split at h
  · exact ⟨_, h⟩
  · obtain ⟨call, h⟩ := h
    exact ⟨_, h⟩
  · exact ⟨_, h⟩

theorem onTheWay_written (h : Writing text complete n') (less : left n'.wire.conn < left n.wire.conn) :
    Runs.OnTheWay (Writing text complete) (Ends text complete) Taken rank helpful n ol n' :=
  .inr ⟨h, .inl (Prod.Lex.toLex_lt_toLex.2 (.inl less))⟩

theorem onTheWay_nearer (h : Writing text complete n') (same : left n'.wire.conn = left n.wire.conn)
    (room' : n'.room ≠ 0) (nearer : n.room = 0 ∨ depth n'.wire.conn.stack < depth n.wire.conn.stack) :
    Runs.OnTheWay (Writing text complete) (Ends text complete) Taken rank helpful n ol n' := by
  refine .inr ⟨h, .inl (Prod.Lex.toLex_lt_toLex.2 (.inr ⟨same, ?_⟩))⟩
  dsimp only
  rw [if_neg room']
  by_cases full : n.room = 0
  · rw [if_pos full]
    exact WithTop.coe_lt_top _
  · rw [if_neg full]
    exact WithTop.coe_lt_coe.2 (nearer.resolve_left full)

theorem ends_completed {call : WriteCall} (order : InOrder (n.wire.after c (.write call)))
    (h : Writing text complete n) (wire : n'.wire = n.wire.after c (.write call))
    (rc : succeeds (writeRc call n.wire.conn) = true) : Ends text complete n' := by
  have after : n.wire.after c (.write call) = { conn := c, accepted := n.wire.accepted ++ delivered call n.wire.conn
                                                complete := n.wire.complete ++ [n.wire.current.getD []] } := if_pos rc
  have whole := order.accepted_eq
  have list : (n.wire.after c (.write call)).complete = complete ++ [text] := by
    rw [after, h.current_eq, h.complete_eq]
    rfl
  have free : (n.wire.after c (.write call)).current = none := by rw [after]
  rw [list, free] at whole
  refine .inl ?_
  rw [wire]
  exact ⟨list, by simpa using whole⟩

theorem depth_pop (cb : Callback) (stack : List Frame) : depth stack < depth (.callback cb :: stack) := by
  have le : depth stack ≤ stack.length + 1 := by
    unfold depth
    split
    · exact Nat.zero_le _
    · exact le_refl _
  exact Nat.lt_succ_of_le le

theorem room_still (heard : n' = (since n.wire.conn c).foldl Outlet.hear
      { n with wire := n.wire.after c l, queued := n.queued && !WakeUps.delivers l })
    (none : since n.wire.conn c = []) : n'.room = n.room := by
  rw [none] at heard
  rw [heard]
  rfl

theorem Writing.moves (sound : Sound n) (h : Writing text complete n) (ok : WriteOk n (.moves l))
    (hs : Outlet.step cfg n (.moves l) = some n') :
    Runs.OnTheWay (Writing text complete) (Ends text complete) Taken rank helpful n (.moves l) n' := by
  obtain ⟨asked, finishing, one⟩ := ok l rfl
  obtain ⟨allowed, c, hc, wire, heard⟩ := step_moves hs
  have conn : n'.wire.conn = c := by rw [wire, after_conn]
  have order := sound.order.step sound.steady one hc
  have dead : c.live = false → Runs.OnTheWay (Writing text complete) (Ends text complete) Taken rank helpful n
      (.moves l) n' := fun dead => .inl (.inr (conn ▸ dead))
  have reading : ∀ {frame stack}, n.wire.conn.stack = frame :: stack →
      frame = .readRequest ∨ frame = .parseBuffer → False := not_reading sound.steady h.state
  have calls : ∀ call, l = .call call → False := fun call hl =>
    absurd ((sound.held.1 (asked call hl)).symm.trans h.state) (by decide)
  -- the response in progress is the same one
  have stays : (n.wire.after c l).current = n.wire.current → (n.wire.after c l).complete = n.wire.complete →
      c.live = true → c.request.state = .write → Writing text complete n' := by
    intro current list live state
    refine ⟨conn ▸ live, conn ▸ state, ?_, ?_⟩ <;> rw [wire]
    · exact current.trans h.current_eq
    · exact list.trans h.complete_eq
  cases step_move hc with
  | wakeRead live stack state => exact absurd (state.symm.trans h.state) (by decide)
  | wakeWrite live stack state =>
    have none : since n.wire.conn (n.wire.conn.push .writeSocket) = [] := since_append (List.append_nil _).symm
    have writing := stays (by change (started _).or _ = _; rw [none]; rfl) rfl live state
    have room := room_still heard none
    have same : left n'.wire.conn = left n.wire.conn := by rw [conn]; rfl
    by_cases full : n.room = 0
    · refine onTheWay_level writing same (by rw [room]) (.inl full) ?_
      unfold helpful
      rw [if_pos full]
      rintro ⟨k, -, ⟨⟩⟩
    · refine onTheWay_nearer writing same (room.trans_ne full) (.inr ?_)
      rw [conn, stack]
      exact Nat.zero_lt_one
  | swallow live stack notRead notWrite => exact absurd h.state notWrite
  | tick live stack =>
    have none : since n.wire.conn (setTimeout (n.wire.conn.request.timeout - 1) n.wire.conn) = [] :=
      since_append (List.append_nil _).symm
    have writing := stays (by change (started _).or _ = _; rw [none]; rfl) rfl live h.state
    refine onTheWay_level writing (by rw [conn]; rfl) (by rw [room_still heard none]) (.inr (by rw [conn]; rfl)) ?_
    unfold helpful
    rw [stack]
    split
    · rintro ⟨k, -, ⟨⟩⟩
    · rintro ⟨⟩
  | expire => exact dead rfl
  | readSkip hstack => exact (reading hstack (.inl rfl)).elim
  | readEof hstack => exact (reading hstack (.inl rfl)).elim
  | readMore hstack => exact (reading hstack (.inl rfl)).elim
  | execNone hstack => exact (reading hstack (.inr rfl)).elim
  | execErr hstack => exact (reading hstack (.inr rfl)).elim
  | execLine hstack => exact (reading hstack (.inr rfl)).elim
  | execHead hstack => exact (reading hstack (.inr rfl)).elim
  | execSmall hstack => exact (reading hstack (.inr rfl)).elim
  | execFinal hstack => exact (reading hstack (.inr rfl)).elim
  | execPiece hstack => exact (reading hstack (.inr rfl)).elim
  | @writeMore call stack hstack fits pipe more =>
    have goesOn : succeeds (writeRc call n.wire.conn) = false := by
      unfold writeRc
      rw [if_neg (by rw [pipe]; decide), if_pos more]
      rfl
    have after : n.wire.after (setTimeout httpRequestTimeout (written call (popped stack n.wire.conn))) (.write call) =
        { n.wire with conn := setTimeout httpRequestTimeout (written call (popped stack n.wire.conn))
                      accepted := n.wire.accepted ++ delivered call n.wire.conn } := if_neg (by rw [goesOn]; decide)
    have writing := stays (by rw [after]) (by rw [after]) h.live h.state
    have takes : n.Takes call := of_decide_eq_true allowed
    obtain ⟨noRoom, none, some⟩ := writeMore_left takes fits pipe more
    have room' : n'.room = n.room - call.bytes.toNat := by
      have news : since n.wire.conn (setTimeout httpRequestTimeout (written call (popped stack n.wire.conn))) =
          [.write call.bytes] := since_append rfl
      rw [news] at heard
      rw [heard]
      rfl
    have count : left n'.wire.conn = (n.wire.conn.request.buffer.length -
        (written call n.wire.conn).request.bytesWritten).toNat := by rw [conn]; rfl
    by_cases full : n.room = 0
    · refine onTheWay_level writing ?_ (iff_of_true (room'.trans noRoom) full) (.inl full) ?_
      · rw [count, none full]
        rfl
      · unfold helpful
        rw [if_pos full]
        rintro ⟨k, -, ⟨⟩⟩
    · refine onTheWay_written writing ?_
      obtain ⟨less, inside⟩ := some (Nat.pos_of_ne_zero full)
      rw [count]
      unfold left
      omega
  | writeErr => exact dead rfl
  | writeClose => exact dead rfl
  | writeNext hstack pipe all whole keep =>
    refine .inl (ends_completed order h wire ?_)
    rw [writeRc_flags pipe all, whole, keep]
    rfl
  | writeChunk hstack pipe all chunk =>
    refine .inl (ends_completed order h wire ?_)
    rw [writeRc_flags pipe all, chunk]
    rfl
  | respond => exact (calls _ rfl).elim
  | readChunk => exact (calls _ rfl).elim
  | freeBuffer => exact (calls _ rfl).elim
  | connection => exact (calls _ rfl).elim
  | @callbackReturn cb stack hstack =>
    have none : since n.wire.conn (popped stack n.wire.conn) = [] := since_append (List.append_nil _).symm
    have writing := stays (by change (started _).or _ = _; rw [none]; rfl) rfl h.live h.state
    have room := room_still heard none
    have same : left n'.wire.conn = left n.wire.conn := by rw [conn]; rfl
    by_cases full : n.room = 0
    · refine onTheWay_level writing same (by rw [room]) (.inl full) ?_
      unfold helpful
      rw [if_pos full]
      rintro ⟨k, -, ⟨⟩⟩
    · refine onTheWay_nearer writing same (room.trans_ne full) (.inr ?_)
      rw [conn, hstack]
      exact depth_pop cb stack
  | finalChunk hstack =>
    exact absurd h.state (sound.kept.final _ (by rw [hstack]; exact List.mem_cons_self)).state_ne

theorem Writing.step (sound : Sound n) (h : Writing text complete n) (ok : WriteOk n ol)
    (hs : Outlet.step cfg n ol = some n') :
    Runs.OnTheWay (Writing text complete) (Ends text complete) Taken rank helpful n ol n' := by
  cases ol with
  | drains k =>
    cases hs
    have writing : Writing text complete { n with
        room := n.room + k, queued := n.queued || decide (0 < k ∧ n.wire.conn.interest = .epollout) } :=
      ⟨h.live, h.state, h.current_eq, h.complete_eq⟩
    by_cases nearer : n.room = 0 ∧ 0 < k
    · exact onTheWay_nearer writing rfl (by change n.room + k ≠ 0; omega) (.inl nearer.1)
    · refine onTheWay_level writing rfl (by change n.room + k = 0 ↔ n.room = 0; omega) (.inr rfl) fun taken => ?_
      obtain ⟨full, k', pos, same⟩ | ⟨m, other⟩ := taken_moves taken
      · cases same
        exact nearer ⟨full, pos⟩
      · cases other
  | drops =>
    unfold Outlet.step at hs
    dsimp only at hs
    split at hs
    · rename_i full
      cases hs
      have writing : Writing text complete { n with queued := false } := ⟨h.live, h.state, h.current_eq, h.complete_eq⟩
      refine onTheWay_level writing rfl Iff.rfl (.inl full) ?_
      unfold helpful
      rw [if_pos full]
      rintro ⟨k, -, ⟨⟩⟩
    · cases hs
  | moves l => exact h.moves sound ok hs

/-- In every fair run a response that was started is written completely, in whatever pieces the peer takes it, unless
    the connection is closed before. -/
theorem response_finishes (run : Runs.Infinite (Outlet.step cfg) Opened WriteOk)
    (fair : ∀ k, run.Fair (Possible k) (Taken k)) (text : List UInt8) (complete : List (List UInt8)) :
    run.LeadsTo (Writing text complete) (Ends text complete) := by
  refine .by_rank rank helpful fair (fun n reached h => (sound_reached reached).possible h) ?_
  exact fun n ol n' reached ok hs h => h.step (sound_reached reached) ok hs

/-- Room for one more byte again and again, while the connection reads. -/
def idling (n : Outlet) (loop : n.wire.conn.interest = .epollin) : Runs.Infinite (Outlet.step cfg) (· = n) WriteOk where
  state t := { n with room := n.room + t }
  label _ := .drains 1
  starts := rfl
  meets t := by
    intro m h
    cases h
  goes t := by
    unfold Outlet.step
    simp [loop, Nat.add_assoc]

theorem idling_fair (loop : n.wire.conn.interest = .epollin) (stack : n.wire.conn.stack = []) (quiet : n.queued = false)
    (k : Turn) : (@idling cfg n loop).Fair (Possible k) (Taken k) := by
  intro t possible
  have now := possible (t + 1) (Nat.le_succ t)
  cases k with
  | peer => exact absurd now (Nat.succ_ne_zero _)
  | wake => exact absurd (quiet.symm.trans now.2.2) (by decide)
  | write =>
    change n.wire.conn.stack.head? = _ at now
    rw [stack] at now
    cases now
  | callback =>
    obtain ⟨cb, now⟩ := now
    change n.wire.conn.stack.head? = _ at now
    rw [stack] at now
    cases now

def finishes : List OutletLabel :=
  .drains 100 :: (Label.socketEvent :: .write ⟨88, false⟩ :: readsOnce .fail :: execs 1).map .moves

theorem response_finishes_get : ∃ run : Runs.Infinite (Outlet.step {}) Opened WriteOk,
    (∀ k, run.Fair (Possible k) (Taken k)) ∧ ∃ t u text, Writing text [] (run.state t) ∧ t ≤ u ∧
      Ends text [] (run.state u) := by
  have first : ((Runs.exec (Runs.guarded (Outlet.step {}) WriteOk) answers answering).any fun n =>
        decide (n.wire.conn.live = true ∧ n.wire.conn.request.state = .write ∧ n.wire.current.isSome = true ∧
          n.wire.complete = []) && ((Runs.exec (Runs.guarded (Outlet.step {}) WriteOk) finishes n).any fun n =>
            decide (n.wire.conn.interest = .epollin ∧ n.wire.conn.stack = [] ∧ n.queued = false))) = true := by
    decide +kernel
  obtain ⟨n, hn, h⟩ := (Option.any_eq_true _ _).1 first
  obtain ⟨writes, second⟩ := Bool.and_eq_true_iff.1 h
  obtain ⟨n', hn', idle⟩ := (Option.any_eq_true _ _).1 second
  rw [decide_eq_true_eq] at writes idle
  obtain ⟨live, state, text, complete⟩ := writes
  obtain ⟨loop, stack, quiet⟩ := idle
  obtain ⟨text, current⟩ := Option.isSome_iff_exists.1 text
  obtain ⟨rest, fairRest, -⟩ := @Runs.Infinite.prepended _ _ _ _ (· = n) _ _ _ _ _ _ _ rfl hn' (idling n' loop)
    (idling_fair loop stack quiet)
  obtain ⟨run, fair, same⟩ := Runs.Infinite.prepended opened_answering hn rest fairRest
  obtain ⟨t, here⟩ : ∃ t, run.state t = n := ⟨_, (same 0).trans rest.starts⟩
  have writing : Writing text [] (run.state t) := by
    rw [here]
    exact ⟨live, state, current, complete⟩
  obtain ⟨u, later, ends⟩ := response_finishes run fair text [] t writing
  exact ⟨run, fair, t, u, text, writing, later, ends⟩

end Progress

end HttpServer.WritableSockets
