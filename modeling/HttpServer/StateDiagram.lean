import HttpServer.HeldRequests
import HttpServer.Lib.Simulation

set_option autoImplicit false

/-!
# The state diagram of a connection

state_diagram.uml draws what a connection does. The code follows it, with six arrows more.
-/
namespace HttpServer.StateDiagram
open HttpServer.Parser ReadBuffer RequestUtil Respond Connection ConnectionSteps ConnectionInvariant HeldRequests

/-- The boxes of the diagram, with its start and its end. -/
inductive Box where
  | start | read | waitRead | parseHttp | requestCallback | chunkCallback | write | waitWrite | ended
deriving DecidableEq

/-- The arrows of the diagram by their labels, and those that it does not draw: a server without memory, a
    parse error, the end of the stream, a broken pipe, the timer, and the end of a body. -/
inductive Arrow where
  | accepted | hsParse | hsConnectionIoCb | requestReady | chunkReady | notReady | httpRespond
  | httpRequestReadChunk | connectionClose | ewouldblock | keepAlive | chunked
  | refused | badRequest | peerClosed | brokenPipe | timeout | bodyEnd
deriving DecidableEq

/-- The boxes that wait for an event or for user code. -/
def Box.waiting : Box → Bool
  | .waitRead | .waitWrite | .requestCallback | .chunkCallback => true
  | _ => false

def follow : Box → Arrow → Option Box
  | .start, .accepted => some .read
  | .read, .hsParse => some .parseHttp
  | .waitRead, .hsConnectionIoCb => some .read
  | .parseHttp, .requestReady => some .requestCallback
  | .parseHttp, .chunkReady => some .chunkCallback
  | .parseHttp, .notReady => some .waitRead
  | .requestCallback, .httpRespond => some .write
  | .requestCallback, .httpRequestReadChunk => some .read
  | .chunkCallback, .httpRequestReadChunk => some .read
  | .chunkCallback, .httpRespond => some .write
  | .write, .connectionClose => some .ended
  | .write, .ewouldblock => some .waitWrite
  | .write, .keepAlive => some .read
  | .write, .chunked => some .chunkCallback
  | .waitWrite, .hsConnectionIoCb => some .write
  -- not in the diagram
  | .start, .refused => some .write
  | .parseHttp, .badRequest => some .write
  | .read, .peerClosed => some .ended
  | .write, .brokenPipe => some .ended
  | box, .timeout => if box.waiting then some .ended else none
  | box, .bodyEnd => if box.waiting then some .chunkCallback else none
  | _, _ => none

/-- What user code and the peer see of a connection. -/
inductive Sight where
  | handler | chunk | answer | write | responded | closed
deriving DecidableEq

def Arrow.sights : Arrow → List Sight
  | .requestReady => [.handler]
  | .chunkReady | .bodyEnd => [.chunk]
  | .httpRespond | .badRequest | .refused => [.answer]
  | .ewouldblock => [.write]
  | .keepAlive => [.write, .responded]
  | .connectionClose => [.write, .responded, .closed]
  | .chunked => [.write, .chunk]
  | .brokenPipe => [.write, .closed]
  | .peerClosed | .timeout => [.closed]
  | _ => []

def sight : Event → List Sight
  | .invoke _ .requestHandler _ => [.handler]
  | .invoke _ .chunkCb _ => [.chunk]
  | .response _ => [.answer]
  | .write _ => [.write]
  | .responded _ => [.responded]
  | .terminate => [.closed]
  | _ => []

def calledBack : Event → Option Callback
  | .invoke _ cb _ => some cb
  | _ => none

def lastCallback (events : List Event) : Option Callback := events.reverse.findSome? calledBack

/-- The box of a connection of which only callbacks are on the stack. -/
def waitBox (state : HttpSession) (events : List Event) : Box :=
  match state with
  | .read => .waitRead
  | .write => .waitWrite
  | _ => if lastCallback events = some .requestHandler then .requestCallback else .chunkCallback

def box (c : Conn) : Box :=
  if c.live then
    match c.stack with
    | .readRequest :: _ => .read
    | .parseBuffer :: _ => .parseHttp
    | .writeSocket :: _ => .write
    | _ => waitBox c.request.state c.events
  else .ended

section Boxes

variable {c : Conn} {stack : List Frame} {events more : List Event}

theorem box_dead (dead : c.live = false) : box c = .ended := by
  simp [box, dead]

theorem box_waits (live : c.live = true) (below : ∀ f ∈ c.stack, waits f = true) :
    box c = waitBox c.request.state c.events := by
  unfold box
  rw [if_pos live]
  cases hstack : c.stack with
  | nil => rfl
  | cons frame stack =>
    have top := below frame (by simp [hstack])
    cases frame <;> first | rfl | cases top

theorem box_library {frame : Frame} (live : c.live = true) (hstack : c.stack = frame :: stack) :
    (frame = .readRequest → box c = .read) ∧ (frame = .parseBuffer → box c = .parseHttp) ∧
      (frame = .writeSocket → box c = .write) := by
  unfold box
  rw [if_pos live, hstack]
  refine ⟨?_, ?_, ?_⟩ <;> rintro rfl <;> rfl

theorem box_beginRead (live : c.live = true) : box (hsRequestBeginRead c) = .read := by
  unfold box
  rw [if_pos (show (hsRequestBeginRead c).live = true from live)]
  rfl

theorem box_beginWrite (live : c.live = true) : box (hsRequestBeginWrite c) = .write := by
  unfold box
  rw [if_pos (show (hsRequestBeginWrite c).live = true from live)]
  rfl

theorem waiting_waitBox (state : HttpSession) (events : List Event) : (waitBox state events).waiting = true := by
  unfold waitBox
  split
  · rfl
  · rfl
  · split <;> rfl

theorem lastCallback_append (events more : List Event) :
    lastCallback (events ++ more) = (lastCallback more).or (lastCallback events) := by
  unfold lastCallback
  rw [List.reverse_append, List.findSome?_append]

theorem asked_box (state : c.request.state = .nop) :
    waitBox c.request.state c.events = .requestCallback ∨ waitBox c.request.state c.events = .chunkCallback := by
  rw [state]
  change (if lastCallback c.events = some .requestHandler then Box.requestCallback else .chunkCallback) = _ ∨
    (if lastCallback c.events = some .requestHandler then Box.requestCallback else .chunkCallback) = _
  split
  · exact .inl rfl
  · exact .inr rfl

theorem box_called (serial : ℕ) (cb : Callback) (live : c.live = true) (below : ∀ f ∈ c.stack, waits f = true) :
    box (invoked serial cb c) = if cb = .requestHandler then .requestCallback else .chunkCallback := by
  have above : ∀ f ∈ (invoked serial cb c).stack, waits f = true := by
    intro f hf
    rcases List.mem_cons.1 hf with rfl | hf
    · rfl
    · exact below f hf
  have last : lastCallback (c.events ++ [.invoke serial cb { c.request with state := .nop }]) = some cb := by
    rw [lastCallback_append]
    rfl
  rw [box_waits (c := invoked serial cb c) live above]
  change (if lastCallback (c.events ++ [.invoke serial cb { c.request with state := .nop }]) = some .requestHandler
    then Box.requestCallback else .chunkCallback) = _
  rw [last]
  cases cb <;> rfl

end Boxes

section Steps

variable {cfg : Config} {c c' : Conn} {l : Label} {stack : List Frame}

/-- The diagram follows a step, and shows what the step shows. -/
def Drawn (c c' : Conn) : Prop :=
  ∃ more, c'.events = c.events ++ more ∧ Runs.Follows follow Arrow.sights (box c) (box c') (more.flatMap sight)

theorem Drawn.stay (more : List Event) (events : c'.events = c.events ++ more) (quiet : more.flatMap sight = [])
    (same : box c' = box c) : Drawn c c' := by
  refine ⟨more, events, ?_⟩
  rw [quiet, same]
  exact .refl _

theorem Drawn.along (arrow : Arrow) (more : List Event) (events : c'.events = c.events ++ more)
    (shows : more.flatMap sight = arrow.sights) (h : follow (box c) arrow = some (box c')) : Drawn c c' := by
  refine ⟨more, events, ?_⟩
  rw [shows]
  exact .single h

theorem follow_waiting {b : Box} (h : b.waiting = true) :
    follow b .timeout = some .ended ∧ follow b .bodyEnd = some .chunkCallback := by
  cases b <;> first | exact ⟨rfl, rfl⟩ | cases h

theorem box_reading (steady : Steady c) (hstack : c.stack = .readRequest :: stack) : box c = .read :=
  (box_library (c := c) (steady.library hstack rfl).live hstack).1 rfl

theorem box_parsing (steady : Steady c) (hstack : c.stack = .parseBuffer :: stack) : box c = .parseHttp :=
  (box_library (c := c) (steady.library hstack rfl).live hstack).2.1 rfl

theorem box_writing (steady : Steady c) (hstack : c.stack = .writeSocket :: stack) : box c = .write :=
  (box_library (c := c) (steady.library hstack rfl).live hstack).2.2 rfl

theorem box_idle (live : c.live = true) (hstack : c.stack = []) : box c = waitBox c.request.state c.events :=
  box_waits live (by simp [hstack])

theorem box_user (steady : Steady c) (user : userRuns c.stack = true) (live : c.live = true) :
    box c = waitBox c.request.state c.events :=
  box_waits live (steady.user user live).stack

theorem drawn_socket (move : Move cfg c .socketEvent c') : Drawn c c' := by
  cases move with
  | wakeRead live hstack state =>
    refine .along .hsConnectionIoCb [] (List.append_nil _).symm rfl ?_
    rw [box_idle live hstack, state, ((box_library (c := c.push .readRequest) live rfl).1 rfl)]
    rfl
  | wakeWrite live hstack state =>
    refine .along .hsConnectionIoCb [] (List.append_nil _).symm rfl ?_
    rw [box_idle live hstack, state, ((box_library (c := c.push .writeSocket) live rfl).2.2 rfl)]
    rfl
  | swallow => exact .stay [] (List.append_nil _).symm rfl rfl

theorem drawn_timer (move : Move cfg c .timerEvent c') : Drawn c c' := by
  cases move with
  | tick => exact .stay [] (List.append_nil _).symm rfl rfl
  | expire live hstack =>
    refine .along .timeout [.terminate] rfl rfl ?_
    rw [box_idle live hstack, box_dead (c := hsRequestTerminateConnection _) rfl]
    exact (follow_waiting (waiting_waitBox _ _)).1

theorem drawn_read {env : ReadEnv} (steady : Steady c) (move : Move cfg c (.read env) c') : Drawn c c' := by
  cases move with
  | @readSkip env stack hstack =>
    have live : (entered cfg env (popped stack c)).live = true := (entered_live _ _).trans (steady.library hstack rfl).live
    refine .along .hsParse [] ?_ rfl ?_
    · rw [push_events, entered_events]
      exact (List.append_nil _).symm
    · rw [box_reading steady hstack, (box_library (c := (entered cfg env (popped stack c)).push .parseBuffer) live rfl).2.1 rfl]
      rfl
  | @readEof env stack r hstack =>
    refine .along .peerClosed [.read (env.readCalls.map ReadCall.result), .terminate] ?_ rfl ?_
    · simp [hsRequestTerminateConnection, filled, popped]
    · rw [box_reading steady hstack, box_dead (c := hsRequestTerminateConnection _) rfl]
      rfl
  | @readMore env stack r hstack =>
    have live : (filled env r (entered cfg env (popped stack c))).live = true :=
      (entered_live _ _).trans (steady.library hstack rfl).live
    refine .along .hsParse [.read (env.readCalls.map ReadCall.result)] ?_ rfl ?_
    · simp [filled, popped]
    · rw [box_reading steady hstack,
        (box_library (c := (filled env r (entered cfg env (popped stack c))).push .parseBuffer) live rfl).2.1 rfl]
      rfl

theorem drawn_exec {blk : Block} {env : RespondEnv} (steady : Steady c) (move : Move cfg c (.exec blk env) c') :
    Drawn c c' := by
  cases move with
  | @execNone _ _ stack _ parser buffer hstack =>
    have below : ∀ f ∈ (parsed parser buffer (popped stack c)).stack, waits f = true := steady.below_popped hstack
    refine .along .notReady [] (List.append_nil _).symm rfl ?_
    rw [box_parsing steady hstack, box_waits (c := parsed parser buffer (popped stack c)) (steady.library hstack rfl).live below]
    change _ = some (waitBox c.request.state c.events)
    rw [(steady.reading hstack (.inr rfl)).1]
    rfl
  | @execErr _ _ stack _ parser buffer request memused hstack =>
    refine .along .badRequest [.parseErr, .response request, .watch .epollout] ?_ rfl ?_
    · simp [hsRequestBeginWrite, answered, parsed, popped]
    · rw [box_parsing steady hstack, box_beginWrite]
      · rfl
      · exact (steady.library hstack rfl).live
  | @execLine _ _ stack token parser buffer hstack =>
    refine .stay [.push c.serial token] rfl rfl ?_
    rw [box_parsing steady hstack]
    exact (box_library (c := (hsTokenArrayPush c.serial token (parsed parser buffer (popped stack c))).push .parseBuffer)
      (steady.library hstack rfl).live rfl).2.1 rfl
  | @execHead _ _ stack token parser buffer hstack =>
    refine .along .requestReady [.push c.serial token, .invoke c.serial .requestHandler _]
      (List.append_assoc c.events [_] [_]) rfl ?_
    rw [box_parsing steady hstack, box_called c.serial .requestHandler]
    · rfl
    · exact (steady.library hstack rfl).live
    · exact steady.below_popped hstack
  | @execSmall _ _ stack token parser buffer hstack =>
    refine .along .requestReady [.push c.serial token, .invoke c.serial .requestHandler _]
      (List.append_assoc c.events [_] [_]) rfl ?_
    rw [box_parsing steady hstack, box_called c.serial .requestHandler]
    · rfl
    · exact (steady.library hstack rfl).live
    · exact steady.below_popped hstack
  | @execFinal _ _ stack token parser buffer hstack =>
    refine .along .chunkReady [.push c.serial token, .invoke c.serial .chunkCb _]
      (List.append_assoc c.events [_] [_]) rfl ?_
    have below : ∀ f ∈ ((hsTokenArrayPush c.serial token (parsed parser buffer (popped stack c))).push
        (.finalChunk c.serial)).stack, waits f = true := by
      intro f hf
      rcases List.mem_cons.1 hf with rfl | hf
      · rfl
      · exact steady.below_popped hstack f hf
    rw [box_parsing steady hstack, box_called c.serial .chunkCb]
    · rfl
    · exact (steady.library hstack rfl).live
    · exact below
  | @execPiece _ _ stack token parser buffer hstack =>
    refine .along .chunkReady [.push c.serial token, .invoke c.serial .chunkCb _]
      (List.append_assoc c.events [_] [_]) rfl ?_
    rw [box_parsing steady hstack, box_called c.serial .chunkCb]
    · rfl
    · exact (steady.library hstack rfl).live
    · exact steady.below_popped hstack

theorem drawn_write {call : WriteCall} (steady : Steady c) (move : Move cfg c (.write call) c') : Drawn c c' := by
  cases move with
  | @writeMore call stack hstack =>
    have below : ∀ f ∈ (setTimeout httpRequestTimeout (written call (popped stack c))).stack, waits f = true :=
      steady.below_popped hstack
    refine .along .ewouldblock [.write call.bytes] rfl rfl ?_
    rw [box_writing steady hstack, box_waits (c := setTimeout httpRequestTimeout (written call (popped stack c)))
      (steady.library hstack rfl).live below]
    change _ = some (waitBox c.request.state (c.events ++ _))
    rw [(steady.writing hstack).1]
    rfl
  | @writeErr call stack hstack =>
    refine .along .brokenPipe [.write call.bytes, .terminate] ?_ rfl ?_
    · simp [hsRequestTerminateConnection, finished, written, popped]
    · rw [box_writing steady hstack, box_dead (c := hsRequestTerminateConnection _) rfl]
      rfl
  | @writeClose call stack hstack =>
    refine .along .connectionClose [.write call.bytes, .responded c.serial, .terminate] ?_ rfl ?_
    · simp [hsRequestTerminateConnection, finished, written, popped]
    · rw [box_writing steady hstack, box_dead (c := hsRequestTerminateConnection _) rfl]
      rfl
  | @writeNext call stack hstack =>
    refine .along .keepAlive [.write call.bytes, .responded c.serial, .watch .epollin] ?_ rfl ?_
    · simp [hsRequestBeginRead, finished, written, popped]
    · rw [box_writing steady hstack, box_beginRead]
      · rfl
      · exact (steady.library hstack rfl).live
  | @writeChunk call stack hstack =>
    refine .along .chunked [.write call.bytes, .invoke c.serial .chunkCb _] (List.append_assoc c.events [_] [_]) rfl ?_
    rw [box_writing steady hstack, box_called c.serial .chunkCb]
    · rfl
    · exact (steady.library hstack rfl).live
    · exact steady.below_popped hstack

theorem drawn_call {call : UserCall} (steady : Steady c) (state : c.request.state = .nop) (move : Move cfg c (.call call) c') : Drawn c c' := by
  cases move with
  | @respond call f env request memused runs live =>
    refine .along .httpRespond [.response request, .watch .epollout] (List.append_assoc c.events [_] [_]) rfl ?_
    rw [box_user steady runs live, box_beginWrite (c := answered request memused c) live]
    rcases asked_box state with h | h <;> rw [h] <;> rfl
  | readChunk runs live =>
    refine .along .httpRequestReadChunk [.watch .epollin] rfl rfl ?_
    rw [box_user steady runs live, box_beginRead]
    swap
    · exact live
    rcases asked_box state with h | h <;> rw [h] <;> rfl
  | freeBuffer => exact .stay [] (List.append_nil _).symm rfl rfl
  | @connection directive runs live =>
    refine .stay [] (List.append_nil _).symm rfl ?_
    have same : (hsRequestSetKeepAliveFlag c.request directive).state = c.request.state := by
      simp
    unfold box
    simp only [same]

theorem drawn_callbackReturn (steady : Steady c) (move : Move cfg c .callbackReturn c') : Drawn c c' := by
  cases move with
  | @callbackReturn cb stack hstack =>
    refine .stay [] (List.append_nil _).symm rfl ?_
    rcases hlive : c.live with _ | _
    · rw [box_dead hlive, box_dead (c := popped stack c) hlive]
    · have all := StackOk.user steady (by rw [hstack]; rfl)
      rw [box_waits hlive all]
      exact box_waits (c := popped stack c) hlive fun f hf => all f (by rw [hstack]; exact List.mem_cons_of_mem _ hf)

theorem drawn_finalChunk (steady : Steady c) (move : Move cfg c .finalChunk c') : Drawn c c' := by
  cases move with
  | @finalChunk serial stack hstack live =>
    have below : ∀ f ∈ stack, waits f = true := steady.below_popped hstack
    have all : ∀ f ∈ c.stack, waits f = true := by
      rw [hstack]
      intro f hf
      rcases List.mem_cons.1 hf with rfl | hf
      · rfl
      · exact below f hf
    refine .along .bodyEnd [.push serial { type := .body }, .invoke serial .chunkCb _]
      (List.append_assoc c.events [_] [_]) rfl ?_
    rw [box_waits live all, box_called serial .chunkCb]
    · exact (follow_waiting (waiting_waitBox _ _)).2
    · exact live
    · exact below

theorem drawn_step (steady : Steady c) (held : Holding c) (asked : Asked c l) (move : Move cfg c l c') : Drawn c c' := by
  cases l with
  | socketEvent => exact drawn_socket move
  | timerEvent => exact drawn_timer move
  | read env => exact drawn_read steady move
  | exec blk env => exact drawn_exec steady move
  | write call => exact drawn_write steady move
  | call call => exact drawn_call steady (held.1 (asked call rfl)) move
  | callbackReturn => exact drawn_callbackReturn steady move
  | finalChunk => exact drawn_finalChunk steady move

/-- A connection starts in the diagram, or with the answer of a server without memory. -/
theorem drawn_accepted (h : Accepted c) : Runs.Follows follow Arrow.sights .start (box c) (c.events.flatMap sight) := by
  obtain ⟨memused, rfl | ⟨respond, request, memused', -, rfl⟩⟩ := accepted_cases h
  · have first : box (hsRequestBeginRead (hsRequestInit memused)) = .read := rfl
    rw [first]
    exact .single (k := Arrow.accepted) rfl
  · have first : box (hsRequestBeginWrite (answered request memused' (hsRequestInit memused))) = .write := rfl
    rw [first]
    exact .single (k := Arrow.refused) rfl

structure DrawnAt (c : Conn) (b : Box) : Prop extends Regular c where
  box_eq : box c = b

/-- In every run in which user code calls the library only when it is asked to, the connection goes along the
    arrows, and everything that is seen of it is what the arrows show, in this order. -/
theorem diagram_followed (run : Runs.Reached (Connection.step cfg) Accepted Asked c) :
    ∃ arrows, Runs.exec follow arrows .start = some (box c) ∧ arrows.flatMap Arrow.sights = c.events.flatMap sight := by
  have begins : ∀ c, Accepted c → ∃ b, DrawnAt c b ∧ Runs.Follows follow Arrow.sights .start b (c.events.flatMap sight) :=
    fun c h => ⟨box c, ⟨regular_accepted h, rfl⟩, drawn_accepted h⟩
  have keep : ∀ c l c' b, DrawnAt c b → Asked c l → Connection.step cfg c l = some c' → ∃ b' more, DrawnAt c' b' ∧
      c'.events.flatMap sight = c.events.flatMap sight ++ more ∧ Runs.Follows follow Arrow.sights b b' more := by
    rintro c l c' b ⟨regular, rfl⟩ asked hs
    have move := step_move hs
    obtain ⟨more, events, follows⟩ := drawn_step regular.steady regular.held asked move
    refine ⟨box c', more.flatMap sight, ⟨regular.step move, rfl⟩, ?_, follows⟩
    rw [events, List.flatMap_append]
  obtain ⟨b, ⟨-, rfl⟩, arrows, steps, shows⟩ := run.follows begins keep
  exact ⟨arrows, steps, shows⟩

/-- A request that is answered with two writes, and a peer that closes after it. -/
theorem diagram_followed_get : ∃ c, Runs.Reached (Connection.step {}) Accepted Asked c ∧ box c = .ended ∧
    ∃ arrows, Runs.exec follow arrows .start = some (box c) ∧ arrows.flatMap Arrow.sights = c.events.flatMap sight := by
  have run : ((Runs.exec (Runs.guarded (Connection.step {}) Asked)
      (handled ++ [.call (.respond {} sessionEnv), .write ⟨10, false⟩, .socketEvent, .write ⟨88, false⟩, readsOnce .eof])
        accepted).any fun c => decide (box c = .ended)) = true := by
    decide +kernel
  obtain ⟨c, hc, ended⟩ := (Option.any_eq_true _ _).1 run
  have reached : Runs.Reached (Connection.step {}) Accepted Asked c := .guarded (.init accepted_accepted) hc
  exact ⟨c, reached, of_decide_eq_true ended, diagram_followed reached⟩

end Steps

end HttpServer.StateDiagram
