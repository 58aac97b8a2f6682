import HttpServer.WaitingReads

set_option autoImplicit false

/-!
# Edge-triggered input

A connection with its socket: the bytes that were not read yet, and whether an event is queued. An
arrival queues one while input is watched for, `EPOLL_CTL_MOD` queues one when bytes are there
already, and a delivery removes it.
-/
namespace HttpServer.WakeUps
open Scanner ParserTables ParserGrammar HttpServer.Parser ReadBuffer ParserInvariant HeadMachine BodyPhases
  ParserCalls Respond Connection ConnectionSteps ConnectionInvariant HeldRequests AnsweredRequests WaitingReads

section Calls

variable {max : ℤ} {blk : NewBlock} {s : Exec} {parser parser' : HshParserS} {buffer buffer' : HshBufferS}
  {token : HshTokenS}

/-- The actions that end a body. -/
def ends : Action → Bool
  | .endStream | .smallBodyRead | .largeBodyRead => true
  | _ => false

/-- What an action can do to the flags of the parser. -/
def FlagsLeft (a : Action) (f : BitVec 8) (t : Exec) : Prop :=
  t.parser.flags = f ∨ t.parser.flags = httpFlagSet f flagChunked ∨ t.parser.flags = httpFlagSet f flagTokenReady ∨
    ends a = true ∧ t.parser.flags = httpFlagSet (httpFlagSet f flagTokenReady) flagDone

theorem runAction_flags (a : Action) (c : UInt8) (s : Exec) : (runAction max blk c a s).Sat True
    (FlagsLeft a s.parser.flags) (FlagsLeft a s.parser.flags) := by
  have same : ∀ t : Exec, t.parser.flags = s.parser.flags → FlagsLeft a s.parser.flags t := fun t h => .inl h
  have ready : ∀ t : Exec, t.parser.flags = httpFlagSet s.parser.flags flagTokenReady →
      FlagsLeft a s.parser.flags t := fun t h => .inr (.inr (.inl h))
  cases a with
  | emitToken => exact ready _ rfl
  | transferEncoding => exact .inr (.inl rfl)
  | chunkSize =>
    obtain ⟨n, hn⟩ := chunkSize_cases c s
    change (Flow.fall (chunkSize c s)).Sat _ _ _
    rw [hn]
    exact same _ rfl
  | incCount =>
    change (incCount s).Sat _ _ _
    unfold incCount
    dsimp only
    split <;> exact same _ rfl
  | doneHeaders =>
    change (doneHeaders max blk s).Sat _ _ _
    unfold doneHeaders
    dsimp only
    split
    · exact ready _ rfl
    split
    · exact ready _ rfl
    split <;> exact ready _ rfl
  | chunkRead =>
    change (chunkRead max s).Sat _ _ _
    unfold chunkRead
    dsimp only
    split
    · exact ready _ rfl
    split
    · split
      · trivial
      · exact same _ rfl
    · exact same _ rfl
  | endStream => exact .inr (.inr (.inr ⟨rfl, rfl⟩))
  | smallBodyRead =>
    change (smallBodyRead s).Sat _ _ _
    unfold smallBodyRead
    dsimp only
    split
    · exact .inr (.inr (.inr ⟨rfl, rfl⟩))
    · exact same _ rfl
  | largeBodyRead =>
    change (largeBodyRead s).Sat _ _ _
    unfold largeBodyRead
    dsimp only
    split
    · exact .inr (.inr (.inr ⟨rfl, rfl⟩))
    · exact ready _ rfl
  | _ => exact same _ rfl

theorem FlagsLeft.done {a : Action} {f : BitVec 8} {t : Exec} (h : FlagsLeft a f t) (quiet : ends a = false)
    (running : httpFlagCheck f flagDone = false) : httpFlagCheck t.parser.flags flagDone = false := by
  rcases h with h | h | h | ⟨last, -⟩
  · rw [h, running]
  · rw [h, done_set_chunked, running]
  · rw [h, done_set_tokenReady, running]
  · rw [quiet] at last
    cases last

theorem FlagsLeft.ready {a : Action} {f : BitVec 8} {t : Exec} (h : FlagsLeft a f t)
    (before : httpFlagCheck f flagDone = true → httpFlagCheck f flagTokenReady = true)
    (done : httpFlagCheck t.parser.flags flagDone = true) : httpFlagCheck t.parser.flags flagTokenReady = true := by
  rcases h with h | h | h | ⟨-, h⟩ <;> rw [h] at done ⊢
  · exact before done
  · rw [done_set_chunked] at done
    rw [tokenReady_set_chunked, before done]
  · exact tokenReady_set _
  · exact (tokenReady_set_done _).trans (tokenReady_set _)

def EndsWithToken (s : Exec) : Prop :=
  httpFlagCheck s.parser.flags flagDone = true → httpFlagCheck s.parser.flags flagTokenReady = true

theorem hshParserExec_unfinished (running : httpFlagCheck parser.flags flagDone = false)
    (hr : hshParserExec max blk parser buffer = some (token, parser', buffer')) :
    httpFlagCheck parser'.flags flagDone = false ∨ token.type = parser'.token.type := by
  have start : EndsWithToken (enter parser buffer) := fun done => absurd (running.symm.trans done) (by decide)
  have act : ∀ a c s, EndsWithToken s → True → (runAction max blk c a s).Sat True EndsWithToken EndsWithToken :=
    fun a c s hs _ => (runAction_flags a c s).mono (fun t ht => ht.ready hs) (fun t ht => ht.ready hs)
  rcases hshParserExec_acts (I := EndsWithToken) start (fun _ _ _ h => h) act execOk_any hr with heq | ⟨t, ht, heq⟩
  · cases heq
    exact .inl running
  rcases leave_cases t with ⟨ready, hl⟩ | ⟨quiet, hl⟩ <;> rw [hl] at heq <;> cases heq
  · exact .inr rfl
  · refine .inl (eq_false_of_ne_true fun done => ?_)
    exact absurd (quiet.symm.trans (ht done)) (by decide)

/-- In a head, or after it failed. -/
structure InHead (s : Exec) : Prop where
  state_lt : s.cs < 98
  head : inHead (phase s.cs) = true ∨ s.cs = hshHttpError
  running : httpFlagCheck s.parser.flags flagDone = false

theorem headLine_quiet : ∀ a ∈ headLine, ends a = false := by decide

theorem head_actions {cs c : ℕ} (lt : cs < 98) (hc : c < 256) (alive : cs ≠ hshHttpError)
    (head : inHead (phase cs) = true) : (inHead (phase (transTarg cs c)) = true ∨ transTarg cs c = hshHttpError) ∧
      ∀ a ∈ transActions cs c, ends a = false := by
  have data : phase cs ≠ .bodyData := by
    intro data
    rw [data] at head
    cases head
  obtain ⟨htarg, pre, hpre, hacts⟩ := tables_agree lt hc alive data
  have quiet : (∀ a ∈ (phaseStep (phase cs) c).2, ends a = false) → ∀ a ∈ transActions cs c, ends a = false := by
    intro rest a ha
    rw [hacts] at ha
    rcases List.mem_append.1 ha with ha | ha
    · rcases hpre with rfl | ⟨-, rfl | rfl⟩
      · cases ha
      · rw [List.mem_singleton.1 ha]
        rfl
      · rw [List.mem_singleton.1 ha]
        rfl
    · exact rest a ha
  rcases phaseStep_inHead head c with ⟨herr, hlist⟩ | hdone | ⟨hhead, hlist⟩
  · refine ⟨.inr ((phase_error (transTarg_lt _ _)).1 (htarg.trans herr)), quiet ?_⟩
    rw [hlist]
    decide
  · rw [hdone] at htarg
    refine ⟨.inl (by rw [htarg]; rfl), quiet ?_⟩
    rw [hdone]
    decide
  · exact ⟨.inl (htarg ▸ hhead), quiet fun a ha => headLine_quiet a (hlist a ha)⟩

theorem head_runs {c : UInt8} (h : InHead s) (alive : s.cs ≠ hshHttpError) : ((machine max blk).step c s).Sat True
    InHead (fun t => httpFlagCheck t.parser.flags flagDone = false) := by
  obtain ⟨next, quiet⟩ := head_actions h.state_lt c.toNat_lt alive (h.head.resolve_right alive)
  refine Machine.step_sat (P := fun t => t.cs = transTarg s.cs c.toNat ∧ httpFlagCheck t.parser.flags flagDone = false)
    _ ?_ fun t ht => ?_
  · refine Machine.runActs_sat _ (C := fun _ _ _ => True) (fun a ha t ht _ => ?_) ⟨rfl, h.running⟩
      (Machine.actsOk_true _ _ _ _)
    have flags := @runAction_flags max blk a c t
    have state := @runAction_falls max blk a c t
    change (runAction max blk c a t).Sat _ _ _
    cases hr : runAction max blk c a t with
    | fall u =>
      rw [hr] at flags state
      obtain ⟨parser, rfl⟩ := state
      exact ⟨ht.1, flags.done (quiet a ha) ht.2⟩
    | out u =>
      rw [hr] at flags
      exact flags.done (quiet a ha) ht.2
    | fault => trivial
  · change (if t.cs = hshHttpError then Flow.out t else .fall { t with p := t.p + 1 }).Sat _ _ _
    split
    · exact ht.2
    · exact ⟨by rw [ht.1]; exact transTarg_lt _ _, by rw [ht.1]; exact next, ht.2⟩

theorem hshParserExec_line (rest : CallRest parser buffer) (running : httpFlagCheck parser.flags flagDone = false)
    (hr : hshParserExec max blk parser buffer = some (token, parser', buffer')) (line : token.type ≠ .body)
    (typed : token.type ≠ .none) : httpFlagCheck parser'.flags flagDone = false := by
  by_cases head : inHead (phase parser.state) = true
  · have start : InHead (enter parser buffer) := ⟨rest.exit.state_lt, .inl head, running⟩
    rcases hshParserExec_sat (I := InHead) (Q := fun t => httpFlagCheck t.parser.flags flagDone = false) start
      (fun _ hs => hs.running) (fun _ _ hs _ alive _ => head_runs hs alive) execOk_any hr with heq | ⟨t, ht, heq⟩
    · cases heq
      exact running
    rcases leave_cases t with ⟨-, hl⟩ | ⟨-, hl⟩ <;> rw [hl] at heq <;> cases heq
    · exact (done_clear_tokenReady _).trans ht
    · exact ht
  have fits : tokenFits (phase parser.state) parser.token := rest.exit.fits running
  have other : token = noneToken ∨ token.type = .body := by
    by_cases small : inSmall (phase parser.state) = true
    · have body : SmallBody parser := fun b => ⟨rest.exit.state_lt, by
        change phase parser.state = .small ∨ phase parser.state = .smallRest ∧ parser.token.type = .body
        cases hp : phase parser.state <;> rw [hp] at small fits <;> try cases small
        · exact .inl rfl
        · exact .inr ⟨rfl, fits⟩, rest.tokenReady, rfl⟩
      exact (hshParserExec_small body hr).2.2.imp_right And.left
    · have stream : Streaming parser := fun b => ⟨rest.exit.state_lt, by
        change isStream (phase parser.state) = true
        cases hp : phase parser.state <;> rw [hp] at head small <;> first | rfl | exact absurd rfl head | exact absurd rfl small,
        rest.tokenReady, fun piece => by
        change inPiece (phase parser.state) = true at piece
        cases hp : phase parser.state <;> rw [hp] at piece fits <;> try cases piece
        all_goals exact ⟨fits.1, by rw [show (enter parser b).parser.token.flags = 0 from fits.2]; decide⟩⟩
      exact (hshParserExec_stream stream hr).2.imp_right And.left
  rcases other with rfl | body
  · exact absurd rfl typed
  · exact absurd body line

/-- In a large body, with bytes that were not parsed yet. -/
structure Ahead (parser : HshParserS) (buffer : HshBufferS) : Prop where
  large : inLarge (phase parser.state) = true
  more : buffer.index < buffer.length
  running : httpFlagCheck parser.flags flagDone = false
  behind : parser.sequenceId ≠ buffer.sequenceId

/-- A token of a piece, as it is returned. -/
def Returned (t : Exec) : Prop :=
  httpFlagCheck t.parser.flags flagTokenReady = true ∧ t.parser.token.type = .body

theorem largeBodyRead_returned (typed : s.parser.token.type = .body) :
    (largeBodyRead s).Sat True (fun _ => False) Returned := by
  unfold largeBodyRead
  dsimp only
  split
  · exact ⟨(tokenReady_set_done _).trans (tokenReady_set _), typed⟩
  · exact ⟨tokenReady_set _, typed⟩

theorem large_returned {c : UInt8} (lt : s.cs < 98) (large : inLarge (phase s.cs) = true)
    (fits : tokenFits (phase s.cs) s.parser.token) :
    ((machine max blk).step c s).Sat True (fun _ => False) Returned := by
  have hc : c.toNat < 256 := c.toNat_lt
  have alive : s.cs ≠ hshHttpError := by
    intro herr
    rw [herr] at large
    cases large
  have plain : phase s.cs ≠ .bodyData ∧ phase s.cs ≠ .ows ∧ phase s.cs ≠ .value := by
    refine ⟨?_, ?_, ?_⟩ <;> intro hp <;> rw [hp] at large <;> cases large
  have hacts := tables_agree_exact lt hc alive plain.1 plain.2
  have read : ∀ t : Exec, t.parser.token.type = .body →
      ((machine max blk).runActs c [.largeBodyRead] t).Sat True (fun _ => False) Returned := fun t typed =>
    Machine.runActs_cons_sat (C := fun _ _ _ => True) (P := fun _ => False) _ (fun _ => largeBodyRead_returned typed)
      (fun _ hf _ => hf.elim) (Machine.actsOk_true _ _ _ _)
  refine Machine.step_sat (P := fun _ => False) _ ?_ fun _ hf => hf.elim
  change ((machine max blk).runActs c (transActions s.cs c.toNat) { s with cs := transTarg s.cs c.toNat }).Sat _ _ _
  rw [hacts]
  cases hp : phase s.cs <;> rw [hp] at large fits <;> try cases large
  · change ((machine max blk).runActs c [.body, .largeBodyRead] _).Sat _ _ _
    rw [Machine.runActs_fall _ (t := body { s with cs := transTarg s.cs c.toNat }) rfl]
    exact read _ rfl
  · exact read _ fits.1

/-- A large body returns whatever part of it has come. -/
theorem hshParserExec_large (rest : CallRest parser buffer) (ahead : Ahead parser buffer)
    (hr : hshParserExec max blk parser buffer = some (token, parser', buffer')) : token.type = .body := by
  obtain ⟨large, more, running, behind⟩ := ahead
  have stop : ∀ s, s = enter parser buffer → s.p = s.pe ∨ s.cs = hshHttpError → Returned s := by
    rintro s rfl (ended | herr)
    · change buffer.buf + buffer.index = buffer.buf + buffer.length at ended
      omega
    · change parser.state = hshHttpError at herr
      rw [herr] at large
      cases large
  have step : ∀ c s, s = enter parser buffer → s.p ≠ s.pe → s.cs ≠ hshHttpError → True →
      (machine max blk).ActsOk (fun _ _ _ => True) c ((machine max blk).trans c s).2 ((machine max blk).trans c s).1 →
      ((machine max blk).step c s).Sat True (fun s => s = enter parser buffer) Returned := by
    rintro c s rfl - - - -
    exact (large_returned rest.exit.state_lt large (rest.exit.fits running)).mono (fun _ hf => hf.elim) fun _ h => h
  rcases hshParserExec_rule (I := fun s => s = enter parser buffer) rfl stop step execOk_any hr with
    ⟨idle | same, -⟩ | ⟨t, ⟨ready, typed⟩, heq⟩
  · exact absurd (running.symm.trans idle) (by decide)
  · exact absurd same behind
  · rw [leave_ready ready] at heq
    cases heq
    exact typed

end Calls

section Socket

/-- The bytes that are left after some reads. A read that would block finds none. -/
def takes : List ReadResult → List UInt8 → Option (List UInt8)
  | [], unread => some unread
  | .bytes bs :: results, unread => if bs.isPrefixOf unread then takes results (unread.drop bs.length) else none
  | .fail :: results, unread => if unread = [] then takes results unread else none
  | .eof :: results, unread => takes results unread

/-- A connection with its socket. -/
structure Net where
  conn : Conn
  unread : List UInt8 := []
  queued : Bool := false

/-- What the kernel does at an event of the connection. -/
def hear (n : Net) : Event → Option Net
  | .read results => (takes results n.unread).map fun unread => { n with unread := unread }
  | .watch .epollin => some { n with queued := n.queued || n.unread ≠ [] }
  | _ => some n

def hears : List Event → Net → Option Net
  | [], n => some n
  | event :: events, n => (hear n event).bind (hears events)

inductive NetLabel where
  | arrives (b : UInt8)
  | moves (l : Label)

/-- An event of the socket is delivered. -/
def delivers : Label → Bool
  | .socketEvent => true
  | _ => false

def Net.step (cfg : Config) (n : Net) : NetLabel → Option Net
  | .arrives b => some { n with
      unread := n.unread ++ [b], queued := n.queued || n.conn.interest = .epollin }
  | .moves l => (Connection.step cfg n.conn l).bind fun c =>
      hears (c.events.drop n.conn.events.length) ⟨c, n.unread, n.queued && !delivers l⟩

/-- A connection as it was accepted; bytes may have come before. -/
def Opened (n : Net) : Prop :=
  Accepted n.conn ∧ (n.conn.interest = .epollin → n.unread ≠ [] → n.queued = true)

def Unfinished (c : Conn) (l : Label) : Prop :=
  ∀ call, l = .call call → call = .readChunk →
    httpFlagCheck c.request.parser.flags flagDone = false ∨ inFinal c.stack = true

/-- The last `read` took bytes: the buffer has its maximum capacity, and more may be there. -/
def stopsEarly (calls : List ReadCall) : Bool :=
  match calls.getLast? with
  | some ⟨.bytes _, _⟩ => true
  | _ => false

/-- A read takes all that is there, except in a large body. -/
def Draining (cfg : Config) (c : Conn) : Label → Prop
  | .read env => hsBufferRequiresRead (entered cfg env c).request.buffer = true → stopsEarly env.readCalls = true →
      inLarge (phase (entered cfg env c).request.parser.state) = true
  | _ => True

/-- The condition on a step. -/
def WakeOk (cfg : Config) (n : Net) (l : NetLabel) : Prop :=
  ∀ m, l = .moves m → Asked n.conn m ∧ Finishing n.conn m ∧ InFlow cfg n.conn m ∧ Unfinished n.conn m ∧
    Draining cfg n.conn m

instance (c : Conn) (l : Label) : Decidable (Unfinished c l) :=
  match l with
  | .call .readChunk =>
    decidable_of_iff (httpFlagCheck c.request.parser.flags flagDone = false ∨ inFinal c.stack = true)
      ⟨fun h _ _ _ => h, fun h => h _ rfl rfl⟩
  | .call (.respond _ _) | .call (.respondChunk _ _) | .call (.respondChunkEnd _ _) | .call .freeBuffer
  | .call (.connection _) => isTrue (by
      intro call h
      cases h
      nofun)
  | .socketEvent | .timerEvent | .read _ | .exec _ _ | .write _ | .callbackReturn | .finalChunk => isTrue nofun

instance (cfg : Config) (c : Conn) (l : Label) : Decidable (Draining cfg c l) :=
  match l with
  | .read _ => inferInstanceAs (Decidable (_ → _ → _))
  | .socketEvent | .timerEvent | .exec _ _ | .call _ | .write _ | .callbackReturn | .finalChunk => isTrue trivial

instance (cfg : Config) (n : Net) (l : NetLabel) : Decidable (WakeOk cfg n l) :=
  match l with
  | .arrives _ => isTrue fun _ h => by cases h
  | .moves m => decidable_of_iff (Asked n.conn m ∧ Finishing n.conn m ∧ InFlow cfg n.conn m ∧ Unfinished n.conn m ∧
      Draining cfg n.conn m) ⟨fun h _ hl => by cases hl; exact h, fun h => h m rfl⟩

variable {cfg : Config} {n n' : Net} {c c' : Conn} {l : Label} {stack : List Frame} {events : List Event}

theorem hears_conn (h : hears events n = some n') : n'.conn = n.conn := by
  induction events generalizing n with
  | nil =>
    cases h
    rfl
  | cons event events ih =>
    obtain ⟨m, hm, h⟩ := Option.bind_eq_some_iff.1 h
    refine (ih h).trans ?_
    cases event with
    | read results =>
      obtain ⟨unread, -, rfl⟩ := Option.map_eq_some_iff.1 hm
      rfl
    | watch interest => cases interest <;> cases hm <;> rfl
    | _ =>
      cases hm
      rfl

theorem takes_blocked {results : List ReadResult} {unread left : List UInt8} (h : takes results unread = some left)
    (last : results.getLast? = some .fail) : left = [] := by
  induction results generalizing unread with
  | nil => cases last
  | cons result results ih =>
    cases results with
    | nil =>
      cases last
      rw [takes] at h
      split at h <;> cases h
      assumption
    | cons next results =>
      rw [List.getLast?_cons_cons] at last
      cases result with
      | bytes bs =>
        rw [takes] at h
        split at h
        · exact ih h last
        · cases h
      | eof => exact ih h last
      | fail =>
        rw [takes] at h
        split at h
        · exact ih h last
        · cases h

/-- What holds between two steps. Either an arrival would be told, or the library is about to read, or to parse
    a part of a large body. -/
structure Armed (n : Net) : Prop where
  unfinished : n.conn.live = true → n.conn.request.state = .read → n.conn.request.buffer.buf ≠ 0 →
    httpFlagCheck n.conn.request.parser.flags flagDone = false ∨ inFinal n.conn.stack = true
  told : n.conn.live = true → n.conn.request.state = .read → (n.unread ≠ [] → n.queued = true) ∨
    .readRequest ∈ n.conn.stack ∧
      (n.conn.request.buffer.buf = 0 ∨ n.conn.request.buffer.length ≤ n.conn.request.buffer.index) ∨
    .parseBuffer ∈ n.conn.stack ∧ Ahead n.conn.request.parser n.conn.request.buffer

theorem Armed.of_other (other : n.conn.live = false ∨ n.conn.request.state ≠ .read) : Armed n := by
  refine ⟨fun live state => ?_, fun live state => ?_⟩ <;> rcases other with dead | other
  · exact absurd (dead.symm.trans live) (by decide)
  · exact absurd state other
  · exact absurd (dead.symm.trans live) (by decide)
  · exact absurd state other

@[simp] theorem inFinal_readRequest : inFinal (.readRequest :: stack) = inFinal stack := rfl
@[simp] theorem inFinal_parseBuffer : inFinal (.parseBuffer :: stack) = inFinal stack := rfl

theorem requires_iff (env : ReadEnv) (c : Conn) : hsBufferRequiresRead (entered cfg env c).request.buffer = true ↔
    c.request.buffer.buf = 0 ∨ c.request.buffer.length ≤ c.request.buffer.index := by
  unfold hsBufferRequiresRead
  rw [decide_eq_true_eq]
  by_cases none : c.request.buffer.buf = 0
  · unfold entered initBuffer
    rw [if_pos none]
    exact ⟨fun _ => .inl none, fun _ => le_refl 0⟩
  · rw [entered_of_buf cfg env none]
    exact ⟨.inr, fun h => h.resolve_left none⟩

theorem entered_unfinished (env : ReadEnv) (c : Conn) (h : c.request.buffer.buf ≠ 0 →
      httpFlagCheck c.request.parser.flags flagDone = false ∨ inFinal c.stack = true) :
    httpFlagCheck (entered cfg env c).request.parser.flags flagDone = false ∨ inFinal c.stack = true := by
  by_cases none : c.request.buffer.buf = 0
  · unfold entered initBuffer
    rw [if_pos none]
    exact .inl (by decide : httpFlagCheck hshParserInit.flags flagDone = false)
  · rw [entered_of_buf cfg env none]
    exact h none

def quiet : Event → Bool
  | .read _ | .watch .epollin => false
  | _ => true

theorem hears_quiet (h : ∀ event ∈ events, quiet event = true) : hears events n = some n := by
  induction events with
  | nil => rfl
  | cons event events ih =>
    have rest := ih fun e he => h e (List.mem_cons_of_mem _ he)
    have first := h event List.mem_cons_self
    rw [hears]
    cases event with
    | read results => cases first
    | watch interest =>
      cases interest with
      | epollin => cases first
      | epollout => exact rest
    | _ => exact rest

theorem hears_append (events events' : List Event) (n : Net) :
    hears (events ++ events') n = (hears events n).bind (hears events') := by
  induction events generalizing n with
  | nil => rfl
  | cons event events ih =>
    rw [List.cons_append, hears, hears, Option.bind_assoc]
    exact congrArg _ (funext ih)

theorem hears_beginRead (first : ∀ event ∈ events, quiet event = true)
    (h : hears (events ++ [.watch .epollin]) n = some n') : n'.unread ≠ [] → n'.queued = true := by
  rw [hears_append, hears_quiet first] at h
  cases h
  intro some
  change (n.queued || decide (n.unread ≠ [])) = true
  rw [decide_eq_true some, Bool.or_true]

theorem parsing (steady : Steady c) (buffered : Buffered c) (kept : Kept c) (hstack : c.stack = .parseBuffer :: stack) :
    c.live = true ∧ c.request.state = .read ∧ c.request.buffer.buf ≠ 0 ∧
      CallRest c.request.parser c.request.buffer := by
  have live := (steady.library hstack rfl).live
  have state := (steady.reading hstack (.inr rfl)).1
  have block : c.request.buffer.buf ≠ 0 := by
    refine (buffered.reading live state).resolve_left ?_
    rw [hstack]
    simpa using (not_library (steady.below_popped hstack)).1
  exact ⟨live, state, block, kept.parsed live (by rw [state]; decide) block⟩

/-- A call of the parser that goes on to read or to parse, told of the bytes that are there. -/
theorem Armed.parse (steady : Steady n.conn) (buffered : Buffered n.conn) (kept : Kept n.conn) (h : Armed n)
    {blk : Block} {token : HshTokenS} {parser : HshParserS} {buffer : HshBufferS}
    (hstack : n.conn.stack = .parseBuffer :: stack)
    (hr : hshParserExec cfg.httpMaxRequestBufSize blk.1 n.conn.request.parser n.conn.request.buffer =
      some (token, parser, buffer)) (goesOn : token.type ≠ .body)
    (typed : token.type = .none → parser.token.type ≠ .none) :
    (httpFlagCheck parser.flags flagDone = false ∨ inFinal stack = true) ∧ (n.unread ≠ [] → n.queued = true) := by
  obtain ⟨live, state, block, rest⟩ := parsing steady buffered kept hstack
  refine ⟨?_, ?_⟩
  · have before := h.unfinished live state block
    rw [hstack, inFinal_parseBuffer] at before
    refine before.imp_left fun running => ?_
    by_cases none : token.type = .none
    · exact (hshParserExec_unfinished running hr).resolve_right fun same => typed none (same.symm.trans none)
    · exact hshParserExec_line rest running hr goesOn none
  · rcases h.told live state with told | ⟨reads, -⟩ | ⟨-, ahead⟩
    · exact told
    · rw [hstack] at reads
      exact absurd ((List.mem_cons.1 reads).resolve_left (by decide)) (not_library (steady.below_popped hstack)).1
    · exact absurd (hshParserExec_large rest ahead hr) goesOn

/-- A read takes all that is there, or it is followed by a call that returns a part of a large body. -/
theorem Armed.read (steady : Steady n.conn) (kept : Kept n.conn) (h : Armed n) {env : ReadEnv} {r : ReadReturn}
    {unread : List UInt8} (hstack : n.conn.stack = .readRequest :: stack)
    (requires : hsBufferRequiresRead (entered cfg env (popped stack n.conn)).request.buffer = true)
    (hr : hsReadIntoBuffer cfg.httpMaxRequestBufSize env.readCalls
      (entered cfg env (popped stack n.conn)).request.buffer (entered cfg env (popped stack n.conn)).memused = some r)
    (more : r.bytes ≠ 0) (flow : InFlow cfg n.conn (.read env)) (draining : Draining cfg n.conn (.read env))
    (left : takes (env.readCalls.map ReadCall.result) n.unread = some unread) :
    httpFlagCheck (entered cfg env (popped stack n.conn)).request.parser.flags flagDone = false ∧
      (unread = [] ∨ Ahead (entered cfg env (popped stack n.conn)).request.parser r.buffer) := by
  have live := (steady.library hstack rfl).live
  have state := (steady.reading hstack (.inl rfl)).1
  have rest := entered_rest cfg env (c := popped stack n.conn)
    ⟨kept.parsed, fun g hg => kept.below hstack hg⟩ live state
  have hblk := readCalls_blockOk env
  have max_ge : -2147483648 ≤ cfg.httpMaxRequestBufSize := by
    have := cfg.initial_pos
    have := cfg.initial_le
    omega
  have exit := rest.exit
  obtain ⟨-, filled⟩ := rest.read max_ge cfg.max_lt hblk hr
  obtain ⟨call, hlast, hbytes, longer⟩ := hsReadIntoBuffer_last max_ge cfg.max_lt hblk exit.buf_pos exit.capacity_lt
    exit.length_ge exit.length_lt hr
  have running := (@entered_unfinished cfg env (popped stack n.conn) fun block => by
    have := h.unfinished live state block
    rwa [hstack, inFinal_readRequest] at this).resolve_right fun final => by
      obtain ⟨frame, hmem, hframe⟩ := List.any_eq_true.1 final
      cases frame <;> try cases hframe
      rw [(kept.skips hstack hmem).2] at requires
      cases requires
  refine ⟨running, ?_⟩
  have result : (env.readCalls.map ReadCall.result).getLast? = some call.result := by
    rw [List.getLast?_map, hlast]
    rfl
  cases hc : call.result with
  | fail =>
    rw [hc] at result
    exact .inl (takes_blocked left result)
  | eof =>
    rw [hc] at hbytes
    exact absurd hbytes more
  | bytes bs =>
    have stops : stopsEarly env.readCalls = true := by
      unfold stopsEarly
      rw [hlast]
      obtain ⟨result, blk⟩ := call
      cases hc
      rfl
    have next := hsReadIntoBuffer_sequenceId hr
    rw [entered_popped] at requires next
    have large := draining requires stops
    have behind := flow requires
    rw [← next, ← entered_popped env stack n.conn] at behind
    rw [← entered_popped env stack n.conn] at large
    have place := (exit.place.inside (.inr large)).2
    rw [cursor_enter] at place
    have some : 0 < r.bytes := by
      rw [hc] at hbytes
      simp only [ReadResult.count] at hbytes
      omega
    refine .inr ⟨large, ?_, running, behind.symm⟩
    rw [filled.index_eq]
    exact place.trans_lt (longer some)

theorem Armed.step (steady : Steady n.conn) (held : Holding n.conn) (buffered : Buffered n.conn) (kept : Kept n.conn)
    (flowing : Flowing n.conn) (h : Armed n) (asked : Asked n.conn l) (flow : InFlow cfg n.conn l)
    (unfinished : Unfinished n.conn l) (draining : Draining cfg n.conn l) (move : Move cfg n.conn l c')
    (hn : hears (c'.events.drop n.conn.events.length) ⟨c', n.unread, n.queued && !delivers l⟩ = some n') :
    Armed n' := by
  have conn : n'.conn = c' := hears_conn hn
  -- the events of a step, and a step without any
  have news : ∀ events, c'.events = n.conn.events ++ events →
      hears events ⟨c', n.unread, n.queued && !delivers l⟩ = some n' := by
    intro events hevents
    rw [hevents, List.drop_left] at hn
    exact hn
  have still : delivers l = false → ∀ events, c'.events = n.conn.events ++ events → (∀ e ∈ events, quiet e = true) →
      n'.unread = n.unread ∧ n'.queued = n.queued := by
    intro silent events hevents hquiet
    have hn := news events hevents
    rw [hears_quiet hquiet] at hn
    cases hn
    exact ⟨rfl, by simp [silent]⟩
  -- above the library nothing else runs
  have alone : ∀ {frame stack}, n.conn.stack = frame :: stack → .readRequest ∉ stack ∧ .parseBuffer ∉ stack := by
    intro frame stack hstack
    obtain ⟨noRead, noParse, -⟩ := not_library (steady.below_popped hstack)
    exact ⟨noRead, noParse⟩
  cases move with
  | wakeRead live stack state =>
    refine ⟨fun _ _ block => ?_, fun _ _ => .inr (.inl ⟨by rw [conn]; simp, ?_⟩)⟩
    · rw [conn] at block ⊢
      simpa using h.unfinished live state block
    · rw [conn, push_request]
      by_cases none : n.conn.request.buffer.buf = 0
      · exact .inl none
      · have running := (h.unfinished live state none).resolve_right (by rw [stack]; decide)
        have waiting := flowing.waiting live state (by rw [stack]; simp) (by rw [stack]; simp)
        exact .inr (waiting.resolve_left (by rw [running]; decide))
  | tick live stack =>
    obtain ⟨hunread, hqueued⟩ := still rfl [] (List.append_nil _).symm (by simp)
    refine ⟨by rw [conn]; exact h.unfinished, ?_⟩
    rw [conn, hunread, hqueued]
    exact h.told
  | @readSkip env stack hstack requires =>
    obtain ⟨hunread, hqueued⟩ := still rfl [] (by simp [popped]) (by simp)
    have live := (steady.library hstack rfl).live
    have state := (steady.reading hstack (.inl rfl)).1
    have skips := mt (requires_iff env (popped stack n.conn)).2 (by rw [requires]; decide)
    refine ⟨fun _ _ _ => ?_, fun _ _ => .inl ?_⟩
    · rw [conn]
      have := @entered_unfinished cfg env (popped stack n.conn) fun block => by
        have := h.unfinished live state block
        rwa [hstack, inFinal_readRequest] at this
      simpa using this
    · rw [hunread, hqueued]
      rcases h.told live state with told | ⟨-, reads⟩ | ⟨parse, -⟩
      · exact told
      · exact absurd reads skips
      · rw [hstack] at parse
        exact absurd ((List.mem_cons.1 parse).resolve_left (by decide)) (alone hstack).2
  | @readMore env stack r hstack requires hr more =>
    have hn := news [.read (env.readCalls.map ReadCall.result)] (by simp [filled, popped])
    obtain ⟨m, hm, hn⟩ := Option.bind_eq_some_iff.1 hn
    cases hn
    obtain ⟨unread, left, rfl⟩ := Option.map_eq_some_iff.1 hm
    obtain ⟨running, rest⟩ := h.read steady kept hstack requires hr more flow draining left
    refine ⟨fun _ _ _ => .inl running, fun _ _ => ?_⟩
    rcases rest with rfl | ahead
    · exact .inl fun some => absurd rfl some
    · exact .inr (.inr ⟨List.mem_cons_self, ahead⟩)
  | execNone hstack hr type =>
    obtain ⟨hunread, hqueued⟩ := still rfl [] (by simp [parsed, popped]) (by simp)
    have typed := (flowing.exec steady buffered kept hstack hr flow).1.typed
    obtain ⟨unfinished, told⟩ := h.parse steady buffered kept hstack hr (by rw [type]; decide) fun _ => typed
    refine ⟨fun _ _ _ => ?_, fun _ _ => .inl ?_⟩
    · rw [conn]
      exact unfinished
    · rw [hunread, hqueued]
      exact told
  | @execLine _ _ _ token _ _ hstack hr type =>
    obtain ⟨hunread, hqueued⟩ := still rfl [.push n.conn.serial token] (by simp [hsTokenArrayPush, parsed, popped])
      (by simp [quiet])
    obtain ⟨unfinished, told⟩ := h.parse steady buffered kept hstack hr type.2.2.1 fun none => absurd none type.1
    refine ⟨fun _ _ _ => ?_, fun _ _ => .inl ?_⟩
    · rw [conn]
      exact unfinished
    · rw [hunread, hqueued]
      exact told
  | @writeNext call stack hstack =>
    have told := @hears_beginRead _ _ [.write call.bytes, .responded n.conn.serial] (by simp [quiet])
      (news _ (by simp [hsRequestBeginRead, finished, written, popped]))
    refine ⟨fun _ _ block => absurd ?_ block, fun _ _ => .inl told⟩
    rw [conn]
    exact finished_buf httpKeepAliveTimeout _
  | readChunk user live =>
    have told := @hears_beginRead _ _ [] (by simp) (news _ (by simp [hsRequestBeginRead]))
    refine ⟨fun _ _ _ => ?_, fun _ _ => .inl told⟩
    rw [conn]
    simpa [hsRequestBeginRead] using unfinished _ rfl rfl
  | @callbackReturn cb stack hstack =>
    obtain ⟨hunread, hqueued⟩ := still rfl [] (by simp [popped]) (by simp)
    have same : ∀ frame : Frame, waits frame = false → (frame ∈ n.conn.stack ↔ frame ∈ stack) := by
      intro frame library
      rw [hstack, List.mem_cons]
      refine or_iff_right ?_
      rintro rfl
      cases library
    refine ⟨?_, ?_⟩
    · rw [conn]
      intro live state block
      have := h.unfinished live state block
      rw [hstack] at this
      exact this
    · rw [conn, hunread, hqueued]
      intro live state
      have := h.told live state
      rw [same _ rfl, same _ rfl] at this
      exact this
  | wakeWrite live stack state => exact .of_other (.inr (by rw [conn]; simp [state]))
  | swallow live stack notRead => exact .of_other (.inr (by rw [conn]; exact notRead))
  | writeMore hstack => exact .of_other (.inr (by rw [conn]; exact (steady.writing hstack).1.trans_ne (by decide)))
  | freeBuffer => exact .of_other (.inr (by rw [conn]; exact (held.1 (asked _ rfl)).trans_ne (by decide)))
  | connection =>
    refine .of_other (.inr ?_)
    rw [conn, setKeepAlive_state, held.1 (asked _ rfl)]
    decide
  | expire => exact .of_other (.inl (by rw [conn]; rfl))
  | readEof => exact .of_other (.inl (by rw [conn]; rfl))
  | writeErr => exact .of_other (.inl (by rw [conn]; rfl))
  | writeClose => exact .of_other (.inl (by rw [conn]; rfl))
  | execErr => exact .of_other (.inr (by rw [conn]; rintro ⟨⟩))
  | execHead => exact .of_other (.inr (by rw [conn]; rintro ⟨⟩))
  | execSmall => exact .of_other (.inr (by rw [conn]; rintro ⟨⟩))
  | execFinal => exact .of_other (.inr (by rw [conn]; rintro ⟨⟩))
  | execPiece => exact .of_other (.inr (by rw [conn]; rintro ⟨⟩))
  | writeChunk => exact .of_other (.inr (by rw [conn]; rintro ⟨⟩))
  | respond => exact .of_other (.inr (by rw [conn]; rintro ⟨⟩))
  | finalChunk => exact .of_other (.inr (by rw [conn]; rintro ⟨⟩))

theorem armed_opened (h : Opened n) : Armed n := by
  obtain ⟨accepted, told⟩ := h
  obtain ⟨memused, hconn | ⟨respond, request, memused', -, hconn⟩⟩ := accepted_cases accepted
  · refine ⟨fun _ _ block => absurd ?_ block, fun _ _ => .inl (told ?_)⟩ <;> rw [hconn] <;> rfl
  · exact .of_other (.inr (by rw [hconn]; nofun))

theorem Armed.arrives (steady : Steady n.conn) (h : Armed n) (b : UInt8) :
    Armed { n with unread := n.unread ++ [b], queued := n.queued || n.conn.interest = .epollin } := by
  refine ⟨h.unfinished, fun live state => .inl fun _ => ?_⟩
  change (n.queued || decide (n.conn.interest = .epollin)) = true
  rw [decide_eq_true (steady.readInterest state), Bool.or_true]

structure WakeRun (n : Net) : Prop where
  conn : Consuming n.conn
  armed : Armed n

theorem WakeRun.step {l : NetLabel} {n' : Net} (h : WakeRun n) (ok : WakeOk cfg n l) (hs : Net.step cfg n l = some n') :
    WakeRun n' := by
  cases l with
  | arrives b =>
    cases hs
    exact ⟨h.conn, h.armed.arrives h.conn.steady b⟩
  | moves m =>
    obtain ⟨c, hc, hn⟩ := Option.bind_eq_some_iff.1 hs
    obtain ⟨asked, finishing, flow, unfinished, draining⟩ := ok m rfl
    have move := step_move hc
    have armed := h.armed.step h.conn.steady h.conn.held h.conn.buffered h.conn.kept h.conn.flowing asked flow
      unfinished draining move hn
    refine ⟨?_, armed⟩
    rw [hears_conn hn]
    exact h.conn.step asked finishing flow move

/-- In every run whose steps meet the condition: when bytes are there that a connection waits for, an
    event is queued. -/
theorem wake_up_queued (run : Runs.Reached (Net.step cfg) Opened (WakeOk cfg) n) (live : n.conn.live = true)
    (loop : n.conn.stack = []) (state : n.conn.request.state = .read) (unread : n.unread ≠ []) : n.queued = true := by
  have kept : WakeRun n := run.invariant (fun _ h => ⟨consuming_accepted h.1, armed_opened h⟩) fun _ _ _ h ok hs => h.step ok hs
  refine (kept.armed.told live state).resolve_right ?_ unread
  rw [loop]
  simp

end Socket

section Session

def opened : Net := { conn := accepted }

theorem opened_opened : Opened opened := ⟨accepted_accepted, fun _ h => absurd rfl h⟩

def arrive (bs : List UInt8) : List NetLabel := bs.map .arrives

/-- The first bytes of a head are read, and the next ones arrive. -/
theorem wake_up_queued_head : ∃ n, Runs.Reached (Net.step {}) Opened (WakeOk {}) n ∧ n.conn.stack = [] ∧
    n.unread = ascii "TTP" ∧ n.queued = true := by
  have run : ((Runs.exec (Runs.guarded (Net.step {}) (WakeOk {}))
      (arrive (ascii "GET / H") ++ (reads (ascii "GET / H") :: execs 3).map .moves ++ arrive (ascii "TTP")) opened).any
        fun n => decide (n.conn.live = true ∧ n.conn.stack = [] ∧ n.conn.request.state = .read ∧
          n.unread = ascii "TTP")) = true := by
    decide +kernel
  obtain ⟨n, hn, hs⟩ := (Option.any_eq_true _ _).1 run
  rw [decide_eq_true_eq] at hs
  obtain ⟨live, stack, state, unread⟩ := hs
  have reached : Runs.Reached (Net.step {}) Opened (WakeOk {}) n := .guarded (.init opened_opened) hn
  exact ⟨n, reached, stack, unread, wake_up_queued reached live stack state (by rw [unread]; decide)⟩

/-- The buffer has its maximum capacity, and `read` returns the first ten bytes of a head. -/
theorem wake_up_lost : ∃ n, Runs.Reached (Net.step streamConfig) Opened (fun _ _ => True) n ∧
    n.conn.live = true ∧ n.conn.stack = [] ∧ n.conn.request.state = .read ∧
      n.unread = ascii "TTP/1.1\r\nA: b\r\n\r\n" ∧ n.queued = false := by
  have run : ((Runs.exec (Net.step streamConfig)
      ((readsOnce .fail :: execs 1).map .moves ++ arrive (ascii "GET /abc HTTP/1.1\r\nA: b\r\n\r\n") ++
        (.socketEvent :: readsOnce (.bytes (ascii "GET /abc H")) :: execs 3).map .moves) opened).any
        fun n => decide (n.conn.live = true ∧ n.conn.stack = [] ∧ n.conn.request.state = .read ∧
          n.unread = ascii "TTP/1.1\r\nA: b\r\n\r\n" ∧ n.queued = false)) = true := by
    decide +kernel
  obtain ⟨n, hn, hs⟩ := (Option.any_eq_true _ _).1 run
  rw [decide_eq_true_eq] at hs
  exact ⟨n, .exec (.init opened_opened) hn, hs⟩

end Session

end HttpServer.WakeUps
