import HttpServer.HeldRequests

set_option autoImplicit false

/-!
# Input that the parser rejects

No action sets a token of type `HSH_TOK_ERR`, so no call of the parser returns one: where a byte leads
to the error state or a token exceeds its limit, the call ends and nothing is reported.
-/
namespace HttpServer.ParseErrors
open MachineInt Scanner ParserTables HttpServer.Parser ParserInvariant BodyPhases ParserCalls Respond Connection
  ConnectionSteps ConnectionInvariant HeldRequests

/-- A byte does not lead to the error state. -/
def GoodByte (c : UInt8) (s : Exec) : Prop := transTarg s.cs c.toNat ≠ hshHttpError

/-- A token does not exceed its limit. -/
def WithinLimit (a : Action) (s : Exec) : Prop :=
  a = .incCount → wrap16 (s.parser.limitCount + 1) ≤ s.parser.limitMax

instance (c : UInt8) (s : Exec) : Decidable (GoodByte c s) := inferInstanceAs (Decidable (_ ≠ _))
instance (a : Action) (s : Exec) : Decidable (WithinLimit a s) := inferInstanceAs (Decidable (_ → _))

/-- The call of the parser that a step makes accepts every byte that it comes to. -/
def WellFormed (cfg : Config) (c : Conn) : Label → Prop
  | .exec blk _ => ExecOk GoodByte (fun a _ s => WithinLimit a s) cfg.httpMaxRequestBufSize blk.1
      c.request.parser c.request.buffer
  | _ => True

instance (cfg : Config) (c : Conn) (l : Label) : Decidable (WellFormed cfg c l) :=
  match l with
  | .exec blk _ => inferInstanceAs (Decidable (ExecOk GoodByte (fun a _ s => WithinLimit a s) _ blk.1 _ _))
  | .socketEvent | .timerEvent | .read _ | .call _ | .write _ | .callbackReturn | .finalChunk => isTrue trivial

/-- `HS_READ_RC_PARSE_ERR` is returned, and a response is started. -/
def Reports (c c' : Conn) : Prop := ∃ request more, c'.events = c.events ++ .parseErr :: .response request :: more

section Tokens

variable {c : Conn} {max : ℤ} {blk : NewBlock}

def NoErr (parser : HshParserS) : Prop := parser.token.type ≠ .err

theorem runAction_noErr (a : Action) (fc : UInt8) (s : Exec) (h : NoErr s.parser) :
    (runAction max blk fc a s).Sat True (fun t => NoErr t.parser) (fun t => NoErr t.parser) := by
  cases a with
  | method => exact (by decide : HshTokenE.method ≠ .err)
  | target => exact (by decide : HshTokenE.target ≠ .err)
  | version => exact (by decide : HshTokenE.version ≠ .err)
  | headerKey => exact (by decide : HshTokenE.headerKey ≠ .err)
  | headerValue => exact (by decide : HshTokenE.headerValue ≠ .err)
  | body => exact (by decide : HshTokenE.body ≠ .err)
  | endStream => exact (by decide : HshTokenE.body ≠ .err)
  | chunkSize =>
    obtain ⟨n, hn⟩ := chunkSize_cases fc s
    change (Flow.fall (chunkSize fc s)).Sat _ _ _
    rw [hn]
    exact h
  | incCount =>
    change (incCount s).Sat _ _ _
    unfold incCount
    dsimp only
    split <;> exact h
  | doneHeaders =>
    have typed : HshTokenE.headersDone ≠ .err := by decide
    change (doneHeaders max blk s).Sat _ _ _
    unfold doneHeaders
    dsimp only
    split
    · exact typed
    split
    · exact typed
    split <;> exact typed
  | chunkRead =>
    change (chunkRead max s).Sat _ _ _
    unfold chunkRead
    dsimp only
    split
    · exact h
    split
    · split
      · trivial
      · exact h
    · exact h
  | smallBodyRead =>
    change (smallBodyRead s).Sat _ _ _
    unfold smallBodyRead
    dsimp only
    split <;> exact h
  | largeBodyRead =>
    change (largeBodyRead s).Sat _ _ _
    unfold largeBodyRead
    dsimp only
    split <;> exact h
  | _ => exact h

theorem hshParserExec_noErr {parser : HshParserS} {buffer : HshBufferS}
    {r : HshTokenS × HshParserS × HshBufferS} (h : NoErr parser)
    (hr : hshParserExec max blk parser buffer = some r) : r.1.type ≠ .err ∧ NoErr r.2.1 := by
  rcases hshParserExec_acts (I := fun s => NoErr s.parser) h (fun _ _ _ h => h)
    (fun a c s hs _ => runAction_noErr a c s hs) execOk_any hr with rfl | ⟨t, ht, rfl⟩
  · exact ⟨(by decide : HshTokenE.none ≠ .err), h⟩
  · rcases leave_cases t with ⟨-, hl⟩ | ⟨-, hl⟩ <;> rw [hl]
    · exact ⟨ht, ht⟩
    · exact ⟨(by decide : HshTokenE.none ≠ .err), ht⟩

end Tokens

section Runs

variable {cfg : Config} {c c' : Conn} {l : Label} {ok : Conn → Label → Prop}

theorem entered_noErr (env : ReadEnv) (h : NoErr c.request.parser) :
    NoErr (entered cfg env c).request.parser := by
  unfold entered initBuffer
  split
  · exact (by decide : HshTokenE.method ≠ .err)
  · exact h

theorem noErr_step (h : NoErr c.request.parser) (move : Move cfg c l c') : NoErr c'.request.parser := by
  cases move with
  | readSkip => exact entered_noErr _ h
  | readEof => exact entered_noErr _ h
  | readMore => exact entered_noErr _ h
  | execNone _ hr => exact (hshParserExec_noErr h hr).2
  | execErr _ hr type => exact absurd type (hshParserExec_noErr h hr).1
  | execLine _ hr => exact (hshParserExec_noErr h hr).2
  | execHead _ hr => exact (hshParserExec_noErr h hr).2
  | execSmall _ hr => exact (hshParserExec_noErr h hr).2
  | execFinal _ hr => exact (hshParserExec_noErr h hr).2
  | execPiece _ hr => exact (hshParserExec_noErr h hr).2
  | respond _ _ hcall hf =>
    have same := (responds_responded hcall hf).parser_eq
    exact same.symm ▸ h
  | connection => simpa using h
  | _ => exact h

theorem noErr_accepted (h : Accepted c) : NoErr c.request.parser := by
  have fresh : HshTokenE.method ≠ .err := by decide
  obtain ⟨memused, rfl | ⟨respond, request, memused', hf, rfl⟩⟩ := accepted_cases h
  · exact fresh
  · have same := (hsRequestRespond_responded hf).parser_eq
    exact same.symm ▸ fresh

theorem noParseErr_step (err : NoErr c.request.parser) (h : .parseErr ∉ c.events) (move : Move cfg c l c') :
    .parseErr ∉ c'.events := by
  cases move with
  | execErr _ hr type => exact absurd type (hshParserExec_noErr err hr).1
  | _ => simp [h, filled, popped, parsed, written, finished, setTimeout, invoked, streamed, answered,
      hsTokenArrayPush, hsRequestBeginRead, hsRequestBeginWrite, hsRequestTerminateConnection]

/-- Neither has a parse error been met, nor is the parser about to return one. -/
structure Unbroken (c : Conn) : Prop where
  parser : NoErr c.request.parser
  events : .parseErr ∉ c.events

theorem unbroken_accepted (h : Accepted c) : Unbroken c := by
  refine ⟨noErr_accepted h, ?_⟩
  obtain ⟨memused, rfl | ⟨respond, request, memused', hf, rfl⟩⟩ := accepted_cases h
  · simp [hsRequestBeginRead, hsRequestInit]
  · simp [hsRequestBeginWrite, answered, hsRequestInit]

theorem Unbroken.step (h : Unbroken c) (move : Move cfg c l c') : Unbroken c' :=
  ⟨noErr_step h.parser move, noParseErr_step h.parser h.events move⟩

/-- No run of a connection meets a parse error, whatever the client sends and user code calls. -/
theorem noParseErr_reached (run : Runs.Reached (Connection.step cfg) Accepted ok c) : .parseErr ∉ c.events :=
  have unbroken : Unbroken c := run.invariant (fun _ => unbroken_accepted) fun _ _ _ h _ hs => h.step (step_move hs)
  unbroken.events

/-- In any state of any run, a step reports a parse error exactly when it should if and only if it
    should not: the parser accepts what it comes to. -/
theorem reports_iff_wellFormed (run : Runs.Reached (Connection.step cfg) Accepted ok c) (h : ok c l)
    (hs : Connection.step cfg c l = some c') : (¬ WellFormed cfg c l ↔ Reports c c') ↔ WellFormed cfg c l := by
  have silent : ¬ Reports c c' := by
    rintro ⟨request, more, hevents⟩
    refine noParseErr_reached (run.step l h hs) ?_
    rw [hevents]
    simp
  constructor
  · intro reported
    by_contra malformed
    exact silent (reported.1 malformed)
  · intro wellFormed
    exact ⟨fun malformed => absurd wellFormed malformed, fun reported => absurd reported silent⟩

theorem reports_iff_wellFormed_get : ∃ c c',
    Runs.Reached (Connection.step {}) Accepted (fun _ _ => True) c ∧
      Connection.step {} c (.exec sessionBlock sessionEnv) = some c' ∧
      WellFormed {} c (.exec sessionBlock sessionEnv) ∧
      (¬ WellFormed {} c (.exec sessionBlock sessionEnv) ↔ Reports c c') := by
  have run : ((Runs.exec (Connection.step {}) [reads (ascii "GET / HTTP/1.1\r\n")] accepted).any fun c =>
      (Connection.step {} c (.exec sessionBlock sessionEnv)).isSome &&
        decide (WellFormed {} c (.exec sessionBlock sessionEnv))) = true := by
    decide +kernel
  obtain ⟨c, hc, hs⟩ := (Option.any_eq_true _ _).1 run
  rw [Bool.and_eq_true, decide_eq_true_eq] at hs
  obtain ⟨c', hc'⟩ := Option.isSome_iff_exists.1 hs.1
  exact ⟨c, c', session_reached hc, hc', hs.2,
    (reports_iff_wellFormed (session_reached hc) trivial hc').2 hs.2⟩

/-- A space cannot start a request; the call returns, and the connection waits for more. -/
theorem space_unreported : ∃ c c',
    Runs.Reached (Connection.step {}) Accepted (fun _ _ => True) c ∧
      Connection.step {} c (.exec sessionBlock sessionEnv) = some c' ∧
      ¬ WellFormed {} c (.exec sessionBlock sessionEnv) ∧ ¬ Reports c c' ∧ c'.request.parser.state = hshHttpError ∧
      c'.stack = [] ∧ c'.request.state = .read := by
  have run : ((Runs.exec (Connection.step {}) [reads (ascii " ")] accepted).any fun c =>
      (Connection.step {} c (.exec sessionBlock sessionEnv)).any fun c' =>
        decide (¬ WellFormed {} c (.exec sessionBlock sessionEnv) ∧ c'.events.length = c.events.length ∧
          c'.request.parser.state = hshHttpError ∧ c'.stack = [] ∧ c'.request.state = .read)) = true := by
    decide +kernel
  obtain ⟨c, hc, hs⟩ := (Option.any_eq_true _ _).1 run
  obtain ⟨c', hc', hs⟩ := (Option.any_eq_true _ _).1 hs
  rw [decide_eq_true_eq] at hs
  refine ⟨c, c', session_reached hc, hc', hs.1, ?_, hs.2.2⟩
  rintro ⟨request, more, hevents⟩
  have length := hs.2.1
  rw [hevents] at length
  simp at length

end Runs

end HttpServer.ParseErrors
