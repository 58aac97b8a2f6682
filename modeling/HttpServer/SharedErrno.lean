import HttpServer.ServerMemory

set_option autoImplicit false

/-!
# errno and the connections of a server

`hs_write_socket` tests `errno` after every write, and `errno` is what the last system call that
failed has set, whichever connection it was for.
-/
namespace HttpServer.SharedErrno
open Respond Connection ConnectionSteps ConnectionInvariant HeldRequests ServerMemory

section Process

def epipe : ℤ := 32

/-- A server with the process-wide `errno`, and the values that failing system calls have set so far. -/
structure Process where
  server : Server := {}
  errno : ℤ := 0
  failures : List ℤ := []

def failing : Event → Bool
  | .read results => results.contains .fail
  | .write bytes => bytes = -1
  | _ => false

def Process.fail (p : Process) (error : ℤ) : Process :=
  { p with errno := error, failures := p.failures ++ [error] }

/-- A step of the server, in which a failing call sets `errno`, or a failing call of the event loop. -/
inductive ProcessLabel where
  | accept (respond : RespondEnv)
  | conn (i : ℕ) (l : Label) (error : ℤ)
  | loop (error : ℤ)

/-- `write` and the value of `errno` behind it. -/
def writeCall (errno bytes error : ℤ) : WriteCall where
  bytes := bytes
  epipe := (if bytes = -1 then error else errno) = epipe

/-- The test of `errno` is the one of a call in this process. -/
def Agrees (p : Process) (error : ℤ) : Label → Prop
  | .write call => call.epipe = (writeCall p.errno call.bytes error).epipe
  | _ => True

instance (p : Process) (error : ℤ) (l : Label) : Decidable (Agrees p error l) :=
  match l with
  | .write call => inferInstanceAs (Decidable (call.epipe = _))
  | .socketEvent | .timerEvent | .read _ | .exec _ _ | .call _ | .callbackReturn | .finalChunk => isTrue trivial

def Process.step (cfg : Config) (p : Process) : ProcessLabel → Option Process
  | .accept respond => (p.server.step cfg (.accept respond)).map fun server => { p with server := server }
  | .conn i l error =>
    if Agrees p error l then
      p.server.conns[i]?.bind fun c =>
        (p.server.step cfg (.conn i l)).bind fun server =>
          server.conns[i]?.map fun c' =>
            let p := { p with server := server }
            if (since c c').any failing then p.fail error else p
    else none
  | .loop error => some (p.fail error)

/-- `hs_write_socket` of a connection, when `write` returns `bytes` and sets `errno` to `error` if it fails. -/
def hsWriteSocketRc (p : Process) (bytes error : ℤ) (c : Conn) : Option HsWriteRc :=
  (hsWriteSocket (writeCall p.errno bytes error) c).map Prod.fst

end Process

section Writes

variable {cfg : Config} {p q : Process} {c : Conn} {bytes error : ℤ} {rc rc' : HsWriteRc}

theorem errno_last (run : Runs.Reached (Process.step cfg) (fun p => p = {}) (fun _ _ => True) p) :
    p.errno = p.failures.getLastD 0 := by
  refine run.invariant (I := fun p => p.errno = p.failures.getLastD 0) (fun p h => by rw [h]; rfl) ?_
  intro p l p' h _ hs
  have failed : ∀ (p : Process) error, (p.fail error).errno = (p.fail error).failures.getLastD 0 := by
    intro p error
    simp [Process.fail]
  cases l with
  | accept respond =>
    obtain ⟨server, -, rfl⟩ := Option.map_eq_some_iff.1 hs
    exact h
  | conn i l error =>
    unfold Process.step at hs
    dsimp only at hs
    split at hs
    · obtain ⟨c, -, hs⟩ := Option.bind_eq_some_iff.1 hs
      obtain ⟨server, -, hs⟩ := Option.bind_eq_some_iff.1 hs
      obtain ⟨c', -, rfl⟩ := Option.map_eq_some_iff.1 hs
      split
      · exact failed _ _
      · exact h
    · cases hs
  | loop error =>
    cases hs
    exact failed p error

theorem hsWriteSocketRc_socketErr (h : hsWriteSocketRc p bytes error c = some rc) :
    rc = .socketErr ↔ (if bytes = -1 then error else p.errno) = epipe := by
  obtain ⟨r, hr, rfl⟩ := Option.map_eq_some_iff.1 h
  obtain ⟨-, rfl⟩ := hsWriteSocket_eq hr
  unfold writeRc writeCall
  by_cases pipe : (if bytes = -1 then error else p.errno) = epipe
  · simp only [pipe, decide_true, if_true]
  · simp only [pipe, decide_false, Bool.false_eq_true, if_false, iff_false]
    split
    · decide
    split
    · decide
    split <;> decide

/-- Without an earlier `EPIPE` the test is about the own write. -/
theorem hsWriteSocketRc_own (own : bytes = -1 ∨ p.errno ≠ epipe) :
    writeCall p.errno bytes error = writeCall 0 bytes error := by
  unfold writeCall
  by_cases failed : bytes = -1
  · rw [if_pos failed, if_pos failed]
  · rw [if_neg failed, if_neg failed, decide_eq_false (own.resolve_left failed)]
    rfl

/-- In every run, whatever the connections do: `hs_write_socket` reports an error for the own write only
    if and only if that write fails or the last call that failed did not fail with `EPIPE`. Then the
    result is the same in any two runs. -/
theorem socketErr_own (run : Runs.Reached (Process.step cfg) (fun p => p = {}) (fun _ _ => True) p)
    (run' : Runs.Reached (Process.step cfg) (fun p => p = {}) (fun _ _ => True) q)
    (h : hsWriteSocketRc p bytes error c = some rc) (h' : hsWriteSocketRc q bytes error c = some rc') :
    ((rc = .socketErr → bytes = -1 ∧ error = epipe) ↔ bytes = -1 ∨ p.failures.getLastD 0 ≠ epipe) ∧
      ((bytes = -1 ∨ p.failures.getLastD 0 ≠ epipe) → (bytes = -1 ∨ q.failures.getLastD 0 ≠ epipe) → rc = rc') := by
  rw [← errno_last run, ← errno_last run']
  have err := hsWriteSocketRc_socketErr h
  refine ⟨⟨fun only => ?_, fun own failed => ?_⟩, fun own own' => ?_⟩
  · by_cases failed : bytes = -1
    · exact .inl failed
    · refine .inr fun stale => failed (only (err.2 ?_)).1
      rw [if_neg failed, stale]
  · have pipe := err.1 failed
    rcases own with failed | fresh
    · rw [if_pos failed] at pipe
      exact ⟨failed, pipe⟩
    · by_cases failed : bytes = -1
      · rw [if_pos failed] at pipe
        exact ⟨failed, pipe⟩
      · rw [if_neg failed] at pipe
        exact absurd pipe fresh
  · unfold hsWriteSocketRc at h h'
    rw [hsWriteSocketRc_own own] at h
    rw [hsWriteSocketRc_own own', h] at h'
    exact Option.some.inj h'

end Writes

section Session

/-- A connection is accepted, sends a request and gets the first ten bytes of its response. -/
def halfway (i : ℕ) : List ProcessLabel :=
  let steps : List Label := handled ++ [.call (.respond {} sessionEnv), .write ⟨10, false⟩]
  .accept sessionEnv :: steps.map fun l => .conn i l 11

theorem socketErr_own_halfway : ∃ p c,
    Runs.Reached (Process.step {}) (fun p => p = {}) (fun _ _ => True) p ∧ p.server.conns[0]? = some c ∧
      hsWriteSocketRc p 88 0 c = some .success ∧
      ((HsWriteRc.success = .socketErr → (88 : ℤ) = -1 ∧ (0 : ℤ) = epipe) ↔
        (88 : ℤ) = -1 ∨ p.failures.getLastD 0 ≠ epipe) := by
  have run : ((Runs.exec (Process.step {}) (halfway 0 ++ [.conn 0 .socketEvent 0]) {}).any fun p =>
      p.server.conns[0]?.any fun c => decide (hsWriteSocketRc p 88 0 c = some .success)) = true := by
    decide +kernel
  obtain ⟨p, hp, hs⟩ := (Option.any_eq_true _ _).1 run
  obtain ⟨c, hc, rc⟩ := (Option.any_eq_true _ _).1 hs
  rw [decide_eq_true_eq] at rc
  have reached : Runs.Reached (Process.step {}) (fun p => p = {}) (fun _ _ => True) p := .exec (.init rfl) hp
  exact ⟨p, c, reached, hc, rc, (socketErr_own reached reached rc rc).1⟩

/-- The write of one connection fails with `EPIPE`, and the complete write of another one is an error. -/
theorem socketErr_of_other : ∃ p c,
    Runs.Reached (Process.step {}) (fun p => p = {}) (fun _ _ => True) p ∧ p.server.conns[1]? = some c ∧
      c.live = true ∧ c.stack = [.writeSocket] ∧ hsWriteSocketRc p 88 0 c = some .socketErr ∧
      ¬ (HsWriteRc.socketErr = .socketErr → (88 : ℤ) = -1 ∧ (0 : ℤ) = epipe) := by
  have run : ((Runs.exec (Process.step {}) (halfway 0 ++ halfway 1 ++
      [.conn 0 .socketEvent 0, .conn 0 (.write ⟨-1, true⟩) 32, .conn 1 .socketEvent 0]) {}).any fun p =>
        p.server.conns[1]?.any fun c => decide
          (c.live = true ∧ c.stack = [.writeSocket] ∧ hsWriteSocketRc p 88 0 c = some .socketErr)) = true := by
    decide +kernel
  obtain ⟨p, hp, hs⟩ := (Option.any_eq_true _ _).1 run
  obtain ⟨c, hc, state⟩ := (Option.any_eq_true _ _).1 hs
  rw [decide_eq_true_eq] at state
  exact ⟨p, c, .exec (.init rfl) hp, hc, state.1, state.2.1, state.2.2, by decide⟩

end Session

end HttpServer.SharedErrno
