import HttpServer.HeldRequests

set_option autoImplicit false

/-!
# The memory counter of the server

All connections of a server share `server->memused`. Each change of a capacity must change it by the
same amount.
-/
namespace HttpServer.ServerMemory
open HttpServer.Parser ReadBuffer ParserInvariant ParserCalls RequestUtil Respond Connection ConnectionSteps
  ConnectionInvariant HeldRequests

/-- The connections that were accepted so far, each with its own stack. -/
structure Server where
  conns : List Conn := []
  memused : ℤ := 0

/-- A connection is accepted, or one of them takes a step. -/
inductive ServerLabel where
  | accept (respond : RespondEnv)
  | conn (i : ℕ) (l : Label)

def Server.step (cfg : Config) (s : Server) : ServerLabel → Option Server
  | .accept respond =>
    (hsAcceptAndBeginRequestCycle respond s.memused).map fun c =>
      { conns := s.conns ++ [c], memused := c.memused }
  | .conn i l =>
    s.conns[i]?.bind fun c =>
      (Connection.step cfg { c with memused := s.memused } l).map fun c =>
        { conns := s.conns.set i c, memused := c.memused }

def accounted (c : Conn) : ℤ := if c.live then held c.request.buffer else 0

/-- The capacities of the buffers of the live requests. -/
def Server.held (s : Server) : ℤ := (s.conns.map accounted).sum

/-- `done_headers` does not resize the buffer in the call of the parser that a step makes. -/
def KeepsBlock (cfg : Config) (c : Conn) : Label → Prop
  | .exec blk _ => ExecOk (fun _ _ => True)
      (fun a _ s => a = .doneHeaders → ¬ Resizes cfg.httpMaxRequestBufSize s) cfg.httpMaxRequestBufSize blk.1
      c.request.parser c.request.buffer
  | _ => True

section Account

variable {cfg : Config} {c c' : Conn} {l : Label} {stack : List Frame}

theorem accounted_live (live : c.live = true) : accounted c = held c.request.buffer := if_pos live

theorem held_free (buffer : HshBufferS) (memused : ℤ) :
    held (hsBufferFree buffer memused).1 = 0 ∧ (hsBufferFree buffer memused).2 = memused - held buffer := by
  unfold hsBufferFree held
  split
  · simp
  · simp

theorem held_block {buffer buffer' : HshBufferS} (buf : buffer'.buf = buffer.buf)
    (capacity : buffer'.capacity = buffer.capacity) : held buffer' = held buffer := by
  unfold held
  rw [buf, capacity]

/-- The counter changes by what the connection holds more, and no capacity becomes negative. -/
structure Balanced (c c' : Conn) : Prop where
  memused_eq : c'.memused - accounted c' = c.memused - accounted c
  nonneg : 0 ≤ accounted c → 0 ≤ accounted c'

theorem Balanced.trans {d : Conn} (h : Balanced c d) (h' : Balanced d c') : Balanced c c' :=
  ⟨h'.memused_eq.trans h.memused_eq, fun nonneg => h'.nonneg (h.nonneg nonneg)⟩

theorem Balanced.same (live : c'.live = c.live) (memused : c'.memused = c.memused)
    (same : held c'.request.buffer = held c.request.buffer) : Balanced c c' := by
  have eq : accounted c' = accounted c := by
    unfold accounted
    rw [live, same]
  exact ⟨by rw [eq, memused], fun nonneg => nonneg.trans_eq eq.symm⟩

theorem balanced_terminate (live : c.live = true) : Balanced c (hsRequestTerminateConnection c) := by
  have zero : accounted (hsRequestTerminateConnection c) = 0 := rfl
  refine ⟨?_, fun _ => zero.ge⟩
  rw [zero, accounted_live live]
  change (hsBufferFree c.request.buffer c.memused).2 - 0 = _
  rw [(held_free _ _).2]
  ring

theorem balanced_finished (timeout : ℤ) (live : c.live = true) : Balanced c (finished timeout c) := by
  have zero : accounted (finished timeout c) = 0 := by
    rw [accounted_live (c := finished timeout c) live]
    exact (held_free _ _).1
  refine ⟨?_, fun _ => zero.ge⟩
  rw [zero, accounted_live live]
  change (hsBufferFree c.request.buffer c.memused).2 - 0 = _
  rw [(held_free _ _).2]
  ring

theorem balanced_entered (env : ReadEnv) (live : c.live = true) : Balanced c (entered cfg env c) := by
  by_cases none : c.request.buffer.buf = 0
  · have old : accounted c = 0 := by
      rw [accounted_live live, held, if_neg (not_not.2 none)]
    have new : accounted (entered cfg env c) = cfg.httpRequestBufSize := by
      rw [accounted_live (by simpa using live), held, if_pos (entered_buf env c)]
      unfold entered initBuffer
      rw [if_pos none]
      rfl
    refine ⟨?_, fun _ => cfg.initial_pos.le.trans_eq new.symm⟩
    rw [old, new]
    unfold entered initBuffer
    rw [if_pos none]
    change c.memused + cfg.httpRequestBufSize - cfg.httpRequestBufSize = _
    ring
  · unfold entered initBuffer
    rw [if_neg none]
    exact .same rfl rfl rfl

theorem balanced_filled {env : ReadEnv} {r : ReadReturn} {max : ℤ} (live : c.live = true)
    (block : c.request.buffer.buf ≠ 0)
    (hr : hsReadIntoBuffer max env.readCalls c.request.buffer c.memused = some r) :
    Balanced c (filled env r c) := by
  have blocks := readCalls_blockOk env
  obtain ⟨block', memused, nonneg⟩ := hsReadIntoBuffer_block blocks block hr
  have old : accounted c = c.request.buffer.capacity := by
    rw [accounted_live live, held, if_pos block]
  have new : accounted (filled env r c) = r.buffer.capacity := by
    rw [accounted_live (c := filled env r c) live, held]
    exact if_pos block'
  refine ⟨?_, fun h => ?_⟩
  · rw [old, new]
    exact memused
  · rw [new]
    exact nonneg (h.trans_eq old)

theorem balanced_answered {env : RespondEnv} {request : HttpRequestS} {memused : ℤ} (live : c.live = true)
    (h : Responded env.blks c.request c.memused request memused) : Balanced c (answered request memused c) := by
  obtain ⟨n, hn⟩ := h.buf_mem
  have block : request.buffer.buf ≠ 0 := hn.trans_ne (env.blocks n).2.1.ne'
  have new : accounted (answered request memused c) = request.buffer.capacity := by
    rw [accounted_live (c := answered request memused c) live, held]
    exact if_pos block
  refine ⟨?_, fun _ => h.capacity_pos.le.trans_eq new.symm⟩
  rw [new, accounted_live live]
  exact h.memused_eq

theorem balanced_move (steady : Steady c) (keeps : KeepsBlock cfg c l) (move : Move cfg c l c') :
    Balanced c c' := by
  have alive : ∀ {frame stack}, c.stack = frame :: stack → waits frame = false → c.live = true :=
    fun hstack library => (steady.library hstack library).live
  have parse : ∀ {stack blk respond token parser buffer}, c.stack = .parseBuffer :: stack →
      l = .exec blk respond → hshParserExec cfg.httpMaxRequestBufSize blk.1 c.request.parser c.request.buffer =
        some (token, parser, buffer) → held buffer = held c.request.buffer := by
    intro stack blk respond token parser buffer hstack hl hr
    subst hl
    obtain ⟨buf, capacity⟩ := hshParserExec_block keeps hr
    exact held_block buf capacity
  have enter : ∀ {stack} env, c.stack = .readRequest :: stack → Balanced c (entered cfg env (popped stack c)) := by
    intro stack env hstack
    have pop : Balanced c (popped stack c) := .same rfl rfl rfl
    exact pop.trans (balanced_entered env (alive hstack rfl))
  have fill : ∀ {stack env r}, c.stack = .readRequest :: stack →
      hsReadIntoBuffer cfg.httpMaxRequestBufSize (ReadEnv.readCalls env)
        (entered cfg env (popped stack c)).request.buffer (entered cfg env (popped stack c)).memused = some r →
      Balanced c (filled env r (entered cfg env (popped stack c))) := by
    intro stack env r hstack hr
    have live : (entered cfg env (popped stack c)).live = true := 
      (entered_live _ _).trans (alive hstack rfl)
    exact (enter env hstack).trans (balanced_filled live (entered_buf _ _) hr)
  have finish : ∀ {stack} timeout call, c.stack = .writeSocket :: stack →
      Balanced c (finished timeout (written call (popped stack c))) := by
    intro stack timeout call hstack
    have write : Balanced c (written call (popped stack c)) := .same rfl rfl rfl
    exact write.trans (balanced_finished timeout (alive hstack rfl))
  cases move with
  | wakeRead => exact .same rfl rfl rfl
  | wakeWrite => exact .same rfl rfl rfl
  | swallow => exact .same rfl rfl rfl
  | tick => exact .same rfl rfl rfl
  | expire live =>
    have set : Balanced c (setTimeout (c.request.timeout - 1) c) := .same rfl rfl rfl
    exact set.trans (balanced_terminate live)
  | @readSkip env stack hstack => exact (enter env hstack).trans (.same rfl rfl rfl)
  | @readEof env stack r hstack requires hr =>
    have live : (filled env r (entered cfg env (popped stack c))).live = true :=
      (entered_live _ _).trans (alive hstack rfl)
    exact (fill hstack hr).trans (balanced_terminate live)
  | readMore hstack requires hr => exact (fill hstack hr).trans (.same rfl rfl rfl)
  | execNone hstack hr => exact .same rfl rfl (parse hstack rfl hr)
  | @execErr _ _ stack _ parser buffer request memused hstack hr type hresp =>
    have pop : Balanced c ((parsed parser buffer (popped stack c)).log .parseErr) :=
      .same rfl rfl (parse hstack rfl hr)
    have answer := balanced_answered (c := (parsed parser buffer (popped stack c)).log .parseErr)
      (alive hstack rfl) (hsRequestRespond_responded hresp)
    exact (pop.trans answer).trans (.same rfl rfl rfl)
  | execLine hstack hr => exact .same rfl rfl (parse hstack rfl hr)
  | execHead hstack hr => exact .same rfl rfl (parse hstack rfl hr)
  | execSmall hstack hr => exact .same rfl rfl (parse hstack rfl hr)
  | execFinal hstack hr => exact .same rfl rfl (parse hstack rfl hr)
  | execPiece hstack hr => exact .same rfl rfl (parse hstack rfl hr)
  | writeMore hstack => exact .same rfl rfl rfl
  | writeErr hstack => exact (finish httpRequestTimeout _ hstack).trans (balanced_terminate (alive hstack rfl))
  | @writeClose call stack hstack =>
    have logged : Balanced (finished httpRequestTimeout (written call (popped stack c)))
        ((finished httpRequestTimeout (written call (popped stack c))).log (.responded c.serial)) := .same rfl rfl rfl
    exact ((finish _ _ hstack).trans logged).trans (balanced_terminate (alive hstack rfl))
  | writeNext hstack => exact (finish httpKeepAliveTimeout _ hstack).trans (.same rfl rfl rfl)
  | writeChunk hstack => exact (finish httpRequestTimeout _ hstack).trans (.same rfl rfl rfl)
  | respond user live hcall hf =>
    exact (balanced_answered live (responds_responded hcall hf)).trans (.same rfl rfl rfl)
  | readChunk => exact .same rfl rfl rfl
  | freeBuffer user live => exact balanced_finished _ live
  | connection => exact .same rfl rfl (by simp)
  | callbackReturn => exact .same rfl rfl rfl
  | finalChunk => exact .same rfl rfl rfl

theorem balanced_accept {respond : RespondEnv} {memused : ℤ}
    (h : hsAcceptAndBeginRequestCycle respond memused = some c) :
    c.memused - accounted c = memused ∧ 0 ≤ accounted c := by
  have fresh : accounted (hsRequestInit memused) = 0 := by simp [accounted, hsRequestInit, held]
  have starts : Balanced (hsRequestInit memused) c := by
    unfold hsAcceptAndBeginRequestCycle at h
    dsimp only at h
    split at h
    · obtain ⟨request, memused', hf, rfl⟩ := startResponse_eq h
      exact (balanced_answered rfl (hsRequestRespond_responded hf)).trans (.same rfl rfl rfl)
    · cases h
      exact .same rfl rfl rfl
  refine ⟨starts.memused_eq.trans ?_, starts.nonneg fresh.ge⟩
  rw [fresh]
  exact sub_zero _

end Account

section Server

variable {cfg : Config} {s s' : Server} {l : ServerLabel}

/-- No connection makes a step that resizes a buffer for a small body. -/
def KeepsBlocks (cfg : Config) (s : Server) : ServerLabel → Prop
  | .accept _ => True
  | .conn i l => ∀ c, s.conns[i]? = some c → KeepsBlock cfg c l

structure Balance (s : Server) : Prop where
  steady : ∀ c ∈ s.conns, Steady c
  nonneg : ∀ c ∈ s.conns, 0 ≤ accounted c
  memused_eq : s.memused = s.held

theorem Balance.step (h : Balance s) (keeps : KeepsBlocks cfg s l) (hs : s.step cfg l = some s') :
    Balance s' := by
  cases l with
  | accept respond =>
    obtain ⟨c, hc, rfl⟩ := Option.map_eq_some_iff.1 hs
    obtain ⟨memused, nonneg⟩ := balanced_accept hc
    refine ⟨fun d hd => ?_, fun d hd => ?_, ?_⟩
    · rcases List.mem_append.1 hd with hd | hd
      · exact h.steady d hd
      · rw [List.mem_singleton.1 hd]
        exact steady_accepted ⟨respond, s.memused, hc⟩
    · rcases List.mem_append.1 hd with hd | hd
      · exact h.nonneg d hd
      · rw [List.mem_singleton.1 hd]
        exact nonneg
    · have total := h.memused_eq
      unfold Server.held at total ⊢
      simp only [List.map_append, List.map_cons, List.map_nil, List.sum_append, List.sum_singleton]
      omega
  | conn i l =>
    obtain ⟨c, hc, hs⟩ := Option.bind_eq_some_iff.1 hs
    obtain ⟨c', hc', rfl⟩ := Option.map_eq_some_iff.1 hs
    have mem : c ∈ s.conns := List.mem_of_getElem? hc
    have steady : Steady { c with memused := s.memused } := h.steady c mem
    have move := step_move hc'
    have balanced := balanced_move steady (keeps c hc) move
    refine ⟨fun d hd => ?_, fun d hd => ?_, ?_⟩
    · rcases List.mem_or_eq_of_mem_set hd with hd | rfl
      · exact h.steady d hd
      · exact steady.step move
    · rcases List.mem_or_eq_of_mem_set hd with hd | rfl
      · exact h.nonneg d hd
      · exact balanced.nonneg (h.nonneg c mem)
    · obtain ⟨lt, hget⟩ := List.getElem?_eq_some_iff.1 hc
      have total := h.memused_eq
      have counter : c'.memused - accounted c' = s.memused - accounted c := balanced.memused_eq
      unfold Server.held at total ⊢
      rw [List.map_set, List.sum_set', dif_pos (by simpa using lt)]
      simp only [List.getElem_map, hget]
      omega

/-- In every run of a server, with any user code, in which `done_headers` never resizes a buffer,
    the counter is what the live requests hold. -/
theorem memused_held (run : Runs.Reached (Server.step cfg) (fun s => s = {}) (KeepsBlocks cfg) s) :
    s.memused = s.held ∧ 0 ≤ s.memused := by
  have start : ∀ s : Server, s = {} → Balance s := by
    rintro s rfl
    exact ⟨by simp, by simp, by simp [Server.held]⟩
  have balance := run.invariant start fun _ _ _ h keeps hs => h.step keeps hs
  refine ⟨balance.memused_eq, ?_⟩
  rw [balance.memused_eq]
  exact List.sum_nonneg fun n hn => by
    obtain ⟨c, hc, rfl⟩ := List.mem_map.1 hn
    exact balance.nonneg c hc

instance (c : Conn) (l : Label) : Decidable (KeepsBlock cfg c l) :=
  match l with
  | .exec blk _ => inferInstanceAs (Decidable (ExecOk _ (fun a _ s => a = .doneHeaders → ¬ Resizes _ s) _ blk.1 _ _))
  | .socketEvent | .timerEvent | .read _ | .call _ | .write _ | .callbackReturn | .finalChunk => isTrue trivial

instance (s : Server) (l : ServerLabel) : Decidable (KeepsBlocks cfg s l) :=
  match l with
  | .accept _ => isTrue trivial
  | .conn i l =>
    match h : s.conns[i]? with
    | none => isTrue fun _ hc => absurd (h.symm.trans hc) nofun
    | some c => decidable_of_iff (KeepsBlock cfg c l)
        ⟨fun keeps _ hd => Option.some.inj (h.symm.trans hd) ▸ keeps, fun keeps => keeps c h⟩

/-- One connection is idle, the other has a request whose handler was called. -/
theorem memused_held_two : ∃ s, Runs.Reached (Server.step {}) (fun s => s = {}) (KeepsBlocks {}) s ∧
    s.held = 2048 ∧ s.memused = s.held := by
  have run : ((Runs.exec (Runs.guarded (Server.step {}) (KeepsBlocks {}))
      ([.accept sessionEnv, .accept sessionEnv, .conn 0 (readsOnce .fail), .conn 0 (.exec sessionBlock sessionEnv)] ++
        handled.map (.conn 1)) {}).any fun s => decide (s.held = 2048)) = true := by
    decide +kernel
  obtain ⟨s, hs, held⟩ := (Option.any_eq_true _ _).1 run
  rw [decide_eq_true_eq] at held
  have reached : Runs.Reached (Server.step {}) (fun s => s = {}) (KeepsBlocks {}) s := .guarded (.init rfl) hs
  exact ⟨s, reached, held, (memused_held reached).1⟩

/-- The buffer for a small body that does not fit is resized, and the counter is not. -/
theorem memused_after_resize : ∃ s, Runs.Reached (Server.step {}) (fun s => s = {}) (fun _ _ => True) s ∧
    s.memused = 1024 ∧ s.held = 2041 := by
  have run : ((Runs.exec (Server.step {}) (.accept sessionEnv ::
      (reads (ascii "POST / HTTP/1.1\r\nContent-Length: 2000\r\n\r\n") :: execs 6).map (.conn 0)) {}).any
        fun s => decide (s.memused = 1024 ∧ s.held = 2041)) = true := by
    decide +kernel
  obtain ⟨s, hs, held⟩ := (Option.any_eq_true _ _).1 run
  rw [decide_eq_true_eq] at held
  exact ⟨s, .exec (.init rfl) hs, held⟩

end Server

end HttpServer.ServerMemory
