import HttpServer.HeadTexts
import HttpServer.RequestRuns

set_option autoImplicit false

/-!
# The head in the buffer

Behind an accepted head the buffer begins with it, whatever is read and parsed of the body.
-/
namespace HttpServer.KeptHeads
open MachineInt Scanner ParserTables ParserGrammar HttpServer.Parser ReadBuffer ParserInvariant ParserRuns HeadMachine
  HeadGrammar HeadRuns BodyPhases HeadFields HeadTexts RequestRuns

structure Front (max : ℤ) (w : List UInt8) (b : HshBufferS) : Prop where
  ok : BufferOk true max b
  ahi_eq : b.afterHeadersIndex = w.length
  text : slice b.data 0 w.length = w

section Pieces

variable {max : ℤ} {blk : NewBlock} {w : List UInt8} {s t : Exec} {c : UInt8} {parser parser' : HshParserS}
  {buffer buffer' : HshBufferS} {token : HshTokenS}

/-- Only bytes behind the head were written. -/
structure Untouched (max : ℤ) (b b' : HshBufferS) : Prop where
  ok : BufferOk true max b'
  ahi_eq : b'.afterHeadersIndex = b.afterHeadersIndex
  same : ∀ i, 0 ≤ i → i < b.afterHeadersIndex → b'.data i = b.data i

theorem Untouched.refl {b : HshBufferS} (ok : BufferOk true max b) : Untouched max b b :=
  ⟨ok, rfl, fun _ _ _ => rfl⟩

theorem untouched_rest {b b' : HshBufferS} (ok : BufferOk true max b) (buf : b'.buf = b.buf)
    (capacity : b'.capacity = b.capacity) (ahi : b'.afterHeadersIndex = b.afterHeadersIndex)
    (data : ∀ i, i < b.afterHeadersIndex → b'.data i = b.data i)
    (length : b.afterHeadersIndex ≤ b'.length ∧ b'.length ≤ b.capacity) : Untouched max b b' := by
  obtain ⟨pos, lt, nonneg, -, -, cap, held⟩ := ok
  refine ⟨⟨buf ▸ pos, buf ▸ lt, ahi ▸ nonneg, ahi ▸ length.1, by omega, capacity ▸ cap, fun strict => ?_⟩, ahi,
    fun i _ hi => data i hi⟩
  rw [capacity]
  exact ⟨length.2, (held strict).2⟩

theorem Front.untouched {b b' : HshBufferS} (h : Front max w b) (same : Untouched max b b') : Front max w b' := by
  have ahi := h.ahi_eq
  exact ⟨same.ok, same.ahi_eq.trans ahi, (slice_congr fun i lo hi => same.same i lo (by omega)).trans h.text⟩

theorem memcpy_cases {b b' : HshBufferS} {dst src n : ℤ} (h : b.memcpy dst src n = some b') :
    0 ≤ n ∧ dst + n ≤ b.capacity ∧
      b' = { b with data := fun i => if dst ≤ i ∧ i < dst + n then b.data (src + (i - dst)) else b.data i } := by
  unfold HshBufferS.memcpy at h
  split at h
  · rename_i inside
    exact ⟨inside.1, inside.2.2.2.1, (Option.some.inj h).symm⟩
  · cases h

/-- The actions of a body that is read in pieces. -/
def pieceActions : List Action := [.body, .chunkStart, .chunkSize, .chunkRead, .endStream, .largeBodyRead, .error]

theorem piece_untouched {a : Action} (ha : a ∈ pieceActions) (ok : BufferOk true max t.buffer) :
    ((machine max blk).act a c t).Sat True (fun s => Untouched max t.buffer s.buffer)
      (fun s => Untouched max t.buffer s.buffer) := by
  have nonneg := ok.ahi_nonneg
  have le := ok.ahi_le
  have cap := ok.capacity_lt
  obtain ⟨held, -⟩ := ok.held rfl
  have same := Untouched.refl ok
  simp only [pieceActions, List.mem_cons, List.not_mem_nil, or_false] at ha
  rcases ha with rfl | rfl | rfl | rfl | rfl | rfl | rfl
  · exact same
  · exact same
  · change Untouched max t.buffer (chunkSize c t).buffer
    obtain ⟨n, hn⟩ := chunkSize_cases c t
    rw [hn]
    exact same
  · change (chunkRead max t).Sat _ _ _
    unfold chunkRead
    dsimp only
    split
    · exact same
    split
    · split
      · trivial
      · rename_i b moved
        obtain ⟨count, room, rfl⟩ := memcpy_cases moved
        have length : wrap32 (t.buffer.afterHeadersIndex + t.pe - t.p) = t.buffer.afterHeadersIndex + (t.pe - t.p) := by
          rw [wrap32_eq (by omega) (by omega)]
          ring
        refine untouched_rest ok rfl rfl rfl (fun i hi => if_neg (by omega)) ?_
        change _ ≤ wrap32 (t.buffer.afterHeadersIndex + t.pe - t.p) ∧ wrap32 (t.buffer.afterHeadersIndex + t.pe - t.p) ≤ _
        rw [length]
        exact ⟨by omega, room⟩
    · exact same
  · exact same
  · change (largeBodyRead t).Sat _ _ _
    unfold largeBodyRead
    dsimp only
    split
    · exact same
    · exact untouched_rest ok rfl rfl rfl (fun _ _ => rfl) ⟨le_refl _, le.trans held⟩
  · exact same

theorem stream_actions (hs : StreamInv s) (alive : s.cs ≠ hshHttpError) :
    ∀ a ∈ transActions s.cs c.toNat, a ∈ pieceActions := by
  have hc : c.toNat < 256 := c.toNat_lt
  by_cases data : phase s.cs = .bodyData
  · obtain ⟨-, hacts⟩ := bodyData_agree hs.state_lt hc data
    have lists : ∀ as ∈ bodyDataActions, ∀ a ∈ as, a ∈ pieceActions := by decide
    exact lists _ hacts
  have hacts := tables_agree_exact hs.state_lt hc alive data (by
    constructor <;> intro h <;> have := hs.stream <;> rw [h] at this <;> cases this)
  have outside : ∀ a ∈ [Action.chunkStart, .chunkSize, .endStream, .error], a ∈ pieceActions := by decide
  have inside : ∀ a ∈ [Action.body, .chunkStart, .chunkSize, .chunkRead, .endStream, .largeBodyRead],
      a ∈ pieceActions := by decide
  rw [hacts]
  intro a ha
  obtain ⟨-, ⟨-, plain⟩ | ⟨as, first, rest⟩⟩ := phaseStep_stream hs.stream data c.toNat
  · exact outside a (plain a ha)
  · rcases first with heq | ⟨-, heq⟩
    · rw [heq] at ha
      rcases List.mem_cons.1 ha with rfl | ha
      · decide
      · exact inside a (rest a ha)
    · rw [heq] at ha
      exact inside a (rest a ha)

theorem stream_keeps {I : HshBufferS → Prop} (ok : ∀ b, I b → BufferOk true max b)
    (keeps : ∀ b b', I b → Untouched max b b' → I b') (hs : StreamInv s) (alive : s.cs ≠ hshHttpError) (h : I s.buffer) :
    ((machine max blk).step c s).Sat True (fun s => I s.buffer) (fun s => I s.buffer) := by
  refine Machine.step_sat (P := fun s => I s.buffer) _ ?_ fun t ht => ?_
  · exact Machine.runActs_sat _ (C := fun _ _ _ => True) (fun a ha t ht _ =>
      (piece_untouched (stream_actions hs alive a ha) (ok _ ht)).mono (fun u hu => keeps _ _ ht hu)
        (fun u hu => keeps _ _ ht hu)) h (Machine.actsOk_true _ _ _ _)
  · rcases ParserCalls.again_cases t with ⟨heq, -⟩ | heq <;> rw [heq] <;> exact ht

theorem hshParserExec_streamFront (h : Streaming parser) (front : Front max w buffer)
    (hr : hshParserExec max blk parser buffer = some (token, parser', buffer')) : Front max w buffer' := by
  have step : ∀ c s, StreamInv s ∧ Front max w s.buffer → s.p ≠ s.pe → s.cs ≠ hshHttpError → True →
      ((machine max blk).step c s).Sat True (fun s => StreamInv s ∧ Front max w s.buffer)
        (fun s => Front max w s.buffer) := by
    intro c s hs _ alive _
    have inv : ((machine max blk).step c s).Sat True StreamInv StreamExit := stream_step hs.1 alive
    have same := @stream_keeps max blk s c (Front max w) (fun _ h => Front.ok h) (fun _ _ h same => Front.untouched h same)
      hs.1 alive hs.2
    cases hst : (machine max blk).step c s with
    | fall t =>
      rw [hst] at inv same
      exact ⟨inv, same⟩
    | out t =>
      rw [hst] at same
      exact same
    | fault => trivial
  rcases hshParserExec_sat (I := fun s => StreamInv s ∧ Front max w s.buffer) ⟨h buffer, front⟩
    (fun _ hs => hs.2) step execOk_any hr with heq | ⟨t, ht, heq⟩
  · cases heq
    exact front
  rcases leave_cases t with ⟨-, hl⟩ | ⟨-, hl⟩ <;> rw [hl] at heq <;> cases heq <;>
    exact ⟨bufferOk_index ht.ok _, ht.ahi_eq, ht.text⟩

theorem Front.read {calls : List ReadCall} {memused : ℤ} {r : ReadReturn} (h : Front max w buffer)
    (max_ge : -2147483648 ≤ max) (max_lt : max < 2147483648) (hblk : ∀ call ∈ calls, BlockOk call.blk)
    (hr : hsReadIntoBuffer max calls buffer memused = some r) : Front max w r.buffer := by
  obtain ⟨ok, app, -⟩ := hsReadIntoBuffer_spec max_ge max_lt hblk h.ok hr
  have le := h.ok.ahi_le
  have ahi := h.ahi_eq
  refine ⟨ok, app.ahi_eq.trans ahi, ?_⟩
  exact (slice_congr fun i lo hi => app.old rfl i lo (by omega)).trans h.text

end Pieces

section Runs

variable {max : ℤ} {blk : NewBlock} {input w : List UInt8} {tokens : List HshTokenS} {token : HshTokenS}
  {parser parser' : HshParserS} {buffer buffer' : HshBufferS}

/-- The tokens of the head `w`, and behind them pieces of its body. -/
def Shows (w : List UInt8) (tokens : List HshTokenS) : Prop :=
  ∃ head pieces, tokens = head ++ pieces ∧ head.map shape = headShapes w ∧ ∀ token ∈ pieces, token.type = .body

structure Past (max : ℤ) (input : List UInt8) (tokens : List HshTokenS) (parser : HshParserS) (buffer : HshBufferS)
    (w : List UInt8) : Prop where
  behind : Behind max input tokens parser buffer w
  accepted : AcceptedHead w
  shows : Shows w tokens
  front : Front max w buffer

theorem Shows.pieces (h : Shows w tokens) (piece : token = noneToken ∨ token.type = .body) :
    Shows w (tokens ++ emitted token) := by
  obtain ⟨head, pieces, rfl, shapes, body⟩ := h
  refine ⟨head, pieces ++ emitted token, List.append_assoc _ _ _, shapes, fun t ht => ?_⟩
  rcases List.mem_append.1 ht with old | new
  · exact body t old
  · rcases piece with rfl | typed
    · simp [emitted, noneToken] at new
    · rw [emitted_of_type (by rw [typed]; decide), List.mem_singleton] at new
      rw [new]
      exact typed

theorem past_of_end (h : HeadEnd max input tokens token parser buffer w) (plain : lines tokens = tokens) :
    Past max input (tokens ++ emitted token) parser buffer w := by
  have finished := h.finished
  obtain ⟨hd, breaks, run, done, shapes⟩ := finished.run
  have typed : token.type = .headersDone := congrArg Prod.fst finished.last
  refine ⟨behind_of_end h plain, ⟨hd, breaks, run, done⟩, ⟨tokens ++ [token], [], ?_, ?_, nofun⟩, finished.ok,
    finished.ahi_eq, finished.kept⟩
  · rw [emitted_of_type (by rw [typed]; decide), List.append_nil]
  · rw [headShapes_of_run run]
    exact shapes

theorem small_front (h : InSmall max parser buffer w input) (le : w <+: input) : Front max w buffer := by
  refine ⟨h.ok, h.ahi_eq, ?_⟩
  obtain ⟨left, rfl⟩ := le
  have kept := h.kept
  rw [List.length_append, slice_add] at kept
  exact (List.append_inj kept (slice_length _ _ _)).1

theorem Past.read {calls : List ReadCall} {memused : ℤ} {r : ReadReturn} (h : Past max input tokens parser buffer w)
    (max_ge : -2147483648 ≤ max) (max_lt : max < 2147483648) (hblk : ∀ call ∈ calls, BlockOk call.blk)
    (hr : hsReadIntoBuffer max calls buffer memused = some r) :
    Past max (input ++ received calls) tokens parser r.buffer w := by
  obtain ⟨⟨accepts, ⟨left, prefix_eq⟩, body⟩, accepted, shows, front⟩ := h
  refine ⟨⟨accepts, ⟨left ++ received calls, by rw [← List.append_assoc, prefix_eq]⟩, ?_⟩, accepted, shows,
    front.read max_ge max_lt hblk hr⟩
  exact body.imp_right (Or.imp_right fun ⟨mode, small⟩ => ⟨mode, small.read max_ge max_lt hblk hr⟩)

theorem Past.exec (h : Past max input tokens parser buffer w) (goesOn : phase parser.state ≠ .headersDone)
    (hr : hshParserExec max blk parser buffer = some (token, parser', buffer')) :
    Past max input (tokens ++ emitted token) parser' buffer' w ∧ (token = noneToken ∨ token.type = .body) := by
  obtain ⟨⟨accepts, prefix_eq, ⟨mode, streaming⟩ | ⟨-, done⟩ | ⟨mode, small⟩⟩, accepted, shows, front⟩ := h
  · obtain ⟨streaming', piece⟩ := hshParserExec_stream streaming hr
    have piece := piece.imp_right And.left
    exact ⟨⟨⟨accepts.pieces piece, prefix_eq, .inl ⟨mode, streaming'⟩⟩, accepted, shows.pieces piece,
      hshParserExec_streamFront streaming front hr⟩, piece⟩
  · exact absurd done goesOn
  · obtain ⟨small', piece⟩ := small.exec hr
    exact ⟨⟨⟨accepts.pieces piece, prefix_eq, .inr (.inr ⟨mode, small'⟩)⟩, accepted, shows.pieces piece,
      small_front small' prefix_eq⟩, piece⟩

end Runs

end HttpServer.KeptHeads
