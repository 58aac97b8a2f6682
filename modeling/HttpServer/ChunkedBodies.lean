import HttpServer.ArrivedRequests
import HttpServer.GivenPieces
import HttpServer.LengthBodies
import HttpServer.SizeLines
import HttpServer.WaitingReads

set_option autoImplicit false

/-!
# Chunked bodies

A body in the chunked coding is given as its chunks, one by one and in order, wherever the reads cut it. The
condition is on the data that `chunk_read` finds: it is whole, or it is not of the first chunk, lacks more than
one byte and fits where it is.
-/
namespace HttpServer.ChunkedBodies
open MachineInt Scanner ParserTables ParserGrammar HttpServer.Parser ReadBuffer ParserInvariant ParserRuns ParserCalls
  HeadMachine HeadGrammar HeadRuns BodyPhases HeadFields HeadTexts RequestRuns RequestUtil Connection ConnectionSteps
  HeldRequests AnsweredRequests ServedRequests ArrivedRequests ChunkDecoder SizeLines WaitingReads
  GivenPieces LengthBodies

section Coding

/-- A chunk as a client sends it. -/
structure Chunk where
  size : List UInt8
  data : List UInt8
  hex : ∀ c ∈ size, isHex c = true
  nonzero : size.head?.any fun c => c ≠ 48
  value : hexValue size = data.length
  small : data.length < 2147483648

def Chunk.text (chunk : Chunk) : List UInt8 := chunk.size ++ (13 :: 10 :: (chunk.data ++ [13, 10]))

/-- The chunks with the empty one that ends them. -/
def encode (chunks : List Chunk) : List UInt8 := chunks.flatMap Chunk.text ++ [48, 13, 10]

/-- What the callbacks are to be given. -/
def contents (chunks : List Chunk) : List (List UInt8) := chunks.map Chunk.data ++ [[]]

variable {chunk : Chunk} {chunks : List Chunk} {tail digits todo : List UInt8} {c : UInt8}

theorem encode_cons (chunk : Chunk) (chunks : List Chunk) (tail : List UInt8) : encode (chunk :: chunks) ++ tail =
    chunk.size ++ (13 :: 10 :: (chunk.data ++ (13 :: 10 :: (encode chunks ++ tail)))) := by
  simp [encode, Chunk.text]

theorem encode_nil (tail : List UInt8) : encode [] ++ tail = 48 :: 13 :: 10 :: tail := rfl

theorem Chunk.size_cons (chunk : Chunk) : ∃ c ds, chunk.size = c :: ds ∧ c ≠ 48 := by
  have nonzero := chunk.nonzero
  cases size : chunk.size with
  | nil =>
    rw [size] at nonzero
    cases nonzero
  | cons c ds =>
    rw [size] at nonzero
    exact ⟨c, ds, rfl, by simpa using nonzero⟩

/-- The value of the digits that were read stays within that of the line. -/
theorem Chunk.hexValue_le (split : chunk.size = digits ++ todo) : 0 ≤ hexValue digits ∧ hexValue digits < 2147483648 := by
  have hex : ∀ c ∈ digits ++ todo, isHex c = true := fun c mem => chunk.hex c (split ▸ mem)
  have lower : 0 ≤ hexValue digits := foldl_mono le_rfl fun c mem => hex c (List.mem_append_left _ mem)
  have upper : hexValue digits ≤ hexValue (digits ++ todo) := by
    unfold hexValue
    rw [List.foldl_append]
    exact foldl_mono lower fun c mem => hex c (List.mem_append_right _ mem)
  have value := chunk.value
  have small := chunk.small
  rw [split] at value
  exact ⟨lower, by omega⟩

end Coding

section Places

/-- The place `i` in the stream `S`, in a phase of a chunked body with a size so far and the place of the data: the
    chunks that are still to be given, and `tail` behind them. -/
inductive Due (S tail : List UInt8) (i : ℕ) (ph : Phase) (n k : ℤ) : List Chunk → Prop
  | first {L : SizeLine} {chunks : List Chunk} (known : Known L) (hph : ph = L.first)
      (rest : S.drop i = encode chunks ++ tail) : Due S tail i ph n k chunks
  | size {L : SizeLine} {chunk : Chunk} {chunks : List Chunk} {digits todo : List UInt8} (known : Known L)
      (hph : ph = L.size) (split : chunk.size = digits ++ todo) (value : n = hexValue digits)
      (rest : S.drop i = todo ++ (13 :: 10 :: (chunk.data ++ (13 :: 10 :: (encode chunks ++ tail))))) :
      Due S tail i ph n k (chunk :: chunks)
  | lf {L : SizeLine} {chunk : Chunk} {chunks : List Chunk} (known : Known L) (hph : ph = L.lf)
      (value : n = chunk.data.length) (rest : S.drop i = 10 :: (chunk.data ++ (13 :: 10 :: (encode chunks ++ tail)))) :
      Due S tail i ph n k (chunk :: chunks)
  | start {L : SizeLine} {chunk : Chunk} {chunks : List Chunk} (known : Known L) (hph : ph = L.data)
      (value : n = chunk.data.length) (rest : S.drop i = chunk.data ++ (13 :: 10 :: (encode chunks ++ tail))) :
      Due S tail i ph n k (chunk :: chunks)
  | data {chunk : Chunk} {chunks : List Chunk} {a : ℕ} (hph : ph = .data) (value : n = chunk.data.length) (place : k = a)
      (within : a ≤ i ∧ i < a + chunk.data.length) (rest : S.drop a = chunk.data ++ (13 :: 10 :: (encode chunks ++ tail))) :
      Due S tail i ph n k (chunk :: chunks)
  | cr {chunks : List Chunk} (hph : ph = .nextCr) (rest : S.drop i = 13 :: 10 :: (encode chunks ++ tail)) :
      Due S tail i ph n k chunks
  | nextLf {chunks : List Chunk} (hph : ph = .nextLf) (rest : S.drop i = 10 :: (encode chunks ++ tail)) :
      Due S tail i ph n k chunks
  | zeroCr {L : SizeLine} (known : Known L) (hph : ph = L.zeroCr) (rest : S.drop i = 13 :: 10 :: tail) :
      Due S tail i ph n k []
  | zeroLf {L : SizeLine} (known : Known L) (hph : ph = L.zeroLf) (rest : S.drop i = 10 :: tail) : Due S tail i ph n k []

/-- The data of a chunk is whole, or it is not of the first chunk, lacks more than one byte and need not be moved. -/
def WholeOrLater (max : ℤ) (a : Action) (s : Exec) : Prop :=
  a = .chunkRead →
    s.parser.token.index + s.parser.contentLength ≤ s.pe - s.buffer.buf ∨
      phase s.cs = .data ∧ s.parser.token.index + s.parser.contentLength ≠ s.pe - s.buffer.buf + 1 ∧ ¬ Compacts max s

/-- The condition on a call of the parser. -/
def ChunksFit (max : ℤ) (parser : HshParserS) (buffer : HshBufferS) (blk : NewBlock) : Prop :=
  ExecOk (fun _ _ => True) (fun a _ s => WholeOrLater max a s) max blk parser buffer

instance (max : ℤ) (a : Action) (s : Exec) : Decidable (WholeOrLater max a s) := inferInstanceAs (Decidable (_ → _))

instance (max : ℤ) (parser : HshParserS) (buffer : HshBufferS) (blk : NewBlock) :
    Decidable (ChunksFit max parser buffer blk) :=
  inferInstanceAs (Decidable (ExecOk (fun _ _ => True) (fun a _ s => WholeOrLater max a s) max blk parser buffer))

/-- The buffer holds the beginning of the stream. -/
def Holds (S : List UInt8) (b : HshBufferS) : Prop := ∀ i : ℕ, (i : ℤ) < b.length → S.drop i = b.data i :: S.drop (i + 1)

variable {S input : List UInt8} {b : HshBufferS}

theorem holds_of_prefix (kept : slice b.data 0 input.length = input) (length : b.length = input.length)
    (start : input <+: S) : Holds S b := by
  obtain ⟨more, rfl⟩ := start
  intro i lt
  have lt : i < input.length := by omega
  rw [List.drop_append_of_le_length lt.le, List.drop_append_of_le_length lt, List.drop_eq_getElem_cons lt]
  have byte : input[i] = b.data i := by
    have same := slice_getElem b.data 0 input.length i (by rw [slice_length]; exact lt)
    rw [zero_add] at same
    rw [← same]
    exact (List.getElem_of_eq kept _).symm
  rw [byte]
  rfl

theorem Holds.slice (h : Holds S b) {i : ℕ} (n : ℕ) (le : (i : ℤ) + n ≤ b.length) : slice b.data i n = (S.drop i).take n := by
  induction n generalizing i with
  | zero => rfl
  | succ n ih =>
    rw [h i (by omega), List.take_succ_cons, HttpServer.slice]
    have rest := @ih (i + 1) (by push_cast at le ⊢; omega)
    push_cast at rest
    rw [rest]

end Places

section Steps

variable {S tail : List UInt8} {todo : List Chunk} {b : HshBufferS} {max n : ℤ} {blk : NewBlock} {s t : Exec} {c : UInt8}
  {ph : Phase} {as : List Action} {chunk : Chunk} {chunks : List Chunk}

/-- A place in a chunked body, in the buffer `b`. -/
structure Placed (S tail : List UInt8) (b : HshBufferS) (todo : List Chunk) (s : Exec) : Prop where
  state_lt : s.cs < 98
  running : httpFlagCheck s.parser.flags flagDone = false
  same : s.buffer = b
  inside : b.buf ≤ s.p ∧ s.p ≤ b.buf + b.length
  due : Due S tail (s.p - b.buf).toNat (phase s.cs) s.parser.contentLength s.parser.token.index todo
  typed : phase s.cs = .data → s.parser.token.type = .body

structure Scanning (S tail : List UInt8) (b : HshBufferS) (todo : List Chunk) (s : Exec) : Prop where
  placed : Placed S tail b todo s
  quiet : httpFlagCheck s.parser.flags flagTokenReady = false
  pe_eq : s.pe = b.buf + b.length

/-- The loop is left at the end of the buffer, with a chunk, or with the end of the body. -/
inductive ScanLeft (S tail : List UInt8) (b : HshBufferS) (todo : List Chunk) (t : Exec) : Prop
  | rest (scanning : Scanning S tail b todo t) (ended : t.p = t.pe)
  | piece {chunk : Chunk} {chunks : List Chunk} (next : todo = chunk :: chunks) (placed : Placed S tail b chunks t)
      (ready : httpFlagCheck t.parser.flags flagTokenReady = true) (typed : t.parser.token.type = .body)
      (text : tokenText b t.parser.token = chunk.data)
  | last (none : todo = []) (ready : httpFlagCheck t.parser.flags flagTokenReady = true)
      (done : httpFlagCheck t.parser.flags flagDone = true) (typed : t.parser.token.type = .body)
      (empty : t.parser.token.len = 0)

theorem Scanning.onward (h : Scanning S tail b todo s) (moving : s.p ≠ s.pe) (plain : plainPhase (phase s.cs))
    (byte : phaseStep (phase s.cs) c.toNat = (ph, as)) (alive : ph ≠ .error) (other : ph ≠ .data)
    (acts : ∀ cs, (machine max blk).runActs c as { s with cs := cs } = .fall (moved s s.p cs n))
    (due : Due S tail ((s.p - b.buf).toNat + 1) ph n s.parser.token.index todo) :
    ((machine max blk).step c s).Sat True (fun u => Scanning S tail b todo u ∧ u.p = s.p + 1) (ScanLeft S tail b todo) := by
  obtain ⟨cs, lt, hph, trans⟩ := @step_grammar max blk s c ph as h.placed.state_lt plain byte
  have nonerror : cs ≠ hshHttpError := by
    rintro rfl
    exact alive hph.symm
  rw [Machine.step_fall (machine max blk) (t := moved s s.p cs n) (by rw [trans]; exact acts cs)]
  change ((machine max blk).again (moved s s.p cs n)).Sat _ _ _
  rw [show (machine max blk).again (moved s s.p cs n) = .fall (moved s (s.p + 1) cs n) from if_neg nonerror]
  obtain ⟨lo, hi⟩ := h.placed.inside
  have pe_eq := h.pe_eq
  have next : (s.p + 1 - b.buf).toNat = (s.p - b.buf).toNat + 1 := by omega
  refine ⟨⟨⟨lt, h.placed.running, h.placed.same, ?_, ?_, fun data => absurd (hph.symm.trans data) other⟩, h.quiet, pe_eq⟩, rfl⟩
  · change b.buf ≤ s.p + 1 ∧ s.p + 1 ≤ b.buf + b.length
    omega
  · change Due S tail (s.p + 1 - b.buf).toNat (phase cs) n s.parser.token.index todo
    rw [next, hph]
    exact due

/-- In front of `chunk_read`, in a chunk whose data lies at `a`. -/
structure AtData (S tail : List UInt8) (b : HshBufferS) (chunk : Chunk) (chunks : List Chunk) (a : ℕ) (p : ℤ) (t : Exec) :
    Prop where
  state_lt : t.cs < 98
  running : httpFlagCheck t.parser.flags flagDone = false
  quiet : httpFlagCheck t.parser.flags flagTokenReady = false
  same : t.buffer = b
  pe_eq : t.pe = b.buf + b.length
  p_eq : t.p = p
  typed : t.parser.token.type = .body
  index : t.parser.token.index = a
  value : t.parser.contentLength = chunk.data.length
  rest : S.drop a = chunk.data ++ (13 :: 10 :: (encode chunks ++ tail))

theorem chunkRead_left {a : ℕ} {p : ℤ} (h : AtData S tail b chunk chunks a p t) (holds : Holds S b) (ok : BufferOk true max b)
    (lt : (a : ℤ) < 2147483648) (sized : WholeOrLater max .chunkRead t) :
    (chunkRead max t).Sat True (fun u => AtData S tail b chunk chunks a p u ∧ phase u.cs = .data ∧
      b.length + 1 < a + chunk.data.length) (ScanLeft S tail b (chunk :: chunks)) := by
  have sized := sized rfl
  have small := chunk.small
  have buf_pos := ok.buf_pos
  have buf_lt := ok.buf_lt
  have length_lt := ok.length_lt
  have buf : t.buffer.buf = b.buf := congrArg HshBufferS.buf h.same
  have address : addr64 (t.buffer.buf + t.parser.token.index + t.parser.contentLength - 1) =
      b.buf + a + chunk.data.length - 1 := by
    rw [buf, h.index, h.value]
    exact addr64_eq (by omega) (by omega)
  have within : t.pe - t.buffer.buf = b.length := by
    rw [h.pe_eq, buf]
    ring
  rw [h.index, h.value, within] at sized
  unfold chunkRead
  dsimp only
  rw [address, h.pe_eq]
  by_cases whole : b.buf + b.length ≥ b.buf + a + chunk.data.length - 1
  · rw [if_pos whole]
    have all : (a : ℤ) + chunk.data.length ≤ b.length := by
      rcases sized with fits | ⟨-, later, -⟩ <;> omega
    have len : wrap32 t.parser.contentLength = chunk.data.length := by
      rw [h.value]
      exact wrap32_eq (by omega) (by omega)
    have place : (b.buf + a + chunk.data.length - 1 + 1 - b.buf).toNat = a + chunk.data.length := by omega
    refine .piece rfl ⟨show hshHttpEnChunkEnd < 98 by decide, ?_, h.same, ?_, ?_, fun data => by cases data⟩ (tokenReady_set _) h.typed ?_
    · exact (done_set_tokenReady _).trans h.running
    · change b.buf ≤ b.buf + a + chunk.data.length - 1 + 1 ∧ b.buf + a + chunk.data.length - 1 + 1 ≤ b.buf + b.length
      omega
    · refine .cr rfl ?_
      change S.drop (b.buf + a + chunk.data.length - 1 + 1 - b.buf).toNat = _
      rw [place, ← List.drop_drop, h.rest, List.drop_left]
    · change slice b.data t.parser.token.index (wrap32 t.parser.contentLength).toNat = _
      rw [len, h.index, Int.toNat_natCast, holds.slice _ all, h.rest, List.take_left]
  · rw [if_neg whole]
    obtain ⟨data, -, still⟩ := sized.resolve_left (by omega)
    have room : ¬ wrap64 (t.p - t.buffer.buf + t.parser.contentLength) > max := by
      intro moves
      refine still ⟨?_, moves⟩
      unfold lastBodyByte
      rw [address, h.pe_eq]
      omega
    rw [if_neg room]
    exact ⟨h, data, by omega⟩

theorem AtData.again {a : ℕ} {p : ℤ} (h : AtData S tail b chunk chunks a p t) (ph : phase t.cs = .data)
    (inside : b.buf + a ≤ p ∧ p < b.buf + b.length) (later : b.length + 1 < a + chunk.data.length) :
    ((machine max blk).again t).Sat True (fun u => Scanning S tail b (chunk :: chunks) u ∧ u.p = p + 1)
      (ScanLeft S tail b (chunk :: chunks)) := by
  have p_eq := h.p_eq
  have nonerror : t.cs ≠ hshHttpError := by
    intro error
    rw [error] at ph
    cases ph
  rw [show (machine max blk).again t = .fall { t with p := t.p + 1 } from if_neg nonerror, p_eq]
  refine ⟨⟨⟨h.state_lt, h.running, h.same, ?_, ?_, fun _ => h.typed⟩, h.quiet, h.pe_eq⟩, rfl⟩
  · change b.buf ≤ p + 1 ∧ p + 1 ≤ b.buf + b.length
    omega
  · refine .data ph h.value h.index ?_ h.rest
    change a ≤ (p + 1 - b.buf).toNat ∧ (p + 1 - b.buf).toNat < a + chunk.data.length
    omega

theorem chunkSize_next {digits rest : List UInt8} (split : chunk.size = digits ++ c :: rest) {t : Exec}
    (value : t.parser.contentLength = hexValue digits) :
    chunkSize c t = t.setContentLength (hexValue (digits ++ [c])) ∧ isHex c = true := by
  have hex : isHex c = true := chunk.hex c (by rw [split]; simp)
  have digit := digitValue_nonneg hex
  have split' : chunk.size = (digits ++ [c]) ++ rest := by rw [split]; simp
  obtain ⟨nonneg, -⟩ := chunk.hexValue_le split
  obtain ⟨-, small⟩ := chunk.hexValue_le split'
  rw [hexValue_append] at small ⊢
  have scaled : wrap64 (hexValue digits * 16) = hexValue digits * 16 := wrap64_eq (by omega) (by omega)
  refine ⟨?_, hex⟩
  rw [chunkSize_eq, if_pos hex, value, scaled, mul_comm, wrap64_eq (by omega) (by omega)]

theorem Scanning.step (h : Scanning S tail b todo s) (holds : Holds S b) (ok : BufferOk true max b) (moving : s.p ≠ s.pe)
    (hc : c = b.data (s.p - b.buf))
    (acts : (machine max blk).ActsOk (fun a _ s => WholeOrLater max a s) c ((machine max blk).trans c s).2
      ((machine max blk).trans c s).1) :
    ((machine max blk).step c s).Sat True (fun u => Scanning S tail b todo u ∧ u.p = s.p + 1) (ScanLeft S tail b todo) := by
  obtain ⟨lo, hi⟩ := h.placed.inside
  have pe_eq := h.pe_eq
  have length_lt := ok.length_lt
  have here : S.drop (s.p - b.buf).toNat = c :: S.drop ((s.p - b.buf).toNat + 1) := by
    have byte := holds (s.p - b.buf).toNat (by omega)
    rw [Int.toNat_of_nonneg (by omega)] at byte
    rw [hc]
    exact byte
  have due := h.placed.due
  cases due with
  | @first L _ known hph rest =>
    have plain : plainPhase (phase s.cs) := hph ▸ known.plain.1
    have byte := (congrArg (phaseStep · c.toNat) hph).trans (firstByte known c.toNat)
    cases todo with
    | nil =>
      obtain ⟨rfl, behind⟩ := List.cons.inj (here.symm.trans (rest.trans (encode_nil tail)))
      exact h.onward moving plain byte known.plain.2.2.2.2.1.1 (by rcases known with rfl | rfl <;> decide) (fun _ => rfl)
        (.zeroCr known rfl behind)
    | cons chunk chunks =>
      obtain ⟨d, ds, size, nonzero⟩ := chunk.size_cons
      rw [encode_cons, size] at rest
      obtain ⟨rfl, behind⟩ := List.cons.inj (here.symm.trans rest)
      have other : c.toNat ≠ 48 := fun zero => nonzero (UInt8.toNat_inj.1 zero)
      rw [if_neg other] at byte
      refine h.onward moving plain byte known.plain.2.1.1 (by rcases known with rfl | rfl <;> decide) (fun cs => ?_)
        (.size known rfl (show chunk.size = [c] ++ ds from size) rfl behind)
      change Flow.fall (chunkSize c (chunkStart { s with cs := cs })) = _
      rw [(@chunkSize_next c chunk [] ds size (chunkStart { s with cs := cs }) rfl).1]
      rfl
  | @size L chunk chunks digits rest_digits known hph split value rest =>
    have plain : plainPhase (phase s.cs) := hph ▸ known.plain.2.1
    have byte := (congrArg (phaseStep · c.toNat) hph).trans (sizeByte known c)
    cases rest_digits with
    | nil =>
      obtain ⟨rfl, behind⟩ := List.cons.inj (here.symm.trans rest)
      rw [List.append_nil] at split
      refine h.onward moving plain byte known.plain.2.2.1.1 (by rcases known with rfl | rfl <;> decide) (fun _ => rfl)
        (.lf known rfl ?_ behind)
      rw [value, ← split]
      exact chunk.value
    | cons d ds =>
      obtain ⟨rfl, behind⟩ := List.cons.inj (here.symm.trans rest)
      have split' : chunk.size = (digits ++ [c]) ++ ds := by rw [split, List.append_assoc]; rfl
      have digit := fun cs => @chunkSize_next c chunk digits ds split { s with cs := cs } value
      rw [if_neg fun cr => absurd ((congrArg isXDigit cr).symm.trans (digit 0).2) (by decide), if_pos (digit 0).2] at byte
      refine h.onward moving plain byte known.plain.2.1.1 (by rcases known with rfl | rfl <;> decide) (fun cs => ?_)
        (.size known rfl split' rfl behind)
      change Flow.fall (chunkSize c { s with cs := cs }) = _
      rw [(digit cs).1]
      rfl
  | @lf L chunk chunks known hph value rest =>
    have byte := (congrArg (phaseStep · c.toNat) hph).trans (lfByte known c.toNat)
    obtain ⟨rfl, behind⟩ := List.cons.inj (here.symm.trans rest)
    exact h.onward moving (hph ▸ known.plain.2.2.1) byte known.plain.2.2.2.1.1 (by rcases known with rfl | rfl <;> decide)
      (fun _ => rfl) (.start known rfl value behind)
  | @start L chunk chunks known hph value rest =>
    obtain ⟨ph, alive, byte⟩ := known.data c.toNat
    obtain ⟨cs, lt, -, trans⟩ := @step_grammar max blk s c ph [.body, .chunkRead] h.placed.state_lt
      (hph ▸ known.plain.2.2.2.1) (hph ▸ byte)
    have index : wrap32 (s.p - s.buffer.buf) = ((s.p - b.buf).toNat : ℤ) := by
      rw [h.placed.same, Int.toNat_of_nonneg (by omega)]
      exact wrap32_eq (by omega) (by omega)
    have begun : AtData S tail b chunk chunks (s.p - b.buf).toNat s.p (body { s with cs := cs }) :=
      ⟨lt, h.placed.running, h.quiet, h.placed.same, pe_eq, rfl, rfl, index, value, rest⟩
    rw [trans] at acts
    refine Machine.step_sat (P := fun u => AtData S tail b chunk chunks (s.p - b.buf).toNat s.p u ∧ phase u.cs = .data ∧
      b.length + 1 < (s.p - b.buf).toNat + chunk.data.length) _ ?_ fun u ⟨data, ph, later⟩ => data.again ph (by omega) later
    rw [trans]
    refine Machine.runActs_cons_sat _ (P := fun u => u = body { s with cs := cs }) (fun _ => rfl) (fun u hu sized => ?_) acts
    subst hu
    refine Machine.runActs_cons_sat _ (fun sized => chunkRead_left begun holds ok (by omega) sized) (fun u hu _ => hu) sized
  | @data chunk chunks a hph value place within rest =>
    have byte := congrArg (phaseStep · c.toNat) hph
    obtain ⟨cs, lt, -, trans⟩ := @step_grammar max blk s c .data [.chunkRead] h.placed.state_lt
      (by rw [hph]; unfold plainPhase; decide) byte
    have begun : AtData S tail b chunk chunks a s.p { s with cs := cs } :=
      ⟨lt, h.placed.running, h.quiet, h.placed.same, pe_eq, rfl, h.placed.typed hph, place, value, rest⟩
    rw [trans] at acts
    refine Machine.step_sat (P := fun u => AtData S tail b chunk chunks a s.p u ∧ phase u.cs = .data ∧
      b.length + 1 < a + chunk.data.length) _ ?_ fun u ⟨data, ph, later⟩ => data.again ph (by omega) later
    rw [trans]
    refine Machine.runActs_cons_sat _ (fun sized => chunkRead_left begun holds ok (by omega) sized) (fun u hu _ => hu) acts
  | cr hph rest =>
    have byte := congrArg (phaseStep · c.toNat) hph
    obtain ⟨rfl, behind⟩ := List.cons.inj (here.symm.trans rest)
    exact h.onward moving (by rw [hph]; unfold plainPhase; decide) byte (by decide) (by decide) (fun _ => rfl) (.nextLf rfl behind)
  | nextLf hph rest =>
    have byte := congrArg (phaseStep · c.toNat) hph
    obtain ⟨rfl, behind⟩ := List.cons.inj (here.symm.trans rest)
    exact h.onward moving (by rw [hph]; unfold plainPhase; decide) byte (by decide) (by decide) (fun _ => rfl)
      (.first (.inr rfl) rfl behind)
  | @zeroCr L known hph rest =>
    have byte := (congrArg (phaseStep · c.toNat) hph).trans (zeroCrByte known c.toNat)
    obtain ⟨rfl, behind⟩ := List.cons.inj (here.symm.trans rest)
    exact h.onward moving (hph ▸ known.plain.2.2.2.2.1) byte known.plain.2.2.2.2.2.1 (by rcases known with rfl | rfl <;> decide)
      (fun _ => rfl) (.zeroLf known rfl behind)
  | @zeroLf L known hph rest =>
    have byte := (congrArg (phaseStep · c.toNat) hph).trans (zeroLfByte known c.toNat)
    obtain ⟨rfl, behind⟩ := List.cons.inj (here.symm.trans rest)
    obtain ⟨cs, -, -, trans⟩ := @step_grammar max blk s 10 _ _ h.placed.state_lt (hph ▸ known.plain.2.2.2.2.2) byte
    rw [Machine.step, trans]
    exact .last rfl ((tokenReady_set_done _).trans (tokenReady_set _)) (done_set _) rfl rfl

end Steps

section Calls

variable {S tail input : List UInt8} {todo : List Chunk} {max : ℤ} {blk : NewBlock} {parser parser' : HshParserS}
  {buffer buffer' : HshBufferS} {token : HshTokenS} {t : Exec}

/-- Between two calls in a chunked body, of which `input` has arrived. -/
structure Chunks (S tail : List UInt8) (max : ℤ) (input : List UInt8) (todo : List Chunk) (parser : HshParserS)
    (buffer : HshBufferS) : Prop where
  ok : BufferOk true max buffer
  kept : slice buffer.data 0 input.length = input
  length_eq : buffer.length = input.length
  quiet : httpFlagCheck parser.flags flagTokenReady = false
  placed : Placed S tail buffer todo (enter parser buffer)

theorem Due.alive {i : ℕ} {cs : ℕ} {n k : ℤ} (h : Due S tail i (phase cs) n k todo) : cs ≠ hshHttpError := by
  rintro rfl
  have error : phase hshHttpError = .error := rfl
  rw [error] at h
  cases h with
  | first known hph => exact known.plain.1.1 hph.symm
  | size known hph => exact known.plain.2.1.1 hph.symm
  | lf known hph => exact known.plain.2.2.1.1 hph.symm
  | start known hph => exact known.plain.2.2.2.1.1 hph.symm
  | data hph => cases hph
  | cr hph => cases hph
  | nextLf hph => cases hph
  | zeroCr known hph => exact known.plain.2.2.2.2.1.1 hph.symm
  | zeroLf known hph => exact known.plain.2.2.2.2.2.1 hph.symm

theorem Placed.next {q : ℤ} {flags : BitVec 8} (h : Placed S tail buffer todo t) (ok : BufferOk true max buffer)
    (kept : slice buffer.data 0 input.length = input) (length_eq : buffer.length = input.length)
    (done : httpFlagCheck flags flagDone = httpFlagCheck t.parser.flags flagDone)
    (quiet : httpFlagCheck flags flagTokenReady = false) :
    Chunks S tail max input todo { t.parser with state := t.cs, flags := flags, sequenceId := q }
      { t.buffer with index := wrap32 (t.p - t.buffer.buf) } := by
  obtain ⟨state_lt, running, rfl, ⟨lo, hi⟩, due, typed⟩ := h
  have length_lt := ok.length_lt
  have index : t.buffer.buf + wrap32 (t.p - t.buffer.buf) = t.p := by
    rw [wrap32_eq (by omega) (by omega)]
    ring
  refine ⟨bufferOk_index ok _, kept, length_eq, quiet, ⟨state_lt, done.trans running, rfl, ?_, ?_, typed⟩⟩
  · change t.buffer.buf ≤ t.buffer.buf + wrap32 (t.p - t.buffer.buf) ∧ t.buffer.buf + wrap32 (t.p - t.buffer.buf) ≤ _
    rw [index]
    exact ⟨lo, hi⟩
  · change Due S tail (t.buffer.buf + wrap32 (t.p - t.buffer.buf) - t.buffer.buf).toNat _ _ _ _
    rw [index]
    exact due

/-- What a call of the parser makes of a chunked body. -/
inductive ChunkCall (S tail : List UInt8) (max : ℤ) (input : List UInt8) (todo : List Chunk) (token : HshTokenS)
    (parser : HshParserS) (buffer : HshBufferS) : Prop
  | rest (none : token = noneToken) (at_rest : Chunks S tail max input todo parser buffer)
  | piece {chunk : Chunk} {chunks : List Chunk} (next : todo = chunk :: chunks) (typed : token.type = .body)
      (text : tokenText buffer token = chunk.data) (behind : Chunks S tail max input chunks parser buffer)
  | last (none : todo = []) (typed : token.type = .body) (text : tokenText buffer token = [])
      (done : httpFlagCheck parser.flags flagDone = true)

theorem hshParserExec_chunks (h : Chunks S tail max input todo parser buffer) (start : input <+: S)
    (fits : ChunksFit max parser buffer blk)
    (hr : hshParserExec max blk parser buffer = some (token, parser', buffer')) :
    ChunkCall S tail max input todo token parser' buffer' := by
  have ok := h.ok
  have holds := holds_of_prefix h.kept h.length_eq start
  unfold hshParserExec at hr
  split at hr
  · cases hr
    exact .rest rfl h
  rename_i calls
  have alive : parser.state ≠ hshHttpError := h.placed.due.alive
  obtain ⟨u, hu, hl⟩ := Option.map_eq_some_iff.1 hr
  unfold writeExec at hu
  rw [if_neg fun err => alive err.2] at hu
  have exit := Machine.scan_sat (machine max blk) (E := True)
    (I := fun bytes s => Scanning S tail buffer todo s ∧ bytes = bytesFrom buffer s.p)
    (Q := ScanLeft S tail buffer todo) (fun _ _ _ => trivial)
    (fun _ s hs stop => .rest hs.1 (eq_of_beq stop))
    (fun c bytes s hs go _ acts => by
      obtain ⟨scanning, left⟩ := hs
      obtain ⟨-, -, hc, behind⟩ := bytesFrom_cons left.symm
      have step := scanning.step holds ok (fun stop => by
        rw [show (machine max blk).stop s = true from beq_iff_eq.2 stop] at go
        cases go) hc acts
      cases hst : (machine max blk).step c s with
      | fall t =>
        rw [hst] at step
        exact ⟨step.1, by rw [behind, step.2]⟩
      | out t =>
        rw [hst] at step
        exact step
      | fault => trivial)
    (s := enter parser buffer) ⟨⟨h.placed, h.quiet, rfl⟩, rfl⟩ (fits ⟨calls, fun err => alive err.2⟩)
  change (machine max blk).scan (bytesFrom buffer (enter parser buffer).p) (enter parser buffer) = some u at hu
  rw [hu] at exit
  cases exit with
  | rest scanning ended =>
    rcases leave_cases u with ⟨ready, -⟩ | ⟨-, leaves⟩
    · exact absurd (scanning.quiet.symm.trans ready) (by decide)
    rw [leaves] at hl
    cases hl
    exact .rest rfl (scanning.placed.next ok h.kept h.length_eq rfl scanning.quiet)
  | piece next placed ready typed text =>
    rw [leave_ready ready] at hl
    cases hl
    refine .piece next typed ?_ (placed.next ok h.kept h.length_eq (done_clear_tokenReady _) (tokenReady_clear _))
    rw [← placed.same] at text
    exact text
  | last none ready done typed empty =>
    rw [leave_ready ready] at hl
    cases hl
    refine .last none typed ?_ ((done_clear_tokenReady _).trans done)
    unfold tokenText
    rw [empty]
    rfl

end Calls

section Stages

variable {w tail input : List UInt8} {chunks todo : List Chunk} {S : List UInt8} {max : ℤ} {blk : NewBlock}
  {tokens : List HshTokenS} {token : HshTokenS} {pieces : List (List UInt8)} {parser parser' : HshParserS}
  {buffer buffer' : HshBufferS}

/-- The head announces its body in the chunked coding. -/
def HasChunks (w : List UInt8) : Prop := (Fields.start.run w).chunked = true

/-- A request in the chunked coding, and what follows it. -/
def stream (w : List UInt8) (chunks : List Chunk) (tail : List UInt8) : List UInt8 := w ++ (encode chunks ++ tail)

theorem Chunks.read {calls : List ReadCall} {memused : ℤ} {r : ReadReturn} (h : Chunks S tail max input todo parser buffer)
    (max_ge : -2147483648 ≤ max) (max_lt : max < 2147483648) (hblk : ∀ call ∈ calls, BlockOk call.blk)
    (hr : hsReadIntoBuffer max calls buffer memused = some r) :
    Chunks S tail max (input ++ received calls) todo parser r.buffer := by
  obtain ⟨ok, app, -⟩ := hsReadIntoBuffer_spec max_ge max_lt hblk h.ok hr
  obtain ⟨state_lt, running, -, ⟨lo, hi⟩, due, typed⟩ := h.placed
  have length := h.length_eq
  have index := app.index_eq
  have longer := app.length_eq
  have p_eq : (enter parser buffer).p = buffer.buf + buffer.index := rfl
  rw [p_eq] at lo hi due
  refine ⟨ok, ?_, ?_, h.quiet, ⟨state_lt, running, rfl, ?_, ?_, typed⟩⟩
  · have new := app.new rfl
    rw [length] at new
    rw [List.length_append, slice_add, zero_add, new]
    refine congrArg (· ++ _) ?_
    exact (slice_congr fun i lo hi => app.old rfl i lo (by omega)).trans h.kept
  · rw [app.length_eq, length, List.length_append]
    push_cast
    rfl
  · change r.buffer.buf ≤ r.buffer.buf + r.buffer.index ∧ r.buffer.buf + r.buffer.index ≤ r.buffer.buf + r.buffer.length
    omega
  · change Due S tail (r.buffer.buf + r.buffer.index - r.buffer.buf).toNat _ _ _ _
    rw [index, show r.buffer.buf + buffer.index - r.buffer.buf = buffer.buf + buffer.index - buffer.buf by ring]
    exact due

/-- A run over the request has handed over `pieces`. -/
inductive ChunkStage (w tail : List UInt8) (chunks : List Chunk) (max : ℤ) (input : List UInt8) (tokens : List HshTokenS)
    (pieces : List (List UInt8)) (parser : HshParserS) (buffer : HshBufferS) : Prop
  | head {v : List UInt8} {h : HeadScan} (inHead : InHead max input tokens parser buffer v h) (none : pieces = [])
  | failed (noBody : NoBody parser) (error : phase parser.state = .error) (none : pieces = [])
  | reading {front todo : List Chunk} (split : chunks = front ++ todo) (same : pieces = front.map Chunk.data)
      (at_rest : Chunks (stream w chunks tail) tail max input todo parser buffer)
  | whole (done : httpFlagCheck parser.flags flagDone = true) (all : pieces = contents chunks)

theorem ChunkStage.read {calls : List ReadCall} {memused : ℤ} {r : ReadReturn}
    (h : ChunkStage w tail chunks max input tokens pieces parser buffer)
    (max_ge : -2147483648 ≤ max) (max_lt : max < 2147483648) (hblk : ∀ call ∈ calls, BlockOk call.blk)
    (hr : hsReadIntoBuffer max calls buffer memused = some r) :
    ChunkStage w tail chunks max (input ++ received calls) tokens pieces parser r.buffer := by
  cases h with
  | head inHead none => exact .head (inHead.read max_ge max_lt hblk hr) none
  | failed noBody error none => exact .failed noBody error none
  | reading split same at_rest => exact .reading split same (at_rest.read max_ge max_lt hblk hr)
  | whole done all => exact .whole done all

theorem ended_chunks {v : List UInt8} (ended : HeadEnd max input tokens token parser' buffer' v)
    (begun : Begun max parser' buffer') (accepted : AcceptedHead w) (chunked : HasChunks w)
    (start : input <+: stream w chunks tail) (shown : List HshTokenS) :
    ChunkStage w tail chunks max input shown [] parser' buffer' := by
  obtain ⟨finished, -, flag, -, received⟩ := ended
  obtain ⟨hd, breaks, run, ph, -⟩ := finished.run
  obtain rfl : v = w := (accepted_unique ⟨hd, breaks, run, ph⟩ accepted (List.IsPrefix.trans finished.prefix_eq start)
    (List.prefix_append _ _)).symm
  obtain ⟨state, index⟩ := begun.chunked (flag.trans chunked)
  have place : (buffer'.buf + buffer'.index - buffer'.buf).toNat = v.length := by
    rw [index, finished.ahi_eq]
    omega
  have ok := finished.ok
  have ahi_le := ok.ahi_le
  have ahi_nonneg := ok.ahi_nonneg
  refine .reading (List.nil_append chunks).symm rfl ⟨ok, received, finished.length_eq, finished.done.tokenReady, ⟨finished.done.state_lt,
    finished.done.done, rfl, ?_, ?_, fun data => ?_⟩⟩
  · change buffer'.buf ≤ buffer'.buf + buffer'.index ∧ buffer'.buf + buffer'.index ≤ buffer'.buf + buffer'.length
    omega
  · refine .first (.inl rfl) (congrArg phase state) ?_
    change (stream v chunks tail).drop (buffer'.buf + buffer'.index - buffer'.buf).toNat = _
    rw [place]
    exact List.drop_left
  · change phase parser'.state = .data at data
    rw [state] at data
    cases data

theorem ChunkStage.exec (h : ChunkStage w tail chunks max input tokens pieces parser buffer) (accepted : AcceptedHead w)
    (chunked : HasChunks w) (start : input <+: stream w chunks tail) (hblk : BlockOk blk) (max_lt : max < 2147483648)
    (fits : ChunksFit max parser buffer blk)
    (hr : hshParserExec max blk parser buffer = some (token, parser', buffer')) :
    ChunkStage w tail chunks max input (tokens ++ emitted token) (pieces ++ handed buffer' token) parser' buffer' := by
  cases h with
  | head inHead none =>
    subst none
    have typed := inHead_typed inHead
    rcases inHead.exec hblk max_lt hr with ⟨v', h', goes, line⟩ | ⟨noBody, error, rfl⟩ | ⟨v', ended⟩
    · have other : token.type ≠ .body := by
        rcases line with rfl | line
        · decide
        · intro piece
          rw [piece] at line
          cases line
      rw [handed_other other]
      exact .head goes rfl
    · exact .failed noBody error rfl
    · have done : token.type = .headersDone := congrArg Prod.fst ended.finished.last
      rw [handed_other (by rw [done]; decide)]
      exact ended_chunks ended (hshParserExec_begins typed hr done) accepted chunked start _
  | failed noBody error none =>
    subst none
    obtain ⟨noBody', error', rfl⟩ := hshParserExec_failed noBody error hr
    exact .failed noBody' error' rfl
  | @reading front todo split same at_rest =>
    cases hshParserExec_chunks at_rest start fits hr with
    | rest none at_rest =>
      rw [none, handed_other (by decide), List.append_nil]
      exact .reading split same at_rest
    | @piece chunk behind next typed text onward =>
      subst next
      rw [handed_piece typed, text, same]
      refine .reading (split.trans (List.append_cons _ _ _)) ?_ onward
      rw [List.map_append]
      rfl
    | last none typed text done =>
      subst none
      rw [handed_piece typed, text, same]
      refine .whole done ?_
      rw [split, List.append_nil]
      rfl
  | whole done all =>
    have idle : token = noneToken ∧ parser' = parser ∧ buffer' = buffer := by
      unfold hshParserExec at hr
      rw [if_pos (.inl done)] at hr
      simpa [eq_comm] using hr
    obtain ⟨rfl, rfl, rfl⟩ := idle
    rw [handed_other (by decide), List.append_nil]
    exact .whole done all

theorem chunkStage_fed {initial : ℤ} (nonneg : 0 ≤ initial) (le : initial ≤ max) (max_lt : max < 2147483648)
    (fed : Fed (ChunksFit max) initial max input tokens pieces parser buffer) (accepted : AcceptedHead w)
    (chunked : HasChunks w) (start : input <+: stream w chunks tail) :
    ChunkStage w tail chunks max input tokens pieces parser buffer := by
  induction fed with
  | init memused hblk => exact .head (inHead_init hblk nonneg le max_lt) rfl
  | read _ hblk hr ih => exact (ih ((List.prefix_append _ _).trans start)).read (by omega) max_lt hblk hr
  | exec _ hblk fits hr ih => exact (ih start).exec accepted chunked start hblk max_lt fits hr

theorem ChunkStage.not_ended (h : ChunkStage w tail chunks max input tokens pieces parser buffer) (lasts : Lasts pieces)
    (done : httpFlagCheck parser.flags flagDone = true) : False := by
  obtain ⟨front, piece, rfl, some_byte⟩ := lasts
  cases h with
  | head _ none => exact List.append_ne_nil_of_right_ne_nil _ (List.cons_ne_nil _ _) none
  | failed _ _ none => exact List.append_ne_nil_of_right_ne_nil _ (List.cons_ne_nil _ _) none
  | reading _ _ at_rest => exact absurd (at_rest.placed.running.symm.trans done) (by decide)
  | whole _ all => exact some_byte (List.singleton_inj.1 (List.append_inj_right' all rfl))

theorem ChunkStage.given (h : ChunkStage w tail chunks max input tokens pieces parser buffer) :
    pieces <+: contents chunks := by
  cases h with
  | head _ none => exact none ▸ List.nil_prefix
  | failed _ _ none => exact none ▸ List.nil_prefix
  | reading split same =>
    rw [same, split]
    unfold contents
    rw [List.map_append, List.append_assoc]
    exact List.prefix_append _ _
  | whole _ all => rw [all]

end Stages

section Runs

variable {w tail : List UInt8} {chunks todo front back : List Chunk} {S : List UInt8} {i : ℕ} {ph : Phase} {n k : ℤ}
  {cfg : Config} {c : Conn}

/-- In every run, the pieces that the callbacks were given of a body in the chunked coding are the data of its chunks, in
    order, and an empty piece after the last chunk. -/
theorem chunks_given (run : Runs.Reached (Connection.step cfg) Accepted
      (Keeping (ChunksFit cfg.httpMaxRequestBufSize)) c) (accepted : AcceptedHead w) (chunked : HasChunks w)
    (start : arriving c.events <+: stream w chunks tail) (some_byte : arriving c.events ≠ []) :
    given c.events <+: contents chunks := by
  obtain ⟨-, giving⟩ := giving_reached run
  rcases giving.traced with none | ⟨tokens, pieces, parser, buffer, fed, told⟩
  · exact absurd none some_byte
  have stage := chunkStage_fed cfg.initial_pos.le cfg.initial_le cfg.max_lt fed accepted chunked start
  rcases told with same | ⟨-, lasts, done⟩
  · rw [same]
    exact stage.given
  · exact (stage.not_ended lasts done).elim

theorem abc_chunk : (∀ c ∈ ascii "3", isHex c = true) ∧ ((ascii "3").head?.any fun c => c ≠ 48) ∧
    hexValue (ascii "3") = (ascii "abc").length ∧ (ascii "abc").length < 2147483648 := by decide +kernel

theorem defg_chunk : (∀ c ∈ ascii "4", isHex c = true) ∧ ((ascii "4").head?.any fun c => c ≠ 48) ∧
    hexValue (ascii "4") = (ascii "defg").length ∧ (ascii "defg").length < 2147483648 := by decide +kernel

/-- Two chunks, the second of which comes in two reads. -/
def letters : List Chunk :=
  [⟨ascii "3", ascii "abc", abc_chunk.1, abc_chunk.2.1, abc_chunk.2.2.1, abc_chunk.2.2.2⟩,
    ⟨ascii "4", ascii "defg", defg_chunk.1, defg_chunk.2.1, defg_chunk.2.2.1, defg_chunk.2.2.2⟩]

/-- The first read, and what its callbacks do until they wait for input. -/
def firstRead : List Label :=
  reads (SizeLines.chunkedHead ++ ascii "3\r\nabc\r\n4\r\nde") :: execs 6 ++ [.call .readChunk, reads []] ++ execs 1 ++
    [.call .readChunk, reads []] ++ execs 1 ++ [.callbackReturn, .callbackReturn]

def secondRead : List Label :=
  [.socketEvent, reads (ascii "fg\r\n0\r\n\r\n")] ++ execs 1 ++ [.call .readChunk, reads []] ++ execs 1

theorem chunkedHead_accepted : AcceptedHead SizeLines.chunkedHead ∧ HasChunks SizeLines.chunkedHead := by
  have head : ((headRun SizeLines.chunkedHead {}).any fun r => decide (r.1.ph = .headersDone)) = true := by decide +kernel
  have fields : (Fields.start.run SizeLines.chunkedHead).chunked = true := by decide +kernel
  obtain ⟨⟨h, breaks⟩, hrun, done⟩ := (Option.any_eq_true _ _).1 head
  exact ⟨⟨h, breaks, hrun, of_decide_eq_true done⟩, fields⟩

theorem chunks_given_letters : ∃ c, Runs.Reached (Connection.step {}) Accepted
      (Keeping (ChunksFit ({} : Config).httpMaxRequestBufSize)) c ∧
    given c.events = [ascii "abc", ascii "defg", []] ∧ given c.events <+: contents letters := by
  have run : ((Runs.exec (Runs.guarded (Connection.step {}) (Keeping (ChunksFit ({} : Config).httpMaxRequestBufSize)))
      (firstRead ++ secondRead) accepted).any fun c =>
        decide (given c.events = [ascii "abc", ascii "defg", []] ∧
          arriving c.events <+: stream SizeLines.chunkedHead letters [13, 10] ∧ arriving c.events ≠ [])) = true := by
    decide +kernel
  obtain ⟨c, hc, hs⟩ := (Option.any_eq_true _ _).1 run
  obtain ⟨shown, start, some_byte⟩ := of_decide_eq_true hs
  obtain ⟨head, chunked⟩ := chunkedHead_accepted
  have reached : Runs.Reached (Connection.step {}) Accepted (Keeping (ChunksFit ({} : Config).httpMaxRequestBufSize)) c :=
    .guarded (.init accepted_accepted) hc
  exact ⟨c, reached, shown, chunks_given reached head chunked start some_byte⟩

/-- What follows the chunk that comes next. -/
def afterNext : List Chunk → List UInt8 → List UInt8
  | [], tail => tail
  | _ :: chunks, tail => encode chunks ++ tail

theorem afterNext_lt (todo : List Chunk) (tail : List UInt8) : (afterNext todo tail).length < (encode todo ++ tail).length := by
  cases todo with
  | nil =>
    rw [encode_nil]
    simp only [afterNext, List.length_cons]
    omega
  | cons chunk chunks =>
    rw [encode_cons]
    simp only [afterNext, List.length_append, List.length_cons]
    omega

/-- More of the stream is to come than what follows the next chunk. -/
theorem Due.left (h : Due S tail i ph n k todo) : (afterNext todo tail).length < (S.drop i).length := by
  have chunks_lt := afterNext_lt todo tail
  cases h with
  | first _ _ rest => exact rest ▸ chunks_lt
  | size _ _ _ _ rest =>
    rw [rest]
    simp only [afterNext, List.length_append, List.length_cons]
    omega
  | lf _ _ _ rest =>
    rw [rest]
    simp only [afterNext, List.length_append, List.length_cons]
    omega
  | start _ _ _ rest =>
    rw [rest]
    simp only [afterNext, List.length_append, List.length_cons]
    omega
  | data _ _ _ within rest =>
    have total := congrArg List.length rest
    simp only [afterNext, List.length_append, List.length_cons, List.length_drop] at total ⊢
    omega
  | cr _ rest =>
    rw [rest, List.length_cons, List.length_cons]
    omega
  | nextLf _ rest =>
    rw [rest, List.length_cons]
    omega
  | zeroCr _ _ rest =>
    rw [rest]
    simp only [afterNext, List.length_cons]
    omega
  | zeroLf _ _ rest =>
    rw [rest]
    simp only [afterNext, List.length_cons]
    omega

theorem stream_split (w : List UInt8) (front back : List Chunk) (tail : List UInt8) :
    stream w (front ++ back) tail = w ++ front.flatMap Chunk.text ++ (encode back ++ tail) := by
  simp [stream, encode, List.flatMap_append]

theorem afterNext_le (todo : List Chunk) (tail : List UInt8) : tail.length ≤ (afterNext todo tail).length := by
  cases todo with
  | nil => exact le_rfl
  | cons chunk chunks => exact (List.suffix_append _ _).length_le

/-- When a connection that reads a chunked body waits for input, every chunk of it that has arrived is given, and the
    end of the body if that has arrived. -/
theorem chunks_not_held_back (run : Runs.Reached (Connection.step cfg) Accepted
      (fun c l => Keeping (ChunksFit cfg.httpMaxRequestBufSize) c l ∧ InFlow cfg c l) c)
    (live : c.live = true) (state : c.request.state = .read)
    (returned : .readRequest ∉ c.stack ∧ .parseBuffer ∉ c.stack) (accepted : AcceptedHead w) (chunked : HasChunks w)
    (start : arriving c.events <+: stream w chunks tail) (some_byte : arriving c.events ≠ [])
    (within : inChunks (phase c.request.parser.state) = true) :
    (∀ front back, chunks = front ++ back → w ++ front.flatMap Chunk.text <+: arriving c.events →
      front.map Chunk.data <+: given c.events) ∧
    (w ++ encode chunks <+: arriving c.events → given c.events = contents chunks) := by
  obtain ⟨-, giving⟩ := giving_reached (run.mono fun _ _ ok => ok.1)
  obtain ⟨block, tokens, pieces, ⟨fed, -, -⟩, shown⟩ := giving.reading live state some_byte
  have flowing := flowing_reached run
  have stage := chunkStage_fed cfg.initial_pos.le cfg.initial_le cfg.max_lt fed accepted chunked start
  have same : given c.events = pieces := by
    rcases shown with ⟨same, -⟩ | ⟨-, lasts, -, done⟩
    · exact same
    · exact (stage.not_ended lasts done).elim
  rw [same]
  cases stage with
  | head inHead none =>
    have head := ArrivedRequests.InHead.isHead inHead
    cases ph : phase c.request.parser.state <;> rw [ph] at head within <;> first | (cases head; done) | cases within
  | failed noBody error none =>
    obtain ⟨state_lt, -, -⟩ := noBody c.request.buffer
    exact absurd ((HeadMachine.phase_error state_lt).1 error) (flowing.inStep live (by rw [state]; decide) block).alive
  | @reading before todo split shown at_rest =>
    have consumed := (flowing.waiting live state returned.1 returned.2).resolve_left (by
      have running := at_rest.placed.running
      change httpFlagCheck c.request.parser.flags flagDone = false at running
      rw [running]
      decide)
    have left := at_rest.placed.due.left
    have total := at_rest.length_eq
    have place : c.request.buffer.buf + c.request.buffer.index - c.request.buffer.buf = c.request.buffer.index := by ring
    change _ < ((stream w chunks tail).drop (c.request.buffer.buf + c.request.buffer.index - c.request.buffer.buf).toNat).length
      at left
    rw [place, List.length_drop] at left
    constructor
    · intro front back split' arrived
      have le := arrived.length_le
      rw [split', stream_split, List.length_append] at left
      have behind : before ++ todo = front ++ back := split.symm.trans split'
      rcases List.append_eq_append_iff.1 behind with ⟨more, rfl, rfl⟩ | ⟨more, rfl, -⟩
      · cases more with
        | nil =>
          rw [shown, List.append_nil]
        | cons chunk more =>
          have suffix : (encode back ++ tail).length ≤ (encode (more ++ back) ++ tail).length := by
            simp [encode, List.flatMap_append]
          change (encode (more ++ back) ++ tail).length < _ at left
          omega
      · rw [shown, List.map_append]
        exact List.prefix_append _ _
    · intro arrived
      have le := arrived.length_le
      have tail_le := afterNext_le todo tail
      unfold stream at left
      simp only [List.length_append] at left le
      omega
  | whole done all =>
    rw [all]
    refine ⟨fun front back split _ => ?_, fun _ => rfl⟩
    rw [split]
    unfold contents
    rw [List.map_append, List.append_assoc]
    exact List.prefix_append _ _

/-- After the first read, the first chunk is given and the second one is waited for. -/
theorem chunks_not_held_back_letters : ∃ c, Runs.Reached (Connection.step {}) Accepted
      (fun c l => Keeping (ChunksFit ({} : Config).httpMaxRequestBufSize) c l ∧ InFlow {} c l) c ∧
    given c.events = [ascii "abc"] ∧
    ((∀ front back, letters = front ++ back → SizeLines.chunkedHead ++ front.flatMap Chunk.text <+: arriving c.events →
      front.map Chunk.data <+: given c.events) ∧
    (SizeLines.chunkedHead ++ encode letters <+: arriving c.events → given c.events = contents letters)) := by
  have run : ((Runs.exec (Runs.guarded (Connection.step {}) fun c l =>
        Keeping (ChunksFit ({} : Config).httpMaxRequestBufSize) c l ∧ InFlow {} c l) firstRead accepted).any fun c =>
        decide (given c.events = [ascii "abc"] ∧ arriving c.events <+: stream SizeLines.chunkedHead letters [] ∧
          arriving c.events ≠ [] ∧ c.live = true ∧ c.request.state = .read ∧
          (.readRequest ∉ c.stack ∧ .parseBuffer ∉ c.stack) ∧ inChunks (phase c.request.parser.state) = true)) = true := by
    decide +kernel
  obtain ⟨c, hc, hs⟩ := (Option.any_eq_true _ _).1 run
  obtain ⟨shown, start, some_byte, live, state, returned, within⟩ := of_decide_eq_true hs
  obtain ⟨head, chunked⟩ := chunkedHead_accepted
  have reached : Runs.Reached (Connection.step {}) Accepted
      (fun c l => Keeping (ChunksFit ({} : Config).httpMaxRequestBufSize) c l ∧ InFlow {} c l) c :=
    .guarded (.init accepted_accepted) hc
  exact ⟨c, reached, shown, chunks_not_held_back reached live state returned head chunked start some_byte within⟩

end Runs

end HttpServer.ChunkedBodies
