import HttpServer.ChunkDecoder
import HttpServer.ParserCalls
import HttpServer.ParserRuns

set_option autoImplicit false

/-!
# The size lines of a chunked body

A line may be cut anywhere: what a call leaves for the next one is the state of the machine and the
number read so far.
-/
namespace HttpServer.SizeLines
open MachineInt Scanner ParserTables ParserGrammar HttpServer.Parser BodyPhases ChunkDecoder

/-- The bytes read since `s`, and the state before the next one. Between two calls of
    `hsh_parser_exec` the buffer may become anything. -/
inductive Reading (max : ℤ) (s : Exec) : List UInt8 → Exec → Prop
  | start : Reading max s [] s
  | byte {line : List UInt8} {t u : Exec} {c : UInt8} {blk : NewBlock} (run : Reading max s line t)
      (running : t.p ≠ t.pe) (h : (machine max blk).step c t = .fall u) : Reading max s (line ++ [c]) u
  | cut {line : List UInt8} {t : Exec} (buffer : HshBufferS) (run : Reading max s line t)
      (ended : t.p = t.pe) : Reading max s line (enter (leave t).2.1 buffer)

def isHex (c : UInt8) : Bool := isXDigit c.toNat

def digitValue (c : UInt8) : ℤ :=
  if 97 ≤ c.toNat then c.toNat - 87 else if 65 ≤ c.toNat then c.toNat - 55 else c.toNat - 48

/-- The number that hexadecimal digits stand for. -/
def hexValue (digits : List UInt8) : ℤ := digits.foldl (fun v c => 16 * v + digitValue c) 0

/-- The value of the digits in a size line, before it is cut to 64 bits. -/
def lineValue (line : List UInt8) : ℤ := hexValue (line.filter isHex)

section Values

variable {c : UInt8} {s : Exec} {ds : List UInt8}

theorem digitValue_nonneg (hex : isHex c = true) : 0 ≤ digitValue c := by
  simp only [isHex, isXDigit, Bool.or_eq_true, Bool.and_eq_true, decide_eq_true_eq] at hex
  unfold digitValue
  split
  · omega
  split <;> omega

theorem digitValue_pos (hex : isHex c = true) (nonzero : c ≠ 48) : 0 < digitValue c := by
  have other : c.toNat ≠ 48 := fun h => nonzero (UInt8.toNat_inj.1 h)
  simp only [isHex, isXDigit, Bool.or_eq_true, Bool.and_eq_true, decide_eq_true_eq] at hex
  unfold digitValue
  split
  · omega
  split <;> omega

theorem chunkSize_eq (c : UInt8) (s : Exec) : chunkSize c s =
    if isHex c then s.setContentLength (wrap64 (wrap64 (s.parser.contentLength * 16) + digitValue c)) else s := by
  have lt := c.toNat_lt
  unfold chunkSize digitValue isHex isXDigit
  simp only [Bool.or_eq_true, Bool.and_eq_true, decide_eq_true_eq]
  split
  · rw [if_pos (by omega), if_neg (by omega), if_pos (by omega)]
  split
  · rw [if_pos (by omega), if_pos (by omega)]
  split
  · rw [if_pos (by omega), if_neg (by omega), if_neg (by omega)]
  · rw [if_neg (by omega)]

theorem foldl_mono {v : ℤ} (nonneg : 0 ≤ v) (hex : ∀ c ∈ ds, isHex c = true) :
    v ≤ ds.foldl (fun v c => 16 * v + digitValue c) v := by
  induction ds generalizing v with
  | nil => exact le_refl v
  | cons c ds ih =>
    have digit := digitValue_nonneg (hex c List.mem_cons_self)
    have rest := ih (v := 16 * v + digitValue c) (by omega) fun c h => hex c (List.mem_cons_of_mem _ h)
    rw [List.foldl_cons]
    omega

theorem hexValue_pos (hex : ∀ d ∈ c :: ds, isHex d = true) (nonzero : c ≠ 48) : 0 < hexValue (c :: ds) := by
  have digit := digitValue_pos (hex c List.mem_cons_self) nonzero
  have rest := foldl_mono (v := 16 * 0 + digitValue c) (by omega) fun c h => hex c (List.mem_cons_of_mem _ h)
  change 0 < ds.foldl (fun v c => 16 * v + digitValue c) (16 * 0 + digitValue c)
  omega

theorem hexValue_append (c : UInt8) (ds : List UInt8) : hexValue (ds ++ [c]) = 16 * hexValue ds + digitValue c := by
  unfold hexValue
  rw [List.foldl_append]
  rfl

theorem wrap64_digit (v d : ℤ) : wrap64 (wrap64 (wrap64 v * 16) + d) = wrap64 (16 * v + d) := by
  unfold wrap64
  rw [Int.bmod_mul_bmod, Int.bmod_add_bmod]
  congr 1
  ring

theorem lineValue_hex {line : List UInt8} (hex : isHex c = true) :
    lineValue (line ++ [c]) = 16 * lineValue line + digitValue c := by
  unfold lineValue
  rw [List.filter_append, List.filter_cons_of_pos hex, List.filter_nil, hexValue_append]

theorem lineValue_other {line : List UInt8} (other : isHex c = false) : lineValue (line ++ [c]) = lineValue line := by
  unfold lineValue
  rw [List.filter_append, List.filter_cons_of_neg (by rw [other]; decide), List.filter_nil, List.append_nil]

end Values

section Steps

variable {max : ℤ} {blk : NewBlock} {s t u : Exec} {c : UInt8} {ph : Phase} {as : List Action} {L : SizeLine}
  {line : List UInt8} {cs : ℕ} {n : ℤ}

theorem step_counts (lt : s.cs < 98) (plain : plainPhase (phase s.cs)) (h : phaseStep (phase s.cs) c.toNat = (ph, as))
    (alive : ph ≠ .error)
    (acts : ∀ t, t.parser.contentLength = s.parser.contentLength → ∃ u,
      (machine max blk).runActs c as t = .fall u ∧ u.cs = t.cs ∧ u.parser.contentLength = n) :
    ∃ u, (machine max blk).step c s = .fall u ∧ u.cs < 98 ∧ phase u.cs = ph ∧ u.parser.contentLength = n := by
  obtain ⟨cs, lt', hph, trans⟩ := @step_grammar max blk s c ph as lt plain h
  obtain ⟨u, run, hcs, hn⟩ := acts { s with cs := cs } rfl
  change u.cs = cs at hcs
  have nonerror : u.cs ≠ hshHttpError := by
    rw [hcs]
    rintro rfl
    exact alive hph.symm
  refine ⟨{ u with p := u.p + 1 }, ?_, hcs.trans_lt lt', (congrArg phase hcs).trans hph, hn⟩
  rw [Machine.step_fall (machine max blk) (t := u) (by rw [trans]; exact run)]
  exact if_neg nonerror

theorem step_refused (lt : s.cs < 98) (plain : plainPhase (phase s.cs)) (h : phaseStep (phase s.cs) c.toNat = phaseError) :
    ∃ u, (machine max blk).step c s = .out u ∧ u.cs = hshHttpError := by
  obtain ⟨cs, lt', hph, trans⟩ := @step_grammar max blk s c _ _ lt plain h
  obtain rfl := (HeadMachine.phase_error lt').1 hph
  refine ⟨{ s with cs := hshHttpError, p := s.p + 1 }, Machine.step_out _ ?_, rfl⟩
  rw [trans]
  rfl

theorem firstByte (known : Known L) (c : ℕ) : phaseStep L.first c =
    if c = 48 then (L.zeroCr, []) else (L.size, [.chunkStart, .chunkSize]) := by
  rcases known with rfl | rfl <;> rfl

theorem sizeByte (known : Known L) (c : UInt8) : phaseStep L.size c.toNat =
    if c.toNat = 13 then (L.lf, []) else if isHex c then (L.size, [.chunkSize]) else phaseError := by
  rcases known with rfl | rfl <;> rfl

theorem lfByte (known : Known L) (c : ℕ) :
    phaseStep L.lf c = if c = 10 then (L.data, []) else phaseError := by
  rcases known with rfl | rfl <;> rfl

theorem zeroCrByte (known : Known L) (c : ℕ) :
    phaseStep L.zeroCr c = if c = 13 then (L.zeroLf, []) else phaseError := by
  rcases known with rfl | rfl <;> rfl

theorem zeroLfByte (known : Known L) (c : ℕ) :
    phaseStep L.zeroLf c = if c = 10 then (.streamDone, [.endStream]) else phaseError := by
  rcases known with rfl | rfl <;> rfl

theorem dataByte (known : Known L) (c : ℕ) :
    (phaseStep L.data c).1 = .data ∨ (phaseStep L.data c).1 = .bodyData := by
  rcases known with rfl | rfl
  · exact .inr rfl
  · exact .inl rfl

def inData (cs : ℕ) : Prop := phase cs = .data ∨ phase cs = .bodyData

theorem data_step (lt : s.cs < 98) (data : inData s.cs) (h : (machine max blk).step c s = .fall u) :
    u.cs < 98 ∧ inData u.cs := by
  have hc : c.toNat < 256 := c.toNat_lt
  obtain ⟨parser, rfl⟩ := step_falls h
  refine ⟨transTarg_lt _ _, ?_⟩
  rcases data with hd | hd
  · have alive : s.cs ≠ 0 := by
      intro h0
      rw [h0] at hd
      cases hd
    refine .inl ((tables_agree lt hc alive (by rw [hd]; decide)).1.trans ?_)
    rw [hd]
    rfl
  · exact .inr (bodyData_agree lt hc hd).1

/-- What was read of a size line, in a state of the machine with the number `n`. -/
inductive LineRead (L : SizeLine) : List UInt8 → ℕ → ℤ → Prop
  | first {cs : ℕ} {n : ℤ} (ph : phase cs = L.first) : LineRead L [] cs n
  | size {b : UInt8} {ds : List UInt8} {cs : ℕ} {n : ℤ} (ph : phase cs = L.size) (nonzero : b ≠ 48)
      (hex : ∀ c ∈ ds, isHex c = true) (value : n = wrap64 (lineValue (b :: ds))) : LineRead L (b :: ds) cs n
  | lf {b : UInt8} {ds : List UInt8} {cs : ℕ} {n : ℤ} (ph : phase cs = L.lf) (nonzero : b ≠ 48)
      (hex : ∀ c ∈ ds, isHex c = true) (value : n = wrap64 (lineValue (b :: ds))) :
      LineRead L (b :: ds ++ [13]) cs n
  | data {b : UInt8} {ds : List UInt8} {cs : ℕ} {n : ℤ} (ph : phase cs = L.data) (nonzero : b ≠ 48)
      (hex : ∀ c ∈ ds, isHex c = true) (value : n = wrap64 (lineValue (b :: ds))) :
      LineRead L (b :: ds ++ [13, 10]) cs n
  | zeroCr {cs : ℕ} {n : ℤ} (ph : phase cs = L.zeroCr) : LineRead L [48] cs n
  | zeroLf {cs : ℕ} {n : ℤ} (ph : phase cs = L.zeroLf) : LineRead L [48, 13] cs n
  | rest {line : List UInt8} {cs : ℕ} {n : ℤ} (data : inData cs) : LineRead L line cs n

def inLine (L : SizeLine) (cs : ℕ) : Prop :=
  phase cs = L.first ∨ phase cs = L.size ∨ phase cs = L.lf ∨ phase cs = L.zeroCr ∨ phase cs = L.zeroLf

theorem inLine_ne (known : Known L) (h : inLine L cs) : phase cs ≠ L.data ∧ ¬ inData cs := by
  unfold inLine at h
  unfold inData
  rcases known with rfl | rfl <;> rcases h with h | h | h | h | h <;> rw [h] <;> decide

theorem data_ne (known : Known L) (h : phase cs = L.data) : ¬ inData cs := by
  unfold inData
  rw [h]
  rcases known with rfl | rfl <;> decide

theorem LineRead.step (known : Known L) (h : LineRead L line s.cs s.parser.contentLength) (lt : s.cs < 98)
    (within : inLine L s.cs) :
    ((machine max blk).step c s).Sat False
      (fun u => u.cs < 98 ∧ LineRead L (line ++ [c]) u.cs u.parser.contentLength ∧
        (inLine L u.cs ∨ phase u.cs = L.data))
      (fun u => u.cs = hshHttpError ∨ line ++ [c] = ascii "0\r\n" ∧ phase u.cs = .streamDone) := by
  obtain ⟨first, size, lf, data, zeroCr, zeroLf⟩ := known.plain
  have refused : phaseStep (phase s.cs) c.toNat = phaseError → plainPhase (phase s.cs) →
      ((machine max blk).step c s).Sat False
        (fun u => u.cs < 98 ∧ LineRead L (line ++ [c]) u.cs u.parser.contentLength ∧
          (inLine L u.cs ∨ phase u.cs = L.data))
        (fun u => u.cs = hshHttpError ∨ line ++ [c] = ascii "0\r\n" ∧ phase u.cs = .streamDone) := by
    intro herr plain
    obtain ⟨u, hu, err⟩ := @step_refused max blk s c lt plain herr
    rw [hu]
    exact .inl err
  have quiet : ∀ t : Exec, t.parser.contentLength = s.parser.contentLength → ∃ u,
      (machine max blk).runActs c [] t = .fall u ∧ u.cs = t.cs ∧ u.parser.contentLength = s.parser.contentLength :=
    fun t ht => ⟨t, rfl, rfl, ht⟩
  -- `chunk_size` of a byte behind the digits read so far
  have counted : ∀ (line : List UInt8) (t : Exec), t.parser.contentLength = wrap64 (lineValue line) → ∃ u,
      (machine max blk).runActs c [.chunkSize] t = .fall u ∧ u.cs = t.cs ∧
        u.parser.contentLength = wrap64 (lineValue (line ++ [c])) := by
    intro line t ht
    refine ⟨chunkSize c t, rfl, ?_, ?_⟩
    · rw [chunkSize_eq]
      split <;> rfl
    · rw [chunkSize_eq]
      cases hex : isHex c with
      | true =>
        rw [lineValue_hex hex, if_pos rfl, ← wrap64_digit, ← ht]
        rfl
      | false =>
        rw [lineValue_other hex, if_neg (by decide)]
        exact ht
  cases h with
  | first ph =>
    have byte := (congrArg (phaseStep · c.toNat) ph).trans (firstByte known c.toNat)
    by_cases zero : c.toNat = 48
    · rw [if_pos zero] at byte
      obtain ⟨u, hu, lt', hph, -⟩ := step_counts lt (ph ▸ first) byte zeroCr.1 quiet
      obtain rfl : c = 48 := UInt8.toNat_inj.1 zero
      rw [hu]
      exact ⟨lt', .zeroCr hph, .inl (by simp [inLine, hph])⟩
    · rw [if_neg zero] at byte
      obtain ⟨u, hu, lt', hph, hn⟩ := step_counts (n := wrap64 (lineValue [c])) lt (ph ▸ first) byte size.1
        fun t _ => counted [] (chunkStart t) rfl
      rw [hu]
      exact ⟨lt', .size hph (fun h => zero (by rw [h]; rfl)) (by simp) hn, .inl (by simp [inLine, hph])⟩
  | @size b ds _ _ ph nonzero hex value =>
    have byte := (congrArg (phaseStep · c.toNat) ph).trans (sizeByte known c)
    by_cases cr : c.toNat = 13
    · rw [if_pos cr] at byte
      obtain ⟨u, hu, lt', hph, hn⟩ := step_counts lt (ph ▸ size) byte lf.1 quiet
      obtain rfl : c = 13 := UInt8.toNat_inj.1 cr
      rw [hu]
      exact ⟨lt', .lf hph nonzero hex (hn.trans value), .inl (by simp [inLine, hph])⟩
    rw [if_neg cr] at byte
    by_cases digit : isHex c = true
    · rw [if_pos digit] at byte
      obtain ⟨u, hu, lt', hph, hn⟩ := step_counts (n := wrap64 (lineValue (b :: (ds ++ [c])))) lt (ph ▸ size) byte
        size.1 fun t ht => counted (b :: ds) t (ht.trans value)
      rw [hu]
      refine ⟨lt', .size hph nonzero ?_ hn, .inl (by simp [inLine, hph])⟩
      intro d hd
      rcases List.mem_append.1 hd with hd | hd
      · exact hex d hd
      · rw [List.mem_singleton.1 hd]
        exact digit
    · rw [if_neg digit] at byte
      exact refused byte (ph ▸ size)
  | @lf b ds _ _ ph nonzero hex value =>
    have byte := (congrArg (phaseStep · c.toNat) ph).trans (lfByte known c.toNat)
    by_cases end_ : c.toNat = 10
    · rw [if_pos end_] at byte
      obtain ⟨u, hu, lt', hph, hn⟩ := step_counts lt (ph ▸ lf) byte data.1 quiet
      obtain rfl : c = 10 := UInt8.toNat_inj.1 end_
      rw [hu]
      refine ⟨lt', ?_, .inr hph⟩
      rw [List.append_assoc]
      exact .data hph nonzero hex (hn.trans value)
    · rw [if_neg end_] at byte
      exact refused byte (ph ▸ lf)
  | data ph => exact absurd ph (inLine_ne known within).1
  | zeroCr ph =>
    have byte := (congrArg (phaseStep · c.toNat) ph).trans (zeroCrByte known c.toNat)
    by_cases cr : c.toNat = 13
    · rw [if_pos cr] at byte
      obtain ⟨u, hu, lt', hph, -⟩ := step_counts lt (ph ▸ zeroCr) byte zeroLf.1 quiet
      obtain rfl : c = 13 := UInt8.toNat_inj.1 cr
      rw [hu]
      exact ⟨lt', .zeroLf hph, .inl (by simp [inLine, hph])⟩
    · rw [if_neg cr] at byte
      exact refused byte (ph ▸ zeroCr)
  | zeroLf ph =>
    have byte := (congrArg (phaseStep · c.toNat) ph).trans (zeroLfByte known c.toNat)
    by_cases end_ : c.toNat = 10
    · rw [if_pos end_] at byte
      obtain rfl : c = 10 := UInt8.toNat_inj.1 end_
      obtain ⟨cs, -, done, trans⟩ := @step_grammar max blk s 10 _ _ lt (ph ▸ zeroLf) byte
      rw [Machine.step, trans]
      exact .inr ⟨rfl, done⟩
    · rw [if_neg end_] at byte
      exact refused byte (ph ▸ zeroLf)
  | rest data => exact absurd data (inLine_ne known within).2

theorem first_data (known : Known L) (lt : s.cs < 98) (ph : phase s.cs = L.data)
    (h : (machine max blk).step c s = .fall u) : u.cs < 98 ∧ inData u.cs := by
  have plain := known.plain.2.2.2.1
  rw [← ph] at plain
  have alive : s.cs ≠ 0 := by
    intro h0
    rw [h0] at plain
    exact plain.1 rfl
  obtain ⟨parser, rfl⟩ := step_falls h
  refine ⟨transTarg_lt _ _, ?_⟩
  unfold inData
  rw [(tables_agree lt c.toNat_lt alive plain.2.1).1, ph]
  exact dataByte known c.toNat

end Steps

section Lines

variable {max : ℤ} {s t : Exec} {line : List UInt8} {L : SizeLine} {n : ℤ}

theorem leave_fields (t : Exec) : (leave t).2.1.state = t.cs ∧
    (leave t).2.1.contentLength = t.parser.contentLength := by
  unfold leave
  dsimp only
  split <;> exact ⟨rfl, rfl⟩

theorem Reading.lineRead (known : Known L) (lt : s.cs < 98) (start : phase s.cs = L.first) (run : Reading max s line t) :
    t.cs < 98 ∧ LineRead L line t.cs t.parser.contentLength := by
  induction run with
  | start => exact ⟨lt, .first start⟩
  | @byte line t u c blk _ _ h ih =>
    obtain ⟨lt, read⟩ := ih
    by_cases within : inLine L t.cs
    · have step := @LineRead.step max blk t c L line known read lt within
      rw [h] at step
      exact ⟨step.1, step.2.1⟩
    · have data : u.cs < 98 ∧ inData u.cs := by
        cases read with
        | data ph => exact first_data known lt ph h
        | rest data => exact data_step lt data h
        | first ph => exact absurd (.inl ph) within
        | size ph => exact absurd (.inr (.inl ph)) within
        | lf ph => exact absurd (.inr (.inr (.inl ph))) within
        | zeroCr ph => exact absurd (.inr (.inr (.inr (.inl ph)))) within
        | zeroLf ph => exact absurd (.inr (.inr (.inr (.inr ph)))) within
      exact ⟨data.1, .rest data.2⟩
  | @cut line t buffer _ _ ih =>
    obtain ⟨state, length⟩ := leave_fields t
    change (leave t).2.1.state < 98 ∧ LineRead L line (leave t).2.1.state (leave t).2.1.contentLength
    rw [state, length]
    exact ih

/-- `1*HEXDIG CRLF` with a positive value that fits in `int64_t`, which is `n`. -/
def WellFormed (line : List UInt8) (n : ℤ) : Prop :=
  ∃ digits : List UInt8, digits ≠ [] ∧ (∀ c ∈ digits, isHex c = true) ∧ line = digits ++ [13, 10] ∧
    0 < hexValue digits ∧ hexValue digits < 9223372036854775808 ∧ n = hexValue digits

/-- The first byte of the line is a digit, and the value fits in `int64_t`. -/
def Plain (line : List UInt8) : Prop :=
  (∃ c, line.head? = some c ∧ isHex c = true) ∧ lineValue line < 9223372036854775808

theorem lineValue_crlf (line : List UInt8) : lineValue (line ++ [13, 10]) = lineValue line := by
  rw [show line ++ [13, 10] = line ++ [13] ++ [10] by simp, lineValue_other (by decide), lineValue_other (by decide)]

theorem lineValue_digits {digits : List UInt8} (hex : ∀ c ∈ digits, isHex c = true) :
    lineValue digits = hexValue digits := by
  unfold lineValue
  rw [List.filter_eq_self.2 hex]

theorem WellFormed.plain (h : WellFormed line n) : Plain line := by
  obtain ⟨digits, nonempty, hex, rfl, -, fits, -⟩ := h
  refine ⟨?_, by rwa [lineValue_crlf, lineValue_digits hex]⟩
  cases digits with
  | nil => exact absurd rfl nonempty
  | cons c digits => exact ⟨c, rfl, hex c List.mem_cons_self⟩

theorem Reading.wellFormed (known : Known L) (lt : s.cs < 98) (start : phase s.cs = L.first)
    (run : Reading max s line t) :
    (phase t.cs = L.data → (WellFormed line t.parser.contentLength ↔ Plain line)) ∧
      (inLine L t.cs → ∀ blk c, ((machine max blk).step c t).Sat False
        (fun u => inLine L u.cs ∨ phase u.cs = L.data)
        (fun u => u.cs = hshHttpError ∨ line ++ [c] = ascii "0\r\n")) := by
  obtain ⟨lt', read⟩ := run.lineRead known lt start
  refine ⟨fun data => ⟨WellFormed.plain, fun plain => ?_⟩, fun within blk c => ?_⟩
  · have known_data : ∀ {cs : ℕ}, phase cs = L.data → ¬ inLine L cs ∧ ¬ inData cs := fun ph =>
      ⟨fun within => (inLine_ne known within).1 ph, data_ne known ph⟩
    obtain ⟨outside, before⟩ := known_data data
    cases read with
    | @data b ds _ _ ph nonzero hex value =>
      obtain ⟨⟨c, hc, first⟩, fits⟩ := plain
      obtain rfl : b = c := Option.some.inj hc
      have digits : ∀ c ∈ b :: ds, isHex c = true := List.forall_mem_cons.2 ⟨first, hex⟩
      have pos := hexValue_pos digits nonzero
      rw [lineValue_crlf, lineValue_digits digits] at fits
      rw [lineValue_digits digits, wrap64_eq (by omega) fits] at value
      exact ⟨b :: ds, List.cons_ne_nil b ds, digits, rfl, pos, fits, value⟩
    | rest data => exact absurd data before
    | first ph => exact absurd (.inl ph) outside
    | size ph => exact absurd (.inr (.inl ph)) outside
    | lf ph => exact absurd (.inr (.inr (.inl ph))) outside
    | zeroCr ph => exact absurd (.inr (.inr (.inr (.inl ph)))) outside
    | zeroLf ph => exact absurd (.inr (.inr (.inr (.inr ph)))) outside
  · exact (read.step known lt' within).mono (fun _ h => h.2.2) fun _ h => h.imp_right And.left

/-- However a size line is cut: when the data begins, the line is well formed and its value is the
    length of the chunk if and only if the first byte is a digit and the value fits; any byte that the
    line cannot have leads to the error state, and `0` is the only line that ends the body. -/
theorem sizeLine_wellFormed (known : Known L) (lt : s.cs < 98) (start : phase s.cs = L.first)
    (run : Reading max s line t) :
    (phase t.cs = L.data → (WellFormed line t.parser.contentLength ↔ Plain line)) ∧
      (inLine L t.cs → ∀ blk c, ((machine max blk).step c t).Sat False
        (fun u => inLine L u.cs ∨ phase u.cs = L.data)
        (fun u => u.cs = hshHttpError ∨ line ++ [c] = ascii "0\r\n")) :=
  run.wellFormed known lt start

end Lines

section Runs

/-! Size lines in the runs of the parser. -/

open ReadBuffer ParserInvariant ParserRuns

variable {initial max : ℤ} {blk : NewBlock} {s t u : Exec} {c : UInt8} {L : SizeLine} {lead line bytes : List UInt8}
  {parser parser' : HshParserS} {buffer buffer' : HshBufferS} {token : HshTokenS}

/-- A line begins at the start of the body, or behind `lead`, the end of the chunk before it. -/
def Starts (L : SizeLine) (lead : List UInt8) (cs : ℕ) : Prop :=
  L = bodyLine ∧ lead = [] ∧ cs = hshHttpEnChunkedBody ∨ L = endLine ∧ lead = [13, 10] ∧ cs = hshHttpEnChunkEnd

/-- The bytes read since `Starts`. -/
inductive Leading (max : ℤ) (L : SizeLine) (lead : List UInt8) : List UInt8 → Exec → Prop
  | cr {t : Exec} (lt : t.cs < 98) (ph : phase t.cs = .nextCr) (behind : L = endLine ∧ lead = [13, 10]) :
      Leading max L lead [] t
  | lf {t : Exec} (lt : t.cs < 98) (ph : phase t.cs = .nextLf) (behind : L = endLine ∧ lead = [13, 10]) :
      Leading max L lead [13] t
  | line {s t : Exec} {line : List UInt8} (lt : s.cs < 98) (first : phase s.cs = L.first) (run : Reading max s line t) :
      Leading max L lead (lead ++ line) t

/-- The line has begun, and its data has not. -/
def onLine (L : SizeLine) (cs : ℕ) : Prop :=
  inLine L cs ∨ phase cs = L.data ∨ L = endLine ∧ phase cs = .nextLf

/-- Where a call stops that has not read its buffer to the end. -/
def Stopped (u : Exec) : Prop :=
  u.cs = hshHttpError ∨ phase u.cs = .streamDone ∨ inData u.cs ∨ u.cs = hshHttpEnChunkEnd

theorem Starts.known {cs : ℕ} (starts : Starts L lead cs) : Known L :=
  starts.imp And.left And.left

theorem Stopped.outside (known : Known L) (stopped : Stopped u) : ¬ onLine L u.cs := by
  unfold onLine
  rintro (within | data | ⟨-, lf⟩)
  · rcases stopped with err | done | rest | ends
    · rw [err] at within
      rcases known with rfl | rfl <;> exact absurd within (by unfold inLine; decide)
    · unfold inLine at within
      rw [done] at within
      rcases known with rfl | rfl <;> exact absurd within (by decide)
    · exact (inLine_ne known within).2 rest
    · rw [ends] at within
      rcases known with rfl | rfl <;> exact absurd within (by unfold inLine; decide)
  · rcases stopped with err | done | rest | ends
    · rw [err] at data
      rcases known with rfl | rfl <;> exact absurd data (by decide)
    · rw [done] at data
      rcases known with rfl | rfl <;> exact absurd data (by decide)
    · exact data_ne known data rest
    · rw [ends] at data
      rcases known with rfl | rfl <;> exact absurd data (by decide)
  · rcases stopped with err | done | rest | ends
    · rw [err] at lf
      exact absurd lf (by decide)
    · rw [done] at lf
      cases lf
    · rcases rest with ph | ph <;> rw [ph] at lf <;> cases lf
    · rw [ends] at lf
      exact absurd lf (by decide)

theorem fall_phase (lt : t.cs < 98) (plain : plainPhase (phase t.cs)) (h : (machine max blk).step c t = .fall u) :
    u.cs < 98 ∧ phase u.cs = (phaseStep (phase t.cs) c.toNat).1 ∧ phase u.cs ≠ .error := by
  have alive : t.cs ≠ hshHttpError := by
    intro err
    rw [err] at plain
    exact plain.1 rfl
  have onward := step_alive h
  obtain ⟨parser, rfl⟩ := step_falls h
  refine ⟨transTarg_lt _ _, (tables_agree lt c.toNat_lt alive plain.2.1).1, fun err => ?_⟩
  exact onward ((HeadMachine.phase_error (transTarg_lt _ _)).1 err)

theorem Starts.leading (starts : Starts L lead s.cs) (run : Reading max s bytes t) : Leading max L lead bytes t := by
  induction run with
  | start =>
    rcases starts with ⟨rfl, rfl, state⟩ | ⟨rfl, rfl, state⟩
    · exact @Leading.line max bodyLine [] s s [] (by rw [state]; decide) (by rw [state]; decide) .start
    · exact .cr (by rw [state]; decide) (by rw [state]; decide) ⟨rfl, rfl⟩
  | @byte bytes t u c blk _ running h ih =>
    cases ih with
    | cr lt ph behind =>
      obtain ⟨lt', hph, alive⟩ := fall_phase lt (by rw [ph]; simp [plainPhase]) h
      rw [ph] at hph
      change phase u.cs = (if c.toNat = 13 then (Phase.nextLf, []) else phaseError).1 at hph
      by_cases cr : c.toNat = 13
      · obtain rfl : c = 13 := UInt8.toNat_inj.1 cr
        exact .lf lt' hph behind
      · rw [if_neg cr] at hph
        exact absurd hph alive
    | lf lt ph behind =>
      obtain ⟨lt', hph, alive⟩ := fall_phase lt (by rw [ph]; simp [plainPhase]) h
      rw [ph] at hph
      change phase u.cs = (if c.toNat = 10 then (Phase.sizeFirst, []) else phaseError).1 at hph
      by_cases lf : c.toNat = 10
      · obtain rfl : c = 10 := UInt8.toNat_inj.1 lf
        obtain ⟨rfl, rfl⟩ := behind
        exact @Leading.line max endLine [13, 10] u u [] lt' hph .start
      · rw [if_neg lf] at hph
        exact absurd hph alive
    | line lt first run =>
      rw [List.append_assoc]
      exact .line lt first (run.byte running h)
  | @cut bytes t buffer _ ended ih =>
    have state := (leave_fields t).1
    cases ih with
    | cr lt ph behind => exact .cr (state.trans_lt lt) ((congrArg phase state).trans ph) behind
    | lf lt ph behind => exact .lf (state.trans_lt lt) ((congrArg phase state).trans ph) behind
    | line lt first run => exact .line lt first (run.cut buffer ended)

theorem dataAction_stopped {a : Action} {cs : ℕ} (ha : a ∈ dataActions) (state : t.cs = cs) (data : inData cs) :
    ((machine max blk).act a c t).Sat True (fun u => u.cs = cs) Stopped := by
  have falls := @runAction_falls max blk a c t
  change (runAction max blk c a t).Sat _ _ _
  cases hr : runAction max blk c a t with
  | fall u =>
    rw [hr] at falls
    obtain ⟨parser, rfl⟩ := falls
    exact state
  | out u =>
    simp only [dataActions, List.mem_cons, List.not_mem_nil, or_false] at ha
    rcases ha with rfl | rfl | rfl | rfl | rfl
    · cases hr
    · cases hr
    · cases hr
    · change chunkRead max t = _ at hr
      unfold chunkRead at hr
      dsimp only at hr
      split at hr
      · cases hr
        exact .inr (.inr (.inr rfl))
      split at hr
      · split at hr
        · cases hr
        · cases hr
          exact .inr (.inr (.inl (show inData t.cs from state ▸ data)))
      · cases hr
    · cases hr
      exact .inr (.inr (.inl (show inData t.cs from state ▸ data)))
  | fault => trivial

theorem data_stopped (lt : t.cs < 98) (data : phase t.cs = .dataFirst ∨ phase t.cs = .data ∨
    phase t.cs = .bodyDataFirst ∨ phase t.cs = .bodyData) :
    ((machine max blk).step c t).Sat True (fun _ => True) Stopped := by
  have alive : t.cs ≠ hshHttpError := by
    intro err
    rw [err] at data
    exact absurd data (by decide)
  obtain ⟨target, acts⟩ := ParserInvariant.dataByte (c := c) lt alive data
  have has : ∀ a ∈ transActions t.cs c.toNat, a ∈ dataActions := by
    rcases acts with ⟨-, has⟩ | acts
    · exact has
    · rw [acts]
      decide
  refine Machine.step_sat (P := fun u => u.cs = transTarg t.cs c.toNat) _ ?_ fun u hu => ?_
  · exact Machine.runActs_sat _ (C := fun _ _ _ => True)
      (fun a ha u hu _ => dataAction_stopped (has a ha) hu target) rfl (Machine.actsOk_true _ _ _ _)
  · rcases @ParserCalls.again_cases max blk u with ⟨heq, err⟩ | heq <;> rw [heq]
    · exact .inl err
    · trivial

theorem lead_stopped (lt : t.cs < 98) (ph : phase t.cs = .nextCr ∨ phase t.cs = .nextLf) :
    ((machine max blk).step c t).Sat True (fun _ => True) Stopped := by
  have plain : plainPhase (phase t.cs) := by rcases ph with ph | ph <;> rw [ph] <;> simp [plainPhase]
  by_cases refused : phaseStep (phase t.cs) c.toNat = phaseError
  · obtain ⟨u, hu, err⟩ := @step_refused max blk t c lt plain refused
    rw [hu]
    exact .inl err
  · have next : ∃ ph', ph' ≠ .error ∧ phaseStep (phase t.cs) c.toNat = (ph', []) := by
      rcases ph with ph | ph <;> rw [ph] at refused ⊢ <;> simp only [phaseStep] at refused ⊢ <;> split <;>
        simp_all
    obtain ⟨ph', alive, byte⟩ := next
    obtain ⟨u, hu, -⟩ := @step_counts max blk t c ph' [] t.parser.contentLength lt plain byte alive
      fun t ht => ⟨t, rfl, rfl, ht⟩
    rw [hu]
    trivial

theorem Leading.step_stopped (known : Known L) (read : Leading max L lead bytes t) :
    ((machine max blk).step c t).Sat True (fun _ => True) Stopped := by
  cases read with
  | cr lt ph => exact lead_stopped lt (.inl ph)
  | lf lt ph => exact lead_stopped lt (.inr ph)
  | @line s t line lt start run =>
    obtain ⟨lt', read⟩ := run.lineRead known lt start
    by_cases within : inLine L t.cs
    · have step := @LineRead.step max blk t c L line known read lt' within
      cases hst : (machine max blk).step c t with
      | fall u => trivial
      | out u =>
        rw [hst] at step
        exact step.imp id fun done => .inl done.2
      | fault => trivial
    · refine data_stopped lt' ?_
      cases read with
      | data ph => rcases known with rfl | rfl <;> simp [ph, bodyLine, endLine]
      | rest data => rcases data with ph | ph <;> simp [ph]
      | first ph => exact absurd (.inl ph) within
      | size ph => exact absurd (.inr (.inl ph)) within
      | lf ph => exact absurd (.inr (.inr (.inl ph))) within
      | zeroCr ph => exact absurd (.inr (.inr (.inr (.inl ph)))) within
      | zeroLf ph => exact absurd (.inr (.inr (.inr (.inr ph)))) within

/-- In a call that goes on with a size line, `bytes` being left to its scan. -/
structure Onward (max : ℤ) (s : Exec) (line : List UInt8) (parser : HshParserS) (buffer : HshBufferS)
    (bytes : List UInt8) (t : Exec) : Prop where
  loop : Loop true max (enter parser buffer) bytes t
  buffer_eq : t.buffer = buffer
  reading : ∃ taken, taken ++ bytes = bytesFrom buffer (buffer.buf + buffer.index) ∧ Reading max s (line ++ taken) t

theorem Onward.ended (h : Onward max s line parser buffer bytes t) (rest : Rest true max parser buffer)
    (ended : t.p = t.pe) : Reading max s (line ++ unconsumed buffer) t := by
  obtain ⟨loop, same, taken, whole, reading⟩ := h
  have left := loop.bytes
  have pe := loop.pe_eq
  have placed : CursorOk (enter parser buffer) := rest.inv.placed.resolve_right (by simp)
  have held := rest.inv.buffer.held rfl
  have lo := placed.ahi_le
  have hi := placed.le_length
  have ahi := rest.inv.buffer.ahi_nonneg
  rw [cursor_enter] at lo hi
  rw [same] at left pe
  rw [ended, pe] at left
  change _ ≤ buffer.length at hi
  change buffer.length ≤ buffer.capacity ∧ _ at held
  change 0 ≤ buffer.afterHeadersIndex at ahi
  change buffer.afterHeadersIndex ≤ _ at lo
  unfold bytesFrom at left whole
  rw [if_pos (by omega)] at left whole
  rw [show buffer.buf + buffer.length - buffer.buf = buffer.length by ring,
    show (buffer.buf + buffer.capacity - (buffer.buf + buffer.length)).toNat =
      (buffer.capacity - buffer.length).toNat by omega] at left
  rw [show buffer.buf + buffer.index - buffer.buf = buffer.index by ring,
    show (buffer.buf + buffer.capacity - (buffer.buf + buffer.index)).toNat =
      (buffer.length - buffer.index).toNat + (buffer.capacity - buffer.length).toNat by omega, slice_add,
    show buffer.index + ((buffer.length - buffer.index).toNat : ℤ) = buffer.length by omega, ← left] at whole
  rw [unconsumed, ← List.append_cancel_right whole]
  exact reading

/-- A call that goes on with a line, and stops inside it, has read its buffer to the end. -/
theorem Reading.call (starts : Starts L lead s.cs) (run : Reading max s line (enter parser buffer))
    (rest : Rest true max parser buffer) (max_ge : -2147483648 ≤ max) (max_lt : max < 2147483648) (hblk : BlockOk blk)
    (ok : CursorKept max parser buffer blk) (scans : Scans parser buffer)
    (hr : hshParserExec max blk parser buffer = some (token, parser', buffer'))
    (here : onLine L parser'.state) (next : HshBufferS) : Reading max s (line ++ unconsumed buffer) (enter parser' next) := by
  unfold hshParserExec at hr
  rw [if_neg scans.1] at hr
  obtain ⟨u, hu, hl⟩ := Option.map_eq_some_iff.1 hr
  unfold writeExec at hu
  rw [if_neg fun err => scans.2 ⟨fun ended => err.1 (by unfold enter; dsimp only; rw [ended]), err.2⟩] at hu
  have exit := Machine.scan_sat (machine max blk) (E := True) (I := Onward max s line parser buffer)
    (Q := fun u => u.p = u.pe ∧ Reading max s (line ++ unconsumed buffer) u ∨ Stopped u)
    (fun _ _ _ => trivial)
    (fun _ t ht stop => .inl ⟨eq_of_beq stop, ht.ended rest (eq_of_beq stop)⟩)
    (fun c bytes t ht running _ acts => by
      have moving : t.p ≠ t.pe := by simpa [machine] using running
      have step := step_sat ht.loop moving acts max_ge max_lt hblk
      obtain ⟨taken, whole, reading⟩ := ht.reading
      have stopped := @Leading.step_stopped max blk t c L lead _ starts.known (starts.leading reading)
      cases hst : (machine max blk).step c t with
      | fall u =>
        rw [hst] at step
        obtain ⟨parser, hu⟩ := step_falls hst
        refine ⟨step, by rw [hu]; exact ht.buffer_eq, taken ++ [c], by simpa using whole, ?_⟩
        rw [← List.append_assoc]
        exact reading.byte moving hst
      | out u =>
        rw [hst] at stopped
        exact .inr stopped
      | fault => trivial)
    ⟨enter_loop rest scans, rfl, [], rfl, by simpa using run⟩ (ok.actionOk scans)
  change (machine max blk).scan (bytesFrom buffer (buffer.buf + buffer.index)) (enter parser buffer) = some u at hu
  rw [hu] at exit
  obtain ⟨state, -⟩ := leave_fields u
  rw [hl] at state
  rcases exit with ⟨ended, reading⟩ | stopped
  · have cut := reading.cut next ended
    rwa [hl] at cut
  · exact absurd (state ▸ here) (stopped.outside starts.known)

/-- A run that has come to a size line: the bytes that its calls have read since then. -/
inductive LineRun (initial max : ℤ) (L : SizeLine) (lead : List UInt8) : List UInt8 → HshParserS → HshBufferS → Prop
  | start {input : List UInt8} {tokens : List HshTokenS} {parser : HshParserS} {buffer : HshBufferS}
      (run : ParserRun (CursorKept max) initial max input tokens parser buffer) (starts : Starts L lead parser.state) :
      LineRun initial max L lead [] parser buffer
  | read {bytes : List UInt8} {parser : HshParserS} {buffer : HshBufferS} {calls : List ReadCall} {memused : ℤ}
      {r : ReadReturn} (run : LineRun initial max L lead bytes parser buffer)
      (hblk : ∀ call ∈ calls, BlockOk call.blk) (hr : hsReadIntoBuffer max calls buffer memused = some r) :
      LineRun initial max L lead bytes parser r.buffer
  | exec {bytes : List UInt8} {parser parser' : HshParserS} {buffer buffer' : HshBufferS} {blk : NewBlock}
      {token : HshTokenS} (run : LineRun initial max L lead bytes parser buffer) (hblk : BlockOk blk)
      (hok : CursorKept max parser buffer blk)
      (hr : hshParserExec max blk parser buffer = some (token, parser', buffer')) (here : onLine L parser'.state) :
      LineRun initial max L lead (bytes ++ if Scans parser buffer then unconsumed buffer else []) parser' buffer'

theorem LineRun.parserRun (run : LineRun initial max L lead bytes parser buffer) :
    ∃ input tokens, ParserRun (CursorKept max) initial max input tokens parser buffer := by
  induction run with
  | start run => exact ⟨_, _, run⟩
  | read _ hblk hr ih =>
    obtain ⟨input, tokens, run⟩ := ih
    exact ⟨_, _, run.read hblk hr⟩
  | exec _ hblk hok hr _ ih =>
    obtain ⟨input, tokens, run⟩ := ih
    exact ⟨_, _, run.exec hblk hok hr⟩

theorem LineRun.reading (initial_ge : 0 ≤ initial) (initial_le : initial ≤ max) (max_lt : max < 2147483648)
    (run : LineRun initial max L lead bytes parser buffer) (next : HshBufferS) :
    parser.state ≠ hshHttpError ∧ ∃ s, Starts L lead s.cs ∧ Reading max s bytes (enter parser next) := by
  induction run generalizing next with
  | @start _ _ parser _ run starts =>
    refine ⟨?_, enter parser next, starts, .start⟩
    rcases starts with ⟨-, -, state⟩ | ⟨-, -, state⟩ <;> rw [state] <;> decide
  | read _ _ _ ih => exact ih next
  | @exec bytes parser parser' buffer buffer' blk token run hblk hok hr here ih =>
    obtain ⟨input, tokens, reached⟩ := run.parserRun
    obtain ⟨alive, s, starts, reading⟩ := ih buffer
    refine ⟨fun err => Stopped.outside (u := enter parser' buffer') starts.known (.inl err) here, ?_⟩
    by_cases scans : Scans parser buffer
    · rw [if_pos scans]
      exact ⟨s, starts, reading.call starts (rest_kept initial_ge initial_le max_lt reached) (by omega) max_lt hblk hok
        scans hr here next⟩
    · rw [if_neg scans, List.append_nil]
      have idle : hshParserExec max blk parser buffer = some (noneToken, parser, buffer) := by
        unfold hshParserExec
        rw [if_pos (by_contra fun running => scans ⟨running, fun err => alive err.2⟩)]
      cases idle.symm.trans hr
      obtain ⟨-, s, starts, reading⟩ := ih next
      exact ⟨s, starts, reading⟩

theorem Reading.trans {more : List UInt8} (run : Reading max s line t) (on : Reading max t more u) :
    Reading max s (line ++ more) u := by
  induction on with
  | start => simpa using run
  | byte _ running h ih =>
    rw [← List.append_assoc]
    exact ih.byte running h
  | cut buffer _ ended ih => exact ih.cut buffer ended

/-- In a run, however its reads and calls cut a size line: `bytes` were read by the calls so far, and `more`
    by the scan of the next one. -/
theorem sizeLine_reached (initial_ge : 0 ≤ initial) (initial_le : initial ≤ max) (max_lt : max < 2147483648)
    (run : LineRun initial max L lead bytes parser buffer) {more : List UInt8}
    (scanned : Reading max (enter parser buffer) more t) (here : inLine L t.cs ∨ phase t.cs = L.data) :
    ∃ line, bytes ++ more = lead ++ line ∧
      (phase t.cs = L.data → (WellFormed line t.parser.contentLength ↔ Plain line)) ∧
      (inLine L t.cs → ∀ blk c, ((machine max blk).step c t).Sat False
        (fun u => inLine L u.cs ∨ phase u.cs = L.data)
        (fun u => u.cs = hshHttpError ∨ line ++ [c] = ascii "0\r\n")) := by
  obtain ⟨-, s, starts, reading⟩ := run.reading initial_ge initial_le max_lt buffer
  generalize hall : bytes ++ more = all
  have read := starts.leading (reading.trans scanned)
  rw [hall] at read
  cases read with
  | cr _ ph behind =>
    unfold inLine at here
    rw [ph, behind.1] at here
    exact absurd here (by decide)
  | lf _ ph behind =>
    unfold inLine at here
    rw [ph, behind.1] at here
    exact absurd here (by decide)
  | @line _ _ line lt first run => exact ⟨line, rfl, run.wellFormed starts.known lt first⟩

end Runs

section Sessions

/-! A size line that a call finds in its buffer. -/

def feed (max : ℤ) (blk : NewBlock) : List UInt8 → Exec → Option Exec
  | [], s => some s
  | c :: cs, s =>
    if s.p = s.pe then none
    else match (machine max blk).step c s with
      | .fall t => feed max blk cs t
      | _ => none

theorem Reading.feed {max : ℤ} {blk : NewBlock} {bytes line : List UInt8} {s t u : Exec} (run : Reading max s line t)
    (h : SizeLines.feed max blk bytes t = some u) : Reading max s (line ++ bytes) u := by
  induction bytes generalizing line t with
  | nil =>
    cases h
    simpa using run
  | cons c bytes ih =>
    unfold SizeLines.feed at h
    split at h
    · cases h
    rename_i running
    cases hs : (machine max blk).step c t with
    | fall v =>
      rw [hs] at h
      simpa using ih (run.byte running hs) h
    | out v => rw [hs] at h; cases h
    | fault => rw [hs] at h; cases h

def chunkedHead : List UInt8 := ascii "POST / HTTP/1.1\r\nTransfer-Encoding: chunked\r\n\r\n"

open ParserRuns

theorem sizeLine_wellFormed_26 : ∃ input tokens parser buffer t,
    ParserRun (fun _ _ _ => True) 1024 8388608 input tokens parser buffer ∧
      Reading 8388608 (enter parser buffer) (ascii "1A\r\n") t ∧
      (WellFormed (ascii "1A\r\n") t.parser.contentLength ↔ Plain (ascii "1A\r\n")) := by
  have run : (session chunkedHead (ascii "1A\r\nx")).any (fun r =>
      decide (phase r.1.state = .bodySizeFirst ∧ r.1.state < 98) &&
        (feed 8388608 (block 4096) (ascii "1A\r\n") (enter r.1 r.2)).any fun t =>
          decide (phase t.cs = .bodyDataFirst)) = true := by
    decide +kernel
  obtain ⟨⟨parser, buffer⟩, hs, hr⟩ := (Option.any_eq_true _ _).1 run
  rw [Bool.and_eq_true, decide_eq_true_eq] at hr
  obtain ⟨t, ht, data⟩ := (Option.any_eq_true _ _).1 hr.2
  rw [decide_eq_true_eq] at data
  obtain ⟨tokens, reached⟩ := session_run hs
  have line := Reading.start.feed ht
  exact ⟨_, tokens, parser, buffer, t, reached, line,
    (sizeLine_wellFormed (L := bodyLine) (.inl rfl) hr.1.2 hr.1.1 line).1 data⟩

/-- The line `G1` begins a chunk of one byte. -/
theorem first_byte_ignored : ∃ input tokens parser buffer t,
    ParserRun (fun _ _ _ => True) 1024 8388608 input tokens parser buffer ∧
      phase parser.state = .bodySizeFirst ∧ Reading 8388608 (enter parser buffer) (ascii "G1\r\n") t ∧
      phase t.cs = .bodyDataFirst ∧ t.parser.contentLength = 1 ∧
      ¬ WellFormed (ascii "G1\r\n") t.parser.contentLength := by
  have run : (session chunkedHead (ascii "G1\r\nx")).any (fun r =>
      decide (phase r.1.state = .bodySizeFirst) &&
        (feed 8388608 (block 4096) (ascii "G1\r\n") (enter r.1 r.2)).any fun t =>
          decide (phase t.cs = .bodyDataFirst ∧ t.parser.contentLength = 1)) = true := by
    decide +kernel
  obtain ⟨⟨parser, buffer⟩, hs, hr⟩ := (Option.any_eq_true _ _).1 run
  rw [Bool.and_eq_true, decide_eq_true_eq] at hr
  obtain ⟨t, ht, data⟩ := (Option.any_eq_true _ _).1 hr.2
  rw [decide_eq_true_eq] at data
  obtain ⟨tokens, reached⟩ := session_run hs
  refine ⟨_, tokens, parser, buffer, t, reached, hr.1, Reading.start.feed ht, data.1, data.2, fun good => ?_⟩
  obtain ⟨c, hc, hex⟩ := good.plain.1
  obtain rfl : (71 : UInt8) = c := Option.some.inj hc
  exact absurd hex (by decide)

end Sessions

end HttpServer.SizeLines
