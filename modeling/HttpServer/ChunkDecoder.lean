import HttpServer.HeadMachine

set_option autoImplicit false

/-!
# The phases of a size line

A size line stands at the start of a chunked body and behind each chunk. Its bytes only move the cursor
and count.
-/
namespace HttpServer.ChunkDecoder
open Scanner ParserTables ParserGrammar HttpServer.Parser

/-- The state with the cursor, the machine state and the size that a size line changes. -/
def moved (s : Exec) (p : ℤ) (cs : ℕ) (n : ℤ) : Exec :=
  { s with p := p, cs := cs, parser := { s.parser with contentLength := n } }

/-- The phases of a size line, in `chunked_body` and after a chunk. -/
structure SizeLine where
  first : Phase
  size : Phase
  lf : Phase
  data : Phase
  zeroCr : Phase
  zeroLf : Phase

def bodyLine : SizeLine := ⟨.bodySizeFirst, .bodySize, .bodySizeLf, .bodyDataFirst, .bodyZeroCr, .bodyZeroLf⟩
def endLine : SizeLine := ⟨.sizeFirst, .size, .sizeLf, .dataFirst, .zeroCr, .zeroLf⟩

section Bytes

variable {max : ℤ} {blk : NewBlock} {s : Exec} {c : UInt8} {rest : List UInt8} {ph : Phase} {p n : ℤ} {cs : ℕ}

/-- Outside the header values and the data a byte does what the grammar says. -/
def plainPhase (ph : Phase) : Prop := ph ≠ .error ∧ ph ≠ .bodyData ∧ ph ≠ .ows ∧ ph ≠ .value

theorem step_grammar {as : List Action} (lt : s.cs < 98) (plain : plainPhase (phase s.cs))
    (h : phaseStep (phase s.cs) c.toNat = (ph, as)) :
    ∃ cs, cs < 98 ∧ phase cs = ph ∧ (machine max blk).trans c s = ({ s with cs := cs }, as) := by
  have hc : c.toNat < 256 := c.toNat_lt
  have alive : s.cs ≠ 0 := by
    intro h0
    rw [h0] at plain
    exact plain.1 rfl
  have agree := (tables_agree lt hc alive plain.2.1).1
  have acts := tables_agree_exact lt hc alive plain.2.1 plain.2.2
  rw [h] at agree acts
  exact ⟨transTarg s.cs c.toNat, transTarg_lt _ _, agree, Prod.ext rfl acts⟩

theorem scan_counts {as : List Action} {n' : ℤ} (lt : cs < 98) (plain : plainPhase (phase cs))
    (h : phaseStep (phase cs) c.toNat = (ph, as)) (alive : ph ≠ .error) (running : p ≠ s.pe)
    (acts : ∀ cs, (machine max blk).runActs c as (moved s p cs n) = .fall (moved s p cs n')) :
    ∃ cs', cs' < 98 ∧ phase cs' = ph ∧
      (machine max blk).scan (c :: rest) (moved s p cs n) = (machine max blk).scan rest (moved s (p + 1) cs' n') := by
  obtain ⟨cs', lt', hph, trans⟩ := @step_grammar max blk (moved s p cs n) c ph as lt plain h
  refine ⟨cs', lt', hph, ?_⟩
  have go : (machine max blk).stop (moved s p cs n) = false := beq_false_of_ne running
  have nonerror : cs' ≠ hshHttpError := by
    rintro rfl
    exact alive hph.symm
  rw [Machine.scan_cons_fall _ go]
  rw [Machine.step_fall (t := moved s p cs' n')]
  · exact if_neg nonerror
  · rw [trans]
    exact acts cs'

theorem scan_quiet (lt : cs < 98) (plain : plainPhase (phase cs)) (h : phaseStep (phase cs) c.toNat = (ph, []))
    (alive : ph ≠ .error) (running : p ≠ s.pe) : ∃ cs', cs' < 98 ∧ phase cs' = ph ∧
      (machine max blk).scan (c :: rest) (moved s p cs n) = (machine max blk).scan rest (moved s (p + 1) cs' n) :=
  scan_counts lt plain h alive running fun _ => rfl

end Bytes

section Lines

variable {L : SizeLine}

/-- One of the two size lines of the grammar. -/
def Known (L : SizeLine) : Prop := L = bodyLine ∨ L = endLine

theorem Known.plain (known : Known L) : plainPhase L.first ∧ plainPhase L.size ∧ plainPhase L.lf ∧
    plainPhase L.data ∧ plainPhase L.zeroCr ∧ plainPhase L.zeroLf := by
  rcases known with rfl | rfl <;> simp [plainPhase, bodyLine, endLine]

theorem Known.data (known : Known L) (c : ℕ) : ∃ ph, ph ≠ .error ∧ phaseStep L.data c = (ph, [.body, .chunkRead]) := by
  rcases known with rfl | rfl
  · exact ⟨.bodyData, by decide, rfl⟩
  · exact ⟨.data, by decide, rfl⟩

end Lines

end HttpServer.ChunkDecoder
