import HttpServer.Lib.PackedTable
import HttpServer.Parser

set_option autoImplicit false

/-!
# The grammar of parser.rl as a small machine

The compiled machine follows the letters of the three header names and of `chunked` in
parallel; `Phase` forgets how far it got. `phaseStep` is read off the grammar, and
`tables_agree` says that the compiled tables do exactly that, up to the two side actions
`content_length_digit` and `transfer_encoding` that come first in the lists of header values.
-/
namespace HttpServer.ParserGrammar
open ParserTables PackedTable

inductive Phase where
  | error
  | methodFirst | method | targetFirst | target | version (i : ℕ)
  | firstHeader | key | colon | ows | value | valueCr | valueLf | nextHeader | finalCr
  | headersDone
  | nextCr | nextLf | sizeFirst | size | sizeLf | dataFirst | data | zeroCr | zeroLf
  | streamDone
  | bodySizeFirst | bodySize | bodySizeLf | bodyDataFirst | bodyData | bodyZeroCr | bodyZeroLf
  | small | smallRest | large | largeRest
deriving DecidableEq, Repr

def phase (cs : ℕ) : Phase :=
  if cs = 0 then .error
  else if cs = 1 then .methodFirst
  else if cs = 2 then .method
  else if cs = 3 then .targetFirst
  else if cs = 4 then .target
  else if cs ≤ 14 then .version (cs - 5)
  else if cs = 15 then .firstHeader
  else if cs = 17 ∨ cs = 37 ∨ cs = 58 then .colon
  else if cs = 18 ∨ cs = 38 ∨ cs = 59 then .ows
  else if cs = 39 then .valueCr
  else if cs = 19 ∨ cs = 40 ∨ 60 ≤ cs ∧ cs ≤ 65 then .value
  else if cs = 20 then .valueLf
  else if cs = 21 then .nextHeader
  else if cs = 22 then .finalCr
  else if cs ≤ 57 then .key
  else if cs = 66 then .nextCr
  else if cs = 67 then .nextLf
  else if cs = 68 then .sizeFirst
  else if cs = 69 then .size
  else if cs = 70 then .sizeLf
  else if cs = 71 then .dataFirst
  else if cs = 72 then .zeroCr
  else if cs = 73 then .zeroLf
  else if cs = 74 then .bodySizeFirst
  else if cs = 75 then .bodySize
  else if cs = 76 then .bodySizeLf
  else if cs = 77 then .bodyDataFirst
  else if cs = 86 then .bodyZeroCr
  else if cs = 87 then .bodyZeroLf
  else if cs = 88 then .small
  else if cs = 89 then .large
  else if cs = 90 then .headersDone
  else if cs = 91 then .data
  else if cs = 92 ∨ cs = 95 then .streamDone
  else if cs = 96 then .smallRest
  else if cs = 97 then .largeRest
  else .bodyData

def isAlpha (c : ℕ) : Bool := 65 ≤ c && c ≤ 90 || 97 ≤ c && c ≤ 122
def isXDigit (c : ℕ) : Bool := 48 ≤ c && c ≤ 57 || 65 ≤ c && c ≤ 70 || 97 ≤ c && c ≤ 102

/-- `^[()<>@,;:\\"/\[\]?={} \t]` -/
def isTokenChar (c : ℕ) : Bool :=
  !([40, 41, 60, 62, 64, 44, 59, 58, 92, 34, 47, 91, 93, 63, 61, 123, 125, 32, 9].contains c)

/-- `'HTTP/1.' [01] '\r' '\n'` -/
def versionChar (i c : ℕ) : Bool :=
  if i = 7 then c = 48 || c = 49
  else [72, 84, 84, 80, 47, 49, 46, 0, 13, 10].getD i 0 = c

def phaseError : Phase × List Action := (.error, [.error])

def keyStep (c : ℕ) : Phase × List Action :=
  if c = 58 then (.colon, [.emitToken])
  else if isTokenChar c then (.key, [.incCount])
  else phaseError

def phaseStep (ph : Phase) (c : ℕ) : Phase × List Action :=
  match ph with
  | .methodFirst => if isAlpha c then (.method, [.method, .incCount]) else phaseError
  | .method =>
    if c = 32 then (.targetFirst, [.emitToken])
    else if isAlpha c then (.method, [.incCount]) else phaseError
  | .targetFirst => if c = 32 then phaseError else (.target, [.target, .incCount])
  | .target => if c = 32 then (.version 0, [.emitToken]) else (.target, [.incCount])
  | .version i =>
    if versionChar i c then
      (if i = 9 then .firstHeader else .version (i + 1),
        if i = 0 then [.version] else if i = 8 then [.emitToken] else [])
    else phaseError
  | .firstHeader =>
    if isTokenChar c then (.key, [.resetCount, .headerKey, .incCount]) else phaseError
  | .nextHeader =>
    if isTokenChar c then
      (if c = 13 then .finalCr else .key, [.headerKey, .resetCount, .incCount])
    else phaseError
  | .key => keyStep c
  | .headersDone => keyStep c
  | .finalCr => if c = 10 then (.headersDone, [.incCount, .doneHeaders]) else keyStep c
  | .colon => if c = 9 ∨ c = 32 then (.ows, []) else phaseError
  | .ows =>
    if c = 9 ∨ c = 32 then (.ows, [.headerValue, .incCount])
    else if c = 13 then (.valueCr, [.headerValue, .incCount, .emitToken])
    else (.value, [.headerValue, .incCount])
  | .value =>
    if c = 13 then (.valueLf, [.emitToken])
    else if c = 10 then phaseError else (.value, [.incCount])
  | .valueCr =>
    if c = 13 then (.valueLf, [.emitToken])
    else if c = 10 then (.nextHeader, [.incCount]) else (.value, [.incCount])
  | .valueLf => if c = 10 then (.nextHeader, [.incCount]) else phaseError
  | .nextCr => if c = 13 then (.nextLf, []) else phaseError
  | .nextLf => if c = 10 then (.sizeFirst, []) else phaseError
  | .sizeFirst => if c = 48 then (.zeroCr, []) else (.size, [.chunkStart, .chunkSize])
  | .size =>
    if c = 13 then (.sizeLf, [])
    else if isXDigit c then (.size, [.chunkSize]) else phaseError
  | .sizeLf => if c = 10 then (.dataFirst, []) else phaseError
  | .dataFirst => (.data, [.body, .chunkRead])
  | .data => (.data, [.chunkRead])
  | .zeroCr => if c = 13 then (.zeroLf, []) else phaseError
  | .zeroLf => if c = 10 then (.streamDone, [.endStream]) else phaseError
  | .streamDone => phaseError
  | .bodySizeFirst => if c = 48 then (.bodyZeroCr, []) else (.bodySize, [.chunkStart, .chunkSize])
  | .bodySize =>
    if c = 13 then (.bodySizeLf, [])
    else if isXDigit c then (.bodySize, [.chunkSize]) else phaseError
  | .bodySizeLf => if c = 10 then (.bodyDataFirst, []) else phaseError
  | .bodyDataFirst => (.bodyData, [.body, .chunkRead])
  | .bodyZeroCr => if c = 13 then (.bodyZeroLf, []) else phaseError
  | .bodyZeroLf => if c = 10 then (.streamDone, [.endStream]) else phaseError
  | .small => (.smallRest, [.body, .smallBodyRead])
  | .smallRest => (.smallRest, [.smallBodyRead])
  | .large => (.largeRest, [.body, .largeBodyRead])
  | .largeRest => (.largeRest, [.largeBodyRead])
  | .bodyData => (.bodyData, [])
  | .error => phaseError

/-- The action lists that `chunk* zero_chunk` runs on a byte of chunk data, where the byte may also
    belong to the next size line. -/
def bodyDataActions : List (List Action) :=
  [[.chunkRead], [.chunkRead, .chunkStart, .chunkSize],
    [.chunkSize, .chunkRead], [.chunkSize, .chunkRead, .chunkStart],
    [.body, .chunkRead, .chunkStart, .chunkSize], [.chunkSize, .body, .chunkRead],
    [.chunkSize, .body, .chunkRead, .chunkStart],
    [.chunkRead, .chunkStart, .chunkSize, .endStream]]

section Evaluation

/-! The lookup code of `ParserTables` on packed tables. -/

def packedKeys : ℕ := pack hshHttpTransKeys
def packedIndicies : ℕ := pack hshHttpIndicies

def fastSingle (keys c fuel : ℕ) : ℕ → ℕ → Option ℕ :=
  Nat.rec (fun _ _ => none) (fun _ ih lower upper =>
    bif Nat.ble upper lower then none
    else
      let mid := Nat.add lower (Nat.div (Nat.sub (Nat.sub upper 1) lower) 2)
      let k := unpack packedKeys (Nat.add keys mid)
      bif Nat.blt c k then ih lower mid
      else bif Nat.blt k c then ih (Nat.add mid 1) upper
      else some mid) fuel

def fastRange (keys c fuel : ℕ) : ℕ → ℕ → Option ℕ :=
  Nat.rec (fun _ _ => none) (fun _ ih lower upper =>
    bif Nat.ble upper lower then none
    else
      let mid := Nat.add lower (Nat.div (Nat.sub (Nat.sub upper 1) lower) 2)
      bif Nat.blt c (unpack packedKeys (Nat.add keys (Nat.mul 2 mid))) then ih lower mid
      else bif Nat.blt (unpack packedKeys (Nat.add (Nat.add keys (Nat.mul 2 mid)) 1)) c then
        ih (Nat.add mid 1) upper
      else some mid) fuel

def fastTransition (keys trans singles ranges c : ℕ) : ℕ :=
  match fastSingle keys c singles 0 singles with
  | some i => unpack packedIndicies (Nat.add trans i)
  | none =>
    match fastRange (Nat.add keys singles) c ranges 0 ranges with
    | some i => unpack packedIndicies (Nat.add (Nat.add trans singles) i)
    | none => unpack packedIndicies (Nat.add (Nat.add trans singles) ranges)

def fastLookup (cs c : ℕ) : ℕ :=
  fastTransition (unpack (pack hshHttpKeyOffsets) cs) (unpack (pack hshHttpIndexOffsets) cs)
    (unpack (pack hshHttpSingleLengths) cs) (unpack (pack hshHttpRangeLengths) cs) c

private theorem tables_small : (∀ a ∈ hshHttpTransKeys, a < 2 ^ 16) ∧ (∀ a ∈ hshHttpIndicies, a < 2 ^ 16) ∧
    (∀ a ∈ hshHttpKeyOffsets, a < 2 ^ 16) ∧ (∀ a ∈ hshHttpIndexOffsets, a < 2 ^ 16) ∧
    (∀ a ∈ hshHttpSingleLengths, a < 2 ^ 16) ∧ (∀ a ∈ hshHttpRangeLengths, a < 2 ^ 16) ∧
    (∀ a ∈ hshHttpTransTargs, a < 2 ^ 16) ∧ (∀ a ∈ hshHttpTransActions, a < 2 ^ 16) := by
  decide +kernel

private theorem keys_small : ∀ a ∈ hshHttpTransKeys, a < 2 ^ 16 := tables_small.1
private theorem indicies_small : ∀ a ∈ hshHttpIndicies, a < 2 ^ 16 := tables_small.2.1

theorem fastSingle_eq (keys c fuel lower upper : ℕ) :
    fastSingle keys c fuel lower upper = matchSingle keys c fuel lower upper := by
  induction fuel generalizing lower upper with
  | zero => rfl
  | succ fuel ih =>
    rw [matchSingle]
    change (bif Nat.ble upper lower then none else
      bif Nat.blt c (unpack packedKeys (keys + (lower + (upper - 1 - lower) / 2))) then
        fastSingle keys c fuel lower (lower + (upper - 1 - lower) / 2)
      else bif Nat.blt (unpack packedKeys (keys + (lower + (upper - 1 - lower) / 2))) c then
        fastSingle keys c fuel (lower + (upper - 1 - lower) / 2 + 1) upper
      else some (lower + (upper - 1 - lower) / 2)) = _
    rw [packedKeys, unpack_pack _ keys_small, ih, ih]
    simp [cond_eq_ite, entry, Nat.blt_eq]

theorem fastRange_eq (keys c fuel lower upper : ℕ) :
    fastRange keys c fuel lower upper = matchRange keys c fuel lower upper := by
  induction fuel generalizing lower upper with
  | zero => rfl
  | succ fuel ih =>
    rw [matchRange]
    change (bif Nat.ble upper lower then none else
      bif Nat.blt c (unpack packedKeys (keys + 2 * (lower + (upper - 1 - lower) / 2))) then
        fastRange keys c fuel lower (lower + (upper - 1 - lower) / 2)
      else bif Nat.blt (unpack packedKeys (keys + 2 * (lower + (upper - 1 - lower) / 2) + 1)) c then
        fastRange keys c fuel (lower + (upper - 1 - lower) / 2 + 1) upper
      else some (lower + (upper - 1 - lower) / 2)) = _
    rw [packedKeys, unpack_pack _ keys_small, unpack_pack _ keys_small, ih, ih]
    simp [cond_eq_ite, entry, Nat.blt_eq]

theorem fastLookup_eq (cs c : ℕ) : fastLookup cs c = transition cs c := by
  rw [fastLookup, transition]
  obtain ⟨-, -, offsets, index, singles, ranges, -⟩ := tables_small
  rw [unpack_pack _ offsets, unpack_pack _ index, unpack_pack _ singles, unpack_pack _ ranges]
  rw [fastTransition]
  simp only [fastSingle_eq, fastRange_eq, packedIndicies, unpack_pack _ indicies_small]
  rfl

/-- The states of each phase, so that `phaseStep` is evaluated once for a phase and a byte. -/
def phaseStates : List (Phase × List ℕ) :=
  [(.methodFirst, [1]), (.method, [2]), (.targetFirst, [3]), (.target, [4]),
    (.version 0, [5]), (.version 1, [6]), (.version 2, [7]), (.version 3, [8]), (.version 4, [9]),
    (.version 5, [10]), (.version 6, [11]), (.version 7, [12]), (.version 8, [13]),
    (.version 9, [14]), (.firstHeader, [15]),
    (.key, [16] ++ List.range' 23 14 ++ List.range' 41 17), (.colon, [17, 37, 58]),
    (.ows, [18, 38, 59]), (.value, [19, 40] ++ List.range' 60 6), (.valueLf, [20]),
    (.nextHeader, [21]), (.finalCr, [22]), (.valueCr, [39]), (.nextCr, [66]), (.nextLf, [67]),
    (.sizeFirst, [68]), (.size, [69]), (.sizeLf, [70]), (.dataFirst, [71]), (.zeroCr, [72]),
    (.zeroLf, [73]), (.bodySizeFirst, [74]), (.bodySize, [75]), (.bodySizeLf, [76]),
    (.bodyDataFirst, [77]), (.bodyZeroCr, [86]), (.bodyZeroLf, [87]), (.small, [88]),
    (.large, [89]), (.headersDone, [90]), (.data, [91]), (.streamDone, [92, 95]),
    (.smallRest, [96]), (.largeRest, [97])]

def bodyDataStates : List ℕ := [78, 79, 80, 81, 82, 83, 84, 85, 93, 94]

def transPhase (t : ℕ) : Phase := phase (unpack (pack hshHttpTransTargs) t)
def transActs (t : ℕ) : List Action := actionsAt (unpack (pack hshHttpTransActions) t)

def agrees (ph : Phase) (c t : ℕ) : Bool :=
  decide (transPhase t = (phaseStep ph c).1) &&
    (decide (transActs t = (phaseStep ph c).2) ||
      decide (ph = .ows ∨ ph = .value) &&
        (decide (transActs t = .contentLengthDigit :: (phaseStep ph c).2) ||
          decide (transActs t = .transferEncoding :: (phaseStep ph c).2)))

def agreesBodyData (t : ℕ) : Bool :=
  decide (transPhase t = .bodyData) && decide (transActs t ∈ bodyDataActions)

private theorem agreesBodyData_all : bodyDataStates.all (fun cs =>
    allBelow (fun c => force agreesBodyData (fastLookup cs c)) 256) = true := by
  decide +kernel

private theorem states_covered : ∀ cs < 98, cs ≠ 0 →
    (∃ g ∈ phaseStates, g.1 = phase cs ∧ cs ∈ g.2) ∨ phase cs = .bodyData ∧ cs ∈ bodyDataStates := by
  decide +kernel

private theorem no_group : ∀ g ∈ phaseStates, g.1 ≠ .bodyData := by decide

private theorem transTargs_small : ∀ a ∈ hshHttpTransTargs, a < 98 := by decide +kernel

theorem transPhase_eq (cs c : ℕ) : transPhase (transition cs c) = phase (transTarg cs c) := by
  rw [transPhase, unpack_pack _ tables_small.2.2.2.2.2.2.1, transTarg, entry]

theorem transActs_eq (cs c : ℕ) : transActs (transition cs c) = transActions cs c := by
  rw [transActs, unpack_pack _ tables_small.2.2.2.2.2.2.2, transActions, entry]

/-- In parts, so that the kernel need not keep all of it at once. -/
private theorem agrees_all : phaseStates.all (fun g => g.2.all fun cs =>
    allBelow (fun c => force (agrees g.1 c) (fastLookup cs c)) 256) = true := by
  have first : (phaseStates.take 15).all (fun g => g.2.all fun cs =>
      allBelow (fun c => force (agrees g.1 c) (fastLookup cs c)) 256) = true := by
    decide +kernel
  have keys : ([16] ++ List.range' 23 14).all (fun cs =>
      allBelow (fun c => force (agrees .key c) (fastLookup cs c)) 256) = true := by
    decide +kernel
  have moreKeys : (List.range' 41 17).all (fun cs =>
      allBelow (fun c => force (agrees .key c) (fastLookup cs c)) 256) = true := by
    decide +kernel
  have values : ((phaseStates.drop 16).take 9).all (fun g => g.2.all fun cs =>
      allBelow (fun c => force (agrees g.1 c) (fastLookup cs c)) 256) = true := by
    decide +kernel
  have bodies : ((phaseStates.drop 16).drop 9).all (fun g => g.2.all fun cs =>
      allBelow (fun c => force (agrees g.1 c) (fastLookup cs c)) 256) = true := by
    decide +kernel
  have rest := List.take_append_drop 9 (phaseStates.drop 16)
  have split : phaseStates = phaseStates.take 15 ++
      (.key, [16] ++ List.range' 23 14 ++ List.range' 41 17) :: phaseStates.drop 16 := rfl
  rw [split, List.all_append, first, List.all_cons, List.all_append, keys, moreKeys, ← rest, List.all_append, values, bodies]
  rfl

end Evaluation

theorem transTarg_lt (cs c : ℕ) : transTarg cs c < 98 := by
  rw [transTarg, entry, List.getD_eq_getElem?_getD]
  cases h : hshHttpTransTargs[transition cs c]? with
  | none => simp
  | some a => exact transTargs_small a (List.mem_of_getElem? h)

/-- The compiled machine is the grammar machine, state by state and byte by byte. -/
theorem tables_agree {cs c : ℕ} (hcs : cs < 98) (hc : c < 256) (h0 : cs ≠ 0)
    (hb : phase cs ≠ .bodyData) :
    phase (transTarg cs c) = (phaseStep (phase cs) c).1 ∧
      ∃ pre, (pre = [] ∨ (phase cs = .ows ∨ phase cs = .value) ∧
          (pre = [.contentLengthDigit] ∨ pre = [.transferEncoding])) ∧
        transActions cs c = pre ++ (phaseStep (phase cs) c).2 := by
  rcases states_covered cs hcs h0 with ⟨g, hg, hph, hin⟩ | ⟨h, _⟩
  · have hall := List.all_eq_true.1 (List.all_eq_true.1 agrees_all g hg) cs hin
    have ht := allBelow_spec hall c hc
    rw [force_eq, fastLookup_eq, hph] at ht
    simp only [agrees, transPhase_eq, transActs_eq, Bool.and_eq_true, Bool.or_eq_true,
      decide_eq_true_eq] at ht
    refine ⟨ht.1, ?_⟩
    rcases ht.2 with h | ⟨hv, h | h⟩
    · exact ⟨[], .inl rfl, by simpa using h⟩
    · exact ⟨[.contentLengthDigit], .inr ⟨hv, .inl rfl⟩, by simpa using h⟩
    · exact ⟨[.transferEncoding], .inr ⟨hv, .inr rfl⟩, by simpa using h⟩
  · exact absurd h hb

/-- Outside the header values there are no side actions. -/
theorem tables_agree_exact {cs c : ℕ} (hcs : cs < 98) (hc : c < 256) (h0 : cs ≠ 0)
    (hb : phase cs ≠ .bodyData) (hv : phase cs ≠ .ows ∧ phase cs ≠ .value) :
    transActions cs c = (phaseStep (phase cs) c).2 := by
  obtain ⟨-, pre, rfl | ⟨hv', -⟩, h⟩ := tables_agree hcs hc h0 hb
  · exact h
  · exact absurd hv' (by simp [hv])

/-- Inside the data of a chunk of `chunked_body` the machine stays there until an action leaves. -/
theorem bodyData_agree {cs c : ℕ} (hcs : cs < 98) (hc : c < 256) (hb : phase cs = .bodyData) :
    phase (transTarg cs c) = .bodyData ∧ transActions cs c ∈ bodyDataActions := by
  have h0 : cs ≠ 0 := by
    rintro rfl
    cases hb
  have hin : cs ∈ bodyDataStates := by
    rcases states_covered cs hcs h0 with ⟨g, hg, hph, _⟩ | ⟨_, h⟩
    · exact absurd (hph.trans hb) (no_group g hg)
    · exact h
  have ht := allBelow_spec (List.all_eq_true.1 agreesBodyData_all cs hin) c hc
  rw [force_eq, fastLookup_eq] at ht
  simpa [agreesBodyData, transPhase_eq, transActs_eq] using ht

end HttpServer.ParserGrammar
