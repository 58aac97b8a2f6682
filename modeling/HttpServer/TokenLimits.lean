import HttpServer.HeadReads
import HttpServer.ParserCalls

set_option autoImplicit false

/-!
# The limits of the tokens

`limit_count` counts the bytes of the current token. An overflow leaves the scan loop and nothing else:
the next call goes on in the same token.
-/
namespace HttpServer.TokenLimits
open MachineInt Scanner ParserTables ParserGrammar HttpServer.Parser ReadBuffer ParserInvariant ParserRuns HeadMachine
  BodyPhases ParserCalls HeadGrammar HeadReads

/-- A token is not longer than the limit of its type. -/
def WithinLimits (token : HshTokenS) : Prop :=
  (token.type = .method → token.len ≤ 32) ∧ (token.type = .target → token.len ≤ 1024) ∧
    (token.type = .headerKey → token.len ≤ 256) ∧ (token.type = .headerValue → token.len ≤ 4096)

/-- The call does not go on in a token that is beyond its limit. -/
def StartsWithin (parser : HshParserS) (_ : HshBufferS) (_ : NewBlock) : Prop :=
  parser.limitCount ≤ parser.limitMax

instance (parser : HshParserS) (buffer : HshBufferS) (blk : NewBlock) : Decidable (StartsWithin parser buffer blk) :=
  inferInstanceAs (Decidable (_ ≤ _))

/-- The bytes of a token up to the cursor are counted. -/
def Counting (type : HshTokenE) (limit : ℤ) (parser : HshParserS) (cursor : ℤ) : Prop :=
  parser.token.type = type ∧ parser.limitMax = limit ∧ cursor - parser.token.index = parser.limitCount

/-- What is counted in a phase. After a head without a body the machine goes on as in a header name. -/
def Counts (ph : Phase) (parser : HshParserS) (cursor : ℤ) : Prop :=
  match ph with
  | .method => Counting .method 32 parser cursor
  | .target => Counting .target 1024 parser cursor
  | .version i => i ≠ 0 → parser.token.type = .version
  | .key | .finalCr => parser.token.type = .headersDone ∨ Counting .headerKey 256 parser cursor
  | .value | .valueCr => Counting .headerValue 4096 parser cursor
  | .headersDone => parser.token.type = .headersDone
  | _ => True

structure Counted (s : Exec) : Prop where
  nonneg : 0 ≤ s.parser.limitCount
  within : s.parser.limitCount ≤ s.parser.limitMax
  max_le : s.parser.limitMax ≤ 4096
  counts : Counts (phase s.cs) s.parser (cursor s)

structure CountedOut (s : Exec) : Prop where
  nonneg : 0 ≤ s.parser.limitCount
  le : s.parser.limitCount ≤ s.parser.limitMax + 1
  max_le : s.parser.limitMax ≤ 4096
  counts : s.parser.limitCount ≤ s.parser.limitMax → Counts (phase s.cs) s.parser (cursor s)
  token : httpFlagCheck s.parser.flags flagTokenReady = true → WithinLimits s.parser.token

section Steps

variable {max : ℤ} {blk : NewBlock} {s t : Exec} {c : UInt8} {ph : Phase}

theorem withinLimits_other {token : HshTokenS} (h : token.type = .body ∨ token.type = .version ∨ token.type = .headersDone) :
    WithinLimits token := by
  unfold WithinLimits
  rcases h with h | h | h <;> rw [h] <;> simp

theorem Counted.out (h : Counted s) (quiet : httpFlagCheck s.parser.flags flagTokenReady = false) : CountedOut s :=
  ⟨h.nonneg, le_trans h.within (by omega), h.max_le, fun _ => h.counts,
    fun ready => absurd (quiet.symm.trans ready) (by decide)⟩

theorem counts_free {parser : HshParserS} {cursor : ℤ} (head : inHead ph = false) : Counts ph parser cursor := by
  cases ph <;> trivial

/-- A byte of a head, with the actions that come before the ones of the grammar. -/
structure HeadByte (s : Exec) (cs : ℕ) (t : Exec) : Prop where
  p_eq : t.p = s.p
  buffer_eq : t.buffer = s.buffer
  cs_eq : t.cs = cs
  token_eq : t.parser.token = s.parser.token
  count_eq : t.parser.limitCount = s.parser.limitCount
  max_eq : t.parser.limitMax = s.parser.limitMax
  tokenReady : httpFlagCheck t.parser.flags flagTokenReady = false

/-- What a byte of a head leaves that goes on, before the cursor moves. -/
def GoesOn (s : Exec) (cs : ℕ) (t : Exec) : Prop :=
  t.p = s.p ∧ t.buffer = s.buffer ∧ t.cs = cs ∧ httpFlagCheck t.parser.flags flagTokenReady = false ∧
    0 ≤ t.parser.limitCount ∧ t.parser.limitCount ≤ t.parser.limitMax ∧ t.parser.limitMax ≤ 4096 ∧
    Counts (phase cs) t.parser (cursor s + 1)

structure CountedByte (s : Exec) (cs : ℕ) (t : Exec) : Prop where
  p_eq : t.p = s.p
  buffer_eq : t.buffer = s.buffer
  cs_eq : t.cs = cs
  token_eq : t.parser.token = s.parser.token
  count_eq : t.parser.limitCount = s.parser.limitCount + 1
  max_eq : t.parser.limitMax = s.parser.limitMax
  within : t.parser.limitCount ≤ t.parser.limitMax
  tokenReady : httpFlagCheck t.parser.flags flagTokenReady = false

theorem incCount_counted {cs : ℕ} (hc : Counted s) (ht : HeadByte s cs t) :
    (incCount t).Sat True (CountedByte s cs) CountedOut := by
  obtain ⟨nonneg, within, max_le, -⟩ := hc
  have count : wrap16 (t.parser.limitCount + 1) = s.parser.limitCount + 1 := by
    rw [ht.count_eq]
    exact wrap16_eq (by omega) (by omega)
  unfold incCount
  dsimp only
  rw [count, ht.max_eq]
  split
  · rename_i beyond
    refine ⟨?_, ?_, max_le, fun le => ?_, fun ready => absurd (ht.tokenReady.symm.trans ready) (by decide)⟩
    · change 0 ≤ s.parser.limitCount + 1
      omega
    · change s.parser.limitCount + 1 ≤ s.parser.limitMax + 1
      omega
    · change s.parser.limitCount + 1 ≤ s.parser.limitMax at le
      omega
  · rename_i fits
    exact ⟨ht.p_eq, ht.buffer_eq, ht.cs_eq, ht.token_eq, rfl, rfl, not_lt.1 fits, ht.tokenReady⟩

theorem doneHeaders_counted {cs : ℕ} (hc : Counted s) (ht : CountedByte s cs t) (done : phase cs = .headersDone) :
    (doneHeaders max blk t).Sat True (GoesOn s cs) CountedOut := by
  have nonneg : 0 ≤ t.parser.limitCount := by
    have := hc.nonneg
    rw [ht.count_eq]
    omega
  have max_le : t.parser.limitMax ≤ 4096 := ht.max_eq.trans_le hc.max_le
  have le : t.parser.limitCount ≤ t.parser.limitMax + 1 := le_trans ht.within (by omega)
  have typed : ∀ flags : BitVec 8, WithinLimits { type := .headersDone, flags := flags } :=
    fun flags => withinLimits_other (.inr (.inr rfl))
  unfold doneHeaders
  dsimp only
  split
  · exact ⟨nonneg, le, max_le, fun _ => @counts_free (phase hshHttpEnChunkedBody) _ _ (by decide), fun _ => typed _⟩
  split
  · refine ⟨nonneg, le, max_le, fun _ => ?_, fun _ => typed _⟩
    change Counts (phase t.cs) _ _
    rw [ht.cs_eq, done]
    rfl
  split
  · exact ⟨nonneg, le, max_le, fun _ => @counts_free (phase hshHttpEnLargeBody) _ _ (by decide), fun _ => typed _⟩
  · exact ⟨nonneg, le, max_le, fun _ => @counts_free (phase hshHttpEnSmallBody) _ _ (by decide), fun _ => typed _⟩

theorem emitToken_counted {cs : ℕ} (hc : Counted s) (ht : HeadByte s cs t)
    (free : ∀ parser cursor, parser.token.type = s.parser.token.type → Counts (phase cs) parser cursor)
    (token : WithinLimits { s.parser.token with len := wrap32 (cursor s - s.parser.token.index) }) :
    (emitToken t).Sat True (GoesOn s cs) CountedOut := by
  obtain ⟨nonneg, within, max_le, -⟩ := hc
  have len : t.p - (t.buffer.buf + t.parser.token.index) = cursor s - s.parser.token.index := by
    rw [ht.p_eq, ht.buffer_eq, ht.token_eq]
    unfold cursor
    ring
  refine ⟨ht.count_eq.symm ▸ nonneg, ?_, ht.max_eq.symm ▸ max_le, fun _ => ?_, fun _ => ?_⟩
  · change t.parser.limitCount ≤ t.parser.limitMax + 1
    rw [ht.count_eq, ht.max_eq]
    omega
  · change Counts (phase t.cs) _ _
    rw [ht.cs_eq]
    exact free _ _ (by rw [← ht.token_eq]; rfl)
  · change WithinLimits { t.parser.token with len := wrap32 (t.p - (t.buffer.buf + t.parser.token.index)) }
    rw [len, ht.token_eq]
    exact token

/-- A token begins at the byte under the cursor. -/
def began (type : HshTokenE) (limit : ℤ) (t : Exec) : Exec :=
  let s := hshEnterToken type limit t
  { s with parser := { s.parser with limitCount := 1 } }

theorem incCount_first (s : Exec) (fresh : s.parser.limitCount = 0) (pos : 1 ≤ s.parser.limitMax) :
    incCount s = .fall { s with parser := { s.parser with limitCount := 1 } } := by
  have one : wrap16 (s.parser.limitCount + 1) = 1 := by
    rw [fresh]
    rfl
  unfold incCount
  dsimp only
  rw [one, if_neg (by omega)]

theorem began_goesOn {cs : ℕ} {type : HshTokenE} {limit : ℤ} (h : CallInv s) (ht : HeadByte s cs t)
    (inside : 0 ≤ cursor s ∧ cursor s < s.buffer.length) (limits : 1 ≤ limit ∧ limit ≤ 4096)
    (next : ∀ parser, Counting type limit parser (cursor s + 1) → Counts (phase cs) parser (cursor s + 1)) :
    GoesOn s cs (began type limit t) := by
  have lt := h.length_lt
  have index : wrap32 (t.p - t.buffer.buf) = cursor s := by
    rw [ht.p_eq, ht.buffer_eq]
    exact wrap32_eq (by unfold cursor at inside; omega) (by unfold cursor at inside; omega)
  refine ⟨ht.p_eq, ht.buffer_eq, ht.cs_eq, ht.tokenReady, by norm_num [began], limits.1, limits.2, next _ ⟨rfl, rfl, ?_⟩⟩
  change cursor s + 1 - wrap32 (t.p - t.buffer.buf) = 1
  rw [index]
  ring

theorem runActs_began {a : Action} {type : HshTokenE} {limit : ℤ} (as : List Action) (t : Exec)
    (first : runAction max blk c a t = .fall (hshEnterToken type limit t)) (pos : 1 ≤ limit) :
    (machine max blk).runActs c (a :: .incCount :: as) t = (machine max blk).runActs c as (began type limit t) := by
  rw [Machine.runActs_fall (machine max blk) (t := hshEnterToken type limit t) first,
    Machine.runActs_fall (machine max blk) (t := began type limit t)]
  exact incCount_first _ rfl pos

theorem Counted.ends {type : HshTokenE} {limit : ℤ} (hc : Counted s) (h : Counting type limit s.parser (cursor s))
    (le : limit ≤ 4096) : s.parser.token.type = type ∧ wrap32 (cursor s - s.parser.token.index) ≤ limit := by
  obtain ⟨typed, max_eq, len⟩ := h
  have nonneg := hc.nonneg
  have within := hc.within
  refine ⟨typed, ?_⟩
  rw [len, wrap32_eq (by omega) (by omega)]
  omega

theorem Counting.grows {type : HshTokenE} {limit : ℤ} {parser : HshParserS} (h : Counting type limit s.parser (cursor s))
    (token : parser.token = s.parser.token) (max_eq : parser.limitMax = s.parser.limitMax)
    (more : parser.limitCount = s.parser.limitCount + 1) : Counting type limit parser (cursor s + 1) := by
  obtain ⟨typed, limit_eq, len⟩ := h
  exact ⟨by rw [token]; exact typed, by rw [max_eq]; exact limit_eq, by rw [token, more]; omega⟩

section Kinds

/-! What the actions of a byte of a head can be. -/

variable {cs : ℕ}

theorem counted_count (hc : Counted s) (ht : HeadByte s cs t)
    (next : ∀ parser : HshParserS, parser.token = s.parser.token → parser.limitMax = s.parser.limitMax →
      parser.limitCount = s.parser.limitCount + 1 → Counts (phase cs) parser (cursor s + 1)) :
    ((machine max blk).runActs c [.incCount] t).Sat True (GoesOn s cs) CountedOut := by
  have sat := incCount_counted hc ht
  refine Machine.runActs_cons_sat (C := fun _ _ _ => True) (P := CountedByte s cs) _ (fun _ => sat) (fun u hu _ => ?_)
    (Machine.actsOk_true _ _ _ _)
  have nonneg := hc.nonneg
  have more := hu.count_eq
  exact ⟨hu.p_eq, hu.buffer_eq, hu.cs_eq, hu.tokenReady, by omega, hu.within, hu.max_eq.trans_le hc.max_le,
    next _ hu.token_eq hu.max_eq more⟩

theorem counted_error (hc : Counted s) (ht : HeadByte s cs t) (herr : phase cs = .error) :
    ((machine max blk).runActs c [.error] t).Sat True (GoesOn s cs) CountedOut := by
  have within := hc.within
  refine ⟨ht.count_eq.symm ▸ hc.nonneg, ?_, ht.max_eq.symm ▸ hc.max_le, fun _ => ?_,
    fun ready => absurd (ht.tokenReady.symm.trans ready) (by decide)⟩
  · change t.parser.limitCount ≤ t.parser.limitMax + 1
    rw [ht.count_eq, ht.max_eq]
    omega
  · change Counts (phase t.cs) _ _
    rw [ht.cs_eq, herr]
    trivial

theorem counted_emit (hc : Counted s) (ht : HeadByte s cs t)
    (free : ∀ parser cursor, parser.token.type = s.parser.token.type → Counts (phase cs) parser cursor)
    (token : WithinLimits { s.parser.token with len := wrap32 (cursor s - s.parser.token.index) }) :
    ((machine max blk).runActs c [.emitToken] t).Sat True (GoesOn s cs) CountedOut := by
  have sat := emitToken_counted hc ht free token
  exact Machine.runActs_cons_sat (C := fun _ _ _ => True) (P := GoesOn s cs) _ (fun _ => sat) (fun _ hu _ => hu)
    (Machine.actsOk_true _ _ _ _)

theorem counted_begins {as : List Action} {type : HshTokenE} {limit : ℤ} (h : CallInv s) (ht : HeadByte s cs t)
    (inside : 0 ≤ cursor s ∧ cursor s < s.buffer.length)
    (run : (machine max blk).runActs c as t = .fall (began type limit t)) (limits : 1 ≤ limit ∧ limit ≤ 4096)
    (next : ∀ parser, Counting type limit parser (cursor s + 1) → Counts (phase cs) parser (cursor s + 1)) :
    ((machine max blk).runActs c as t).Sat True (GoesOn s cs) CountedOut := by
  rw [run]
  exact began_goesOn h ht inside limits next

theorem counted_passes (hc : Counted s) (ht : HeadByte s cs t) (next : Counts (phase cs) t.parser (cursor s + 1)) :
    ((machine max blk).runActs c [] t).Sat True (GoesOn s cs) CountedOut :=
  ⟨ht.p_eq, ht.buffer_eq, ht.cs_eq, ht.tokenReady, ht.count_eq.symm ▸ hc.nonneg,
    by rw [ht.count_eq, ht.max_eq]; exact hc.within, ht.max_eq.symm ▸ hc.max_le, next⟩

theorem counted_emptyValue (h : CallInv s) (ht : HeadByte s cs t)
    (inside : 0 ≤ cursor s ∧ cursor s < s.buffer.length) (hcs : phase cs = .valueCr) :
    ((machine max blk).runActs c [.emitToken] (began .headerValue 4096 t)).Sat True (GoesOn s cs) CountedOut := by
  have goes : GoesOn s cs (began .headerValue 4096 t) := began_goesOn h ht inside (by norm_num) fun parser hp => by
    rw [hcs]
    exact hp
  obtain ⟨hp, hb, hu, -, lo, hi, le, counts⟩ := goes
  rw [hcs] at counts
  obtain ⟨typed, limit_eq, len⟩ := counts
  have next : cursor { began .headerValue 4096 t with p := (began .headerValue 4096 t).p + 1 } = cursor s + 1 := by
    unfold cursor
    rw [hp, hb]
    ring
  refine ⟨lo, Int.le_add_one hi, le, fun _ => ?_, fun _ => ?_⟩
  · change Counts (phase (began .headerValue 4096 t).cs) _ (cursor { began .headerValue 4096 t with
      p := (began .headerValue 4096 t).p + 1 })
    rw [hu, hcs, next]
    exact ⟨typed, limit_eq, len⟩
  · have index := len
    change cursor s + 1 - (began .headerValue 4096 t).parser.token.index = 1 at index
    have empty : wrap32 ((began .headerValue 4096 t).p - ((began .headerValue 4096 t).buffer.buf +
        (began .headerValue 4096 t).parser.token.index)) = 0 := by
      rw [hp, hb, show s.p - (s.buffer.buf + (began .headerValue 4096 t).parser.token.index) = 0 by
        unfold cursor at index
        omega]
      rfl
    change WithinLimits { (began .headerValue 4096 t).parser.token with len := wrap32 _ }
    rw [empty]
    simp [WithinLimits, typed]

theorem counted_key {ph' : Phase} {as : List Action} (hc : Counted s) (ht : HeadByte s cs t) (hcs : phase cs = ph')
    (hps : keyStep c.toNat = (ph', as)) (counts : s.parser.token.type = .headersDone ∨
      Counting .headerKey 256 s.parser (cursor s)) :
    ((machine max blk).runActs c as t).Sat True (GoesOn s cs) CountedOut := by
  simp only [keyStep] at hps
  split at hps
  · cases hps
    refine counted_emit hc ht (fun _ _ _ => by rw [hcs]; trivial) ?_
    rcases counts with typed | counts
    · exact withinLimits_other (.inr (.inr typed))
    · obtain ⟨typed, len⟩ := hc.ends counts (by norm_num)
      simp [WithinLimits, typed, len]
  split at hps <;> cases hps
  · refine counted_count hc ht fun parser token max_eq more => ?_
    rw [hcs]
    exact counts.imp (fun typed => by rw [token]; exact typed) fun counts => counts.grows token max_eq more
  · exact counted_error hc ht hcs

end Kinds

section Lines

/-! The phases of the three parts of a head. -/

variable {cs : ℕ}

def inRequestLine : Phase → Bool
  | .methodFirst | .method | .targetFirst | .target | .version _ => true
  | _ => false

def inName : Phase → Bool
  | .firstHeader | .nextHeader | .key | .finalCr | .headersDone => true
  | _ => false

def inValue : Phase → Bool
  | .colon | .ows | .value | .valueCr | .valueLf => true
  | _ => false

theorem requestLine_counted (h : CallInv s) (hc : Counted s) (ht : HeadByte s cs t)
    (inside : 0 ≤ cursor s ∧ cursor s < s.buffer.length) (line : inRequestLine ph = true)
    (counts : Counts ph s.parser (cursor s)) (hcs : phase cs = (phaseStep ph c.toNat).1) :
    ((machine max blk).runActs c (phaseStep ph c.toNat).2 t).Sat True (GoesOn s cs) CountedOut := by
  rcases hps : phaseStep ph c.toNat with ⟨ph', as⟩
  rw [hps] at hcs
  dsimp only at hcs ⊢
  cases ph with
  | methodFirst =>
    simp only [phaseStep] at hps
    split at hps <;> cases hps
    · exact counted_begins h ht inside (runActs_began [] t rfl (by norm_num)) (by norm_num) fun parser hp => by rw [hcs]; exact hp
    · exact counted_error hc ht hcs
  | method =>
    simp only [phaseStep] at hps
    split at hps
    · cases hps
      obtain ⟨typed, len⟩ := hc.ends counts (by norm_num)
      exact counted_emit hc ht (fun _ _ _ => by rw [hcs]; trivial) (by simp [WithinLimits, typed, len])
    split at hps <;> cases hps
    · exact counted_count hc ht fun parser token max_eq more => by rw [hcs]; exact counts.grows token max_eq more
    · exact counted_error hc ht hcs
  | targetFirst =>
    simp only [phaseStep] at hps
    split at hps <;> cases hps
    · exact counted_error hc ht hcs
    · exact counted_begins h ht inside (runActs_began [] t rfl (by norm_num)) (by norm_num) fun parser hp => by rw [hcs]; exact hp
  | target =>
    simp only [phaseStep] at hps
    split at hps <;> cases hps
    · obtain ⟨typed, len⟩ := hc.ends counts (by norm_num)
      exact counted_emit hc ht (fun _ _ _ => by rw [hcs]; exact fun h => absurd rfl h) (by simp [WithinLimits, typed, len])
    · exact counted_count hc ht fun parser token max_eq more => by rw [hcs]; exact counts.grows token max_eq more
  | version i =>
    simp only [phaseStep] at hps
    split at hps
    · cases hps
      by_cases first : i = 0
      · subst first
        exact ⟨ht.p_eq, ht.buffer_eq, ht.cs_eq, ht.tokenReady, le_refl 0, by norm_num [hshEnterToken],
          by norm_num [hshEnterToken], by rw [hcs]; exact fun _ => rfl⟩
      have typed := counts first
      rw [if_neg first]
      by_cases last : i = 8
      · subst last
        exact counted_emit hc ht (fun parser _ same => by rw [hcs]; exact fun _ => same.trans typed)
          (withinLimits_other (.inr (.inl typed)))
      · rw [if_neg last]
        refine counted_passes hc ht ?_
        rw [hcs]
        split
        · trivial
        · exact fun _ => by rw [ht.token_eq]; exact typed
    · cases hps
      exact counted_error hc ht hcs
  | _ => cases line

theorem name_counted (h : CallInv s) (hc : Counted s) (ht : HeadByte s cs t)
    (inside : 0 ≤ cursor s ∧ cursor s < s.buffer.length) (line : inName ph = true)
    (counts : Counts ph s.parser (cursor s)) (hcs : phase cs = (phaseStep ph c.toNat).1) :
    ((machine max blk).runActs c (phaseStep ph c.toNat).2 t).Sat True (GoesOn s cs) CountedOut := by
  rcases hps : phaseStep ph c.toNat with ⟨ph', as⟩
  rw [hps] at hcs
  dsimp only at hcs ⊢
  cases ph with
  | firstHeader =>
    simp only [phaseStep] at hps
    split at hps <;> cases hps
    · exact counted_begins h ht inside ((Machine.runActs_fall (machine max blk) (t := resetCount t) rfl _).trans
        (runActs_began [] (resetCount t) rfl (by norm_num))) (by norm_num) fun parser hp => by rw [hcs]; exact .inr hp
    · exact counted_error hc ht hcs
  | nextHeader =>
    simp only [phaseStep] at hps
    split at hps
    · cases hps
      refine @counted_begins max blk s t c cs _ .headerKey 256 h ht inside ?_ (by norm_num) fun parser hp => ?_
      · exact incCount_first (resetCount (hshEnterToken .headerKey 256 t)) rfl (by norm_num [resetCount])
      · rw [hcs]
        split <;> exact .inr hp
    · cases hps
      exact counted_error hc ht hcs
  | key => exact counted_key hc ht hcs hps counts
  | finalCr =>
    simp only [phaseStep] at hps
    split at hps
    · cases hps
      have sat := incCount_counted hc ht
      refine Machine.runActs_cons_sat (C := fun _ _ _ => True) (P := CountedByte s cs) _ (fun _ => sat)
        (fun u hu _ => ?_) (Machine.actsOk_true _ _ _ _)
      have done := @doneHeaders_counted max blk _ _ _ hc hu hcs
      exact Machine.runActs_cons_sat (C := fun _ _ _ => True) (P := GoesOn s cs) _ (fun _ => done) (fun _ hv _ => hv)
        (Machine.actsOk_true _ _ _ _)
    · exact counted_key hc ht hcs hps counts
  | headersDone =>
    exact counted_key hc ht hcs hps (.inl counts)
  | _ => cases line

theorem value_counted (h : CallInv s) (hc : Counted s) (ht : HeadByte s cs t)
    (inside : 0 ≤ cursor s ∧ cursor s < s.buffer.length) (line : inValue ph = true)
    (counts : Counts ph s.parser (cursor s)) (hcs : phase cs = (phaseStep ph c.toNat).1) :
    ((machine max blk).runActs c (phaseStep ph c.toNat).2 t).Sat True (GoesOn s cs) CountedOut := by
  rcases hps : phaseStep ph c.toNat with ⟨ph', as⟩
  rw [hps] at hcs
  dsimp only at hcs ⊢
  cases ph with
  | colon =>
    simp only [phaseStep] at hps
    split at hps <;> cases hps
    · exact counted_passes hc ht (by rw [hcs]; trivial)
    · exact counted_error hc ht hcs
  | ows =>
    simp only [phaseStep] at hps
    split at hps
    · cases hps
      exact counted_begins h ht inside (runActs_began [] t rfl (by norm_num)) (by norm_num) fun parser _ => by rw [hcs]; trivial
    split at hps <;> cases hps
    · rw [runActs_began [.emitToken] t rfl (by norm_num)]
      exact counted_emptyValue h ht inside hcs
    · exact counted_begins h ht inside (runActs_began [] t rfl (by norm_num)) (by norm_num) fun parser hp => by rw [hcs]; exact hp
  | value =>
    simp only [phaseStep] at hps
    split at hps
    · cases hps
      obtain ⟨typed, len⟩ := hc.ends counts (by norm_num)
      exact counted_emit hc ht (fun _ _ _ => by rw [hcs]; trivial) (by simp [WithinLimits, typed, len])
    split at hps <;> cases hps
    · exact counted_error hc ht hcs
    · exact counted_count hc ht fun parser token max_eq more => by rw [hcs]; exact counts.grows token max_eq more
  | valueCr =>
    simp only [phaseStep] at hps
    split at hps
    · cases hps
      obtain ⟨typed, len⟩ := hc.ends counts (by norm_num)
      exact counted_emit hc ht (fun _ _ _ => by rw [hcs]; trivial) (by simp [WithinLimits, typed, len])
    split at hps <;> cases hps
    · exact counted_count hc ht fun parser _ _ _ => by rw [hcs]; trivial
    · exact counted_count hc ht fun parser token max_eq more => by rw [hcs]; exact counts.grows token max_eq more
  | valueLf =>
    simp only [phaseStep] at hps
    split at hps <;> cases hps
    · exact counted_count hc ht fun parser _ _ _ => by rw [hcs]; trivial
    · exact counted_error hc ht hcs
  | _ => cases line

theorem headActs_counted (h : CallInv s) (hc : Counted s) (ht : HeadByte s cs t)
    (inside : 0 ≤ cursor s ∧ cursor s < s.buffer.length) (head : inHead ph = true)
    (counts : Counts ph s.parser (cursor s)) (hcs : phase cs = (phaseStep ph c.toNat).1) :
    ((machine max blk).runActs c (phaseStep ph c.toNat).2 t).Sat True (GoesOn s cs) CountedOut := by
  have part : inRequestLine ph = true ∨ inName ph = true ∨ inValue ph = true := by
    cases ph <;> first | (cases head; done) | simp [inRequestLine, inName, inValue]
  rcases part with line | line | line
  · exact requestLine_counted h hc ht inside line counts hcs
  · exact name_counted h hc ht inside line counts hcs
  · exact value_counted h hc ht inside line counts hcs

end Lines

theorem head_counted (h : CallInv s) (hc : Counted s) (running : s.p ≠ s.pe) (alive : s.cs ≠ hshHttpError)
    (head : inHead (phase s.cs) = true) : ((machine max blk).step c s).Sat True Counted CountedOut := by
  have lt : c.toNat < 256 := c.toNat_lt
  have data : phase s.cs ≠ .bodyData := by
    intro hd
    rw [hd] at head
    cases head
  obtain ⟨htarg, pre, hpre, hacts⟩ := tables_agree h.state_lt lt alive data
  have inside := h.lt_length running (.inl head)
  refine Machine.step_sat (P := GoesOn s (transTarg s.cs c.toNat)) _ ?_ ?_
  · change ((machine max blk).runActs c (transActions s.cs c.toNat) { s with cs := transTarg s.cs c.toNat }).Sat _ _ _
    rw [hacts]
    refine Machine.runActs_append_sat (C := fun _ _ _ => True) (P := HeadByte s (transTarg s.cs c.toNat)) _
      (fun ok => ?_) (fun t ht _ => headActs_counted h hc ht inside head hc.counts htarg) (Machine.actsOk_true _ _ _ _)
    -- the side actions of a header value
    refine Machine.runActs_sat _ (fun a ha t ht _ => ?_) ⟨rfl, rfl, rfl, rfl, rfl, rfl, h.tokenReady⟩ ok
    rcases hpre with rfl | ⟨-, rfl | rfl⟩
    · cases ha
    · obtain rfl := List.mem_singleton.1 ha
      exact ⟨ht.p_eq, ht.buffer_eq, ht.cs_eq, ht.token_eq, ht.count_eq, ht.max_eq, ht.tokenReady⟩
    · obtain rfl := List.mem_singleton.1 ha
      exact ⟨ht.p_eq, ht.buffer_eq, ht.cs_eq, ht.token_eq, ht.count_eq, ht.max_eq,
        (tokenReady_set_chunked _).trans ht.tokenReady⟩
  · rintro u ⟨hp, hb, hcs, quiet, nonneg, within, max_le, counts⟩
    have next : cursor { u with p := u.p + 1 } = cursor s + 1 := by
      unfold cursor
      rw [hp, hb]
      ring
    rcases again_cases u with ⟨heq, err⟩ | heq <;> rw [heq]
    · refine ⟨nonneg, le_trans within (by omega), max_le, fun _ => ?_,
        fun ready => absurd (quiet.symm.trans ready) (by decide)⟩
      rw [err]
      trivial
    · refine ⟨nonneg, within, max_le, ?_⟩
      change Counts (phase u.cs) u.parser (cursor { u with p := u.p + 1 })
      rw [next, hcs]
      exact counts

/-- Behind the head no action touches the counter, and every token is a piece of the body. -/
structure BodyByte (s t : Exec) : Prop where
  count_eq : t.parser.limitCount = s.parser.limitCount
  max_eq : t.parser.limitMax = s.parser.limitMax
  outside : inHead (phase t.cs) = false
  token : httpFlagCheck t.parser.flags flagTokenReady = true → t.parser.token.type = .body

/-- Between two actions there is no token yet. -/
def QuietByte (s t : Exec) : Prop := BodyByte s t ∧ httpFlagCheck t.parser.flags flagTokenReady = false

theorem BodyByte.out (hc : Counted s) (ht : BodyByte s t) : CountedOut t := by
  have within := hc.within
  refine ⟨ht.count_eq.symm ▸ hc.nonneg, ?_, ht.max_eq.symm ▸ hc.max_le, fun _ => counts_free ht.outside,
    fun ready => withinLimits_other (.inl (ht.token ready))⟩
  rw [ht.count_eq, ht.max_eq]
  omega

theorem between_counted {a : Action} (ha : a ∈ [Action.chunkStart, .chunkSize, .endStream, .error])
    (ht : QuietByte s t) : ((machine max blk).act a c t).Sat True (QuietByte s) (BodyByte s) := by
  obtain ⟨⟨hc, hm, outside, -⟩, quiet⟩ := ht
  simp only [List.mem_cons, List.not_mem_nil, or_false] at ha
  have silent : ∀ {u : Exec}, httpFlagCheck u.parser.flags flagTokenReady = false →
      httpFlagCheck u.parser.flags flagTokenReady = true → u.parser.token.type = .body :=
    fun h ready => absurd (h.symm.trans ready) (by decide)
  rcases ha with rfl | rfl | rfl | rfl
  · exact ⟨⟨hc, hm, outside, silent quiet⟩, quiet⟩
  · change QuietByte s (chunkSize c t)
    obtain ⟨n, hn⟩ := chunkSize_cases c t
    rw [hn]
    exact ⟨⟨hc, hm, outside, silent quiet⟩, quiet⟩
  · exact ⟨hc, hm, outside, fun _ => rfl⟩
  · exact ⟨hc, hm, outside, silent quiet⟩

theorem within_counted {a : Action} (ha : a ∈ .smallBodyRead :: .largeBodyRead :: dataActions)
    (ht : QuietByte s t ∧ t.parser.token.type = .body) :
    ((machine max blk).act a c t).Sat True (fun t => QuietByte s t ∧ t.parser.token.type = .body) (BodyByte s) := by
  obtain ⟨⟨⟨hc, hm, outside, -⟩, quiet⟩, typed⟩ := ht
  simp only [dataActions, List.mem_cons, List.not_mem_nil, or_false] at ha
  rcases ha with rfl | rfl | rfl | rfl | rfl | rfl | rfl
  · change (smallBodyRead t).Sat _ _ _
    unfold smallBodyRead
    dsimp only
    split <;> exact ⟨hc, hm, outside, fun _ => typed⟩
  · change (largeBodyRead t).Sat _ _ _
    unfold largeBodyRead
    dsimp only
    split <;> exact ⟨hc, hm, outside, fun _ => typed⟩
  · exact ⟨⟨⟨hc, hm, outside, fun _ => rfl⟩, quiet⟩, rfl⟩
  · exact ⟨⟨⟨hc, hm, outside, fun _ => typed⟩, quiet⟩, typed⟩
  · change QuietByte s (chunkSize c t) ∧ (chunkSize c t).parser.token.type = .body
    obtain ⟨n, hn⟩ := chunkSize_cases c t
    rw [hn]
    exact ⟨⟨⟨hc, hm, outside, fun _ => typed⟩, quiet⟩, typed⟩
  · change (chunkRead max t).Sat _ _ _
    unfold chunkRead
    dsimp only
    split
    · exact ⟨hc, hm, (by decide : inHead (phase hshHttpEnChunkEnd) = false), fun _ => typed⟩
    split
    · split
      · trivial
      · exact ⟨hc, hm, outside, fun _ => typed⟩
    · exact ⟨⟨⟨hc, hm, outside, fun _ => typed⟩, quiet⟩, typed⟩
  · exact ⟨hc, hm, outside, fun _ => rfl⟩

theorem phaseStep_body {ph : Phase} (head : inHead ph = false) (alive : ph ≠ .error) (data : ph ≠ .bodyData) (c : ℕ) :
    inHead (phaseStep ph c).1 = false ∧
      ((∀ a ∈ (phaseStep ph c).2, a ∈ [Action.chunkStart, .chunkSize, .endStream, .error]) ∨
        ∃ as, ((phaseStep ph c).2 = .body :: as ∨ (inPiece ph = true ∨ ph = .smallRest) ∧ (phaseStep ph c).2 = as) ∧
          ∀ a ∈ as, a ∈ .smallBodyRead :: .largeBodyRead :: dataActions) := by
  cases ph <;> simp only [inHead, isHead, Bool.false_or, Bool.true_or, decide_eq_false_iff_not, reduceCtorEq,
    not_false_eq_true, ne_eq, not_true_eq_false, Bool.true_eq_false] at head alive data <;>
    simp only [phaseStep, phaseError, dataActions] <;> (repeat' split) <;> simp [inPiece, inHead, isHead]

theorem body_counted (h : CallInv s) (hc : Counted s) (alive : s.cs ≠ hshHttpError)
    (head : inHead (phase s.cs) = false) : ((machine max blk).step c s).Sat True Counted CountedOut := by
  have lt : c.toNat < 256 := c.toNat_lt
  have data_case : inHead (phase (transTarg s.cs c.toNat)) = false ∧
      ((∀ a ∈ transActions s.cs c.toNat, a ∈ [Action.chunkStart, .chunkSize, .endStream, .error]) ∨
        ∃ as, (transActions s.cs c.toNat = .body :: as ∨
            s.parser.token.type = .body ∧ transActions s.cs c.toNat = as) ∧
          ∀ a ∈ as, a ∈ .smallBodyRead :: .largeBodyRead :: dataActions) := by
    have fits := h.fits
    by_cases data : phase s.cs = .bodyData
    · obtain ⟨htarg, hacts⟩ := bodyData_agree h.state_lt lt data
      rw [data] at fits
      refine ⟨by rw [htarg]; rfl, .inr ⟨_, .inr ⟨fits.1, rfl⟩, fun a ha => ?_⟩⟩
      exact List.mem_cons_of_mem _ (List.mem_cons_of_mem _ (bodyDataActions_data _ hacts a ha))
    · have values : phase s.cs ≠ .ows ∧ phase s.cs ≠ .value := by
        constructor <;> intro hv <;> rw [hv] at head <;> cases head
      have htarg := (tables_agree h.state_lt lt alive data).1
      have hacts := tables_agree_exact h.state_lt lt alive data values
      obtain ⟨outside, lists⟩ := phaseStep_body head (fun herr => alive ((phase_error h.state_lt).1 herr)) data c.toNat
      rw [← htarg] at outside
      rw [← hacts] at lists
      refine ⟨outside, lists.imp_right ?_⟩
      rintro ⟨as, first, has⟩
      refine ⟨as, first.imp_right fun ⟨typed, list⟩ => ⟨?_, list⟩, has⟩
      cases hp : phase s.cs <;> rw [hp] at typed fits data <;> simp [inPiece] at typed <;>
        first | exact fits.1 | exact fits
  obtain ⟨outside, lists⟩ := data_case
  have start : QuietByte s { s with cs := transTarg s.cs c.toNat } :=
    ⟨⟨rfl, rfl, outside, fun ready => absurd (h.tokenReady.symm.trans ready) (by decide)⟩, h.tokenReady⟩
  have again : ∀ u, QuietByte s u → ((machine max blk).again u).Sat True Counted CountedOut := by
    intro u hu
    obtain ⟨count_eq, max_eq, out, -⟩ := hu.1
    rcases again_cases u with ⟨heq, -⟩ | heq <;> rw [heq]
    · exact hu.1.out hc
    · refine ⟨count_eq.symm ▸ hc.nonneg, ?_, max_eq.symm ▸ hc.max_le, counts_free out⟩
      change u.parser.limitCount ≤ u.parser.limitMax
      rw [count_eq, max_eq]
      exact hc.within
  have left : ∀ {r : Flow Exec} {F : Exec → Prop}, r.Sat True F (BodyByte s) → r.Sat True F CountedOut :=
    fun sat => sat.mono (fun _ hu => hu) fun _ hu => hu.out hc
  have within : ∀ as : List Action, (∀ a ∈ as, a ∈ .smallBodyRead :: .largeBodyRead :: dataActions) → ∀ u,
      QuietByte s u ∧ u.parser.token.type = .body →
      ((machine max blk).runActs c as u).Sat True (fun u => QuietByte s u ∧ u.parser.token.type = .body) (BodyByte s) :=
    fun as has u hu => Machine.runActs_sat _ (C := fun _ _ _ => True)
      (fun a ha t ht _ => within_counted (has a ha) ht) hu (Machine.actsOk_true _ _ _ _)
  rcases lists with plain | ⟨as, first, has⟩
  · refine Machine.step_sat (P := QuietByte s) _ (left ?_) again
    exact Machine.runActs_sat _ (C := fun _ _ _ => True) (fun a ha t ht _ => between_counted (plain a ha) ht) start
      (Machine.actsOk_true _ _ _ _)
  · refine Machine.step_sat (P := fun u => QuietByte s u ∧ u.parser.token.type = .body) _ (left ?_)
      fun u hu => again u hu.1
    change ((machine max blk).runActs c (transActions s.cs c.toNat) { s with cs := transTarg s.cs c.toNat }).Sat _ _ _
    rcases first with first | ⟨typed, first⟩
    · rw [first, Machine.runActs_fall _ (t := body { s with cs := transTarg s.cs c.toNat }) rfl]
      exact within as has _ ⟨⟨⟨rfl, rfl, outside, fun _ => rfl⟩, h.tokenReady⟩, rfl⟩
    · rw [first]
      exact within as has _ ⟨start, typed⟩

theorem step_counted (h : CallInv s) (hc : Counted s) (running : s.p ≠ s.pe) (alive : s.cs ≠ hshHttpError) :
    ((machine max blk).step c s).Sat True Counted CountedOut := by
  cases head : inHead (phase s.cs) with
  | true => exact head_counted h hc running alive head
  | false => exact body_counted h hc alive head

end Steps

section Runs

theorem sat_and {σ : Type} {E : Prop} {F F' Q Q' : σ → Prop} {r : Flow σ} (h : r.Sat E F Q) (h' : r.Sat E F' Q') :
    r.Sat E (fun s => F s ∧ F' s) fun s => Q s ∧ Q' s := by
  cases r with
  | fall s => exact ⟨h, h'⟩
  | out s => exact ⟨h, h'⟩
  | fault => exact h

variable {max initial : ℤ} {blk : NewBlock} {input : List UInt8} {tokens : List HshTokenS}
  {parser parser' : HshParserS} {buffer buffer' : HshBufferS} {token : HshTokenS}

structure CountRest (parser : HshParserS) (buffer : HshBufferS) : Prop where
  rest : CallRest parser buffer
  nonneg : 0 ≤ parser.limitCount
  le : parser.limitCount ≤ parser.limitMax + 1
  max_le : parser.limitMax ≤ 4096
  counts : parser.limitCount ≤ parser.limitMax → Counts (phase parser.state) parser buffer.index

/-- A call that does not start beyond a limit returns no token beyond one. -/
theorem hshParserExec_counted (h : CountRest parser buffer) (hblk : BlockOk blk)
    (within : parser.limitCount ≤ parser.limitMax)
    (hr : hshParserExec max blk parser buffer = some (token, parser', buffer')) :
    CountRest parser' buffer' ∧ WithinLimits token := by
  have rest := hshParserExec_call h.rest hblk hr
  by_cases finished : httpFlagCheck parser.flags flagDone = true
  · unfold hshParserExec at hr
    rw [if_pos (.inl finished)] at hr
    cases hr
    exact ⟨h, by simp [WithinLimits, noneToken]⟩
  have inv := h.rest.inv (eq_false_of_ne_true finished)
  have start : CallInv (enter parser buffer) ∧ Counted (enter parser buffer) :=
    ⟨inv, h.nonneg, within, h.max_le, by rw [cursor_enter]; exact h.counts within⟩
  have step : ∀ c s, CallInv s ∧ Counted s → s.p ≠ s.pe → s.cs ≠ hshHttpError → True →
      ((machine max blk).step c s).Sat True (fun s => CallInv s ∧ Counted s) fun s => CallExit s ∧ CountedOut s :=
    fun c s hs running alive _ => sat_and (call_step hs.1 running alive hblk) (step_counted hs.1 hs.2 running alive)
  rcases hshParserExec_sat start (fun s hs => ⟨hs.1.exit, hs.2.out hs.1.tokenReady⟩) step execOk_any hr with
    heq | ⟨t, ⟨exit, out⟩, heq⟩
  · obtain ⟨rfl, rfl, rfl⟩ : token = noneToken ∧ parser' = parser ∧ buffer' = buffer := by
      simpa using heq
    exact ⟨h, by simp [WithinLimits, noneToken]⟩
  -- the index of the buffer is the cursor, where it matters
  have place : t.parser.limitCount ≤ t.parser.limitMax →
      Counts (phase t.cs) t.parser (wrap32 (t.p - t.buffer.buf)) := by
    intro le
    cases head : inHead (phase t.cs) with
    | false => exact counts_free head
    | true =>
      have lt := exit.length_lt
      obtain ⟨lo, hi⟩ := exit.place.inside (.inl head)
      have index : wrap32 (t.p - t.buffer.buf) = cursor t := wrap32_eq (by unfold cursor at *; omega)
        (by unfold cursor at *; omega)
      rw [index]
      exact out.counts le
  rcases leave_cases t with ⟨ready, hl⟩ | ⟨-, hl⟩
  · rw [hl] at heq
    cases heq
    exact ⟨⟨rest.1, out.nonneg, out.le, out.max_le, place⟩, out.token ready⟩
  · rw [hl] at heq
    cases heq
    exact ⟨⟨rest.1, out.nonneg, out.le, out.max_le, place⟩, by simp [WithinLimits, noneToken]⟩

theorem countRest_init (hblk : BlockOk blk) {memused : ℤ} (lt : initial < 2147483648) :
    CountRest hshParserInit (hsBufferInit blk initial memused).1 :=
  ⟨callRest_init hblk lt, le_refl 0, by norm_num [hshParserInit], by norm_num [hshParserInit], fun _ => trivial⟩

theorem countRest_run (initial_lt : initial < 2147483648) (max_ge : -2147483648 ≤ max) (max_lt : max < 2147483648)
    (run : ParserRun StartsWithin initial max input tokens parser buffer) :
    CountRest parser buffer ∧ ∀ token ∈ tokens, WithinLimits token := by
  induction run with
  | init memused hblk => exact ⟨countRest_init hblk initial_lt, by simp⟩
  | read _ hblk hr ih =>
    obtain ⟨⟨rest, nonneg, le, max_le, counts⟩, limits⟩ := ih
    obtain ⟨rest', filled⟩ := rest.read max_ge max_lt hblk hr
    exact ⟨⟨rest', nonneg, le, max_le, by rw [filled.index_eq]; exact counts⟩, limits⟩
  | exec _ hblk within hr ih =>
    obtain ⟨rest, limits⟩ := ih
    obtain ⟨rest', limit⟩ := hshParserExec_counted rest hblk within hr
    refine ⟨rest', fun token ht => ?_⟩
    rcases List.mem_append.1 ht with ht | ht
    · exact limits token ht
    · unfold emitted at ht
      split at ht
      · cases ht
      · rw [List.mem_singleton.1 ht]
        exact limit

end Runs

section Limits

/-- A line whose parts are within the limits, or exactly at them. -/
structure AllowedLine (line : HeaderLine) : Prop where
  name_pos : line.name ≠ []
  name_le : line.name.length ≤ 256
  name_chars : ∀ c ∈ line.name, isTokenChar c.toNat = true ∧ isCrLf c = false
  ws_pos : line.ws ≠ []
  ws_chars : ∀ c ∈ line.ws, isWs c = true
  value_le : line.value.length ≤ 4096
  value_chars : ∀ c ∈ line.value, isCrLf c = false
  value_head : ∀ c ∈ line.value.head?, isWs c = false

/-- A head whose parts are within the limits, or exactly at them. -/
structure AllowedHead (head : RequestHead) : Prop where
  method_pos : head.method ≠ []
  method_le : head.method.length ≤ 32
  method_chars : ∀ c ∈ head.method, isAlpha c.toNat = true
  target_pos : head.target ≠ []
  target_le : head.target.length ≤ 1024
  target_chars : ∀ c ∈ head.target, c ≠ 32 ∧ isCrLf c = false
  minor : head.minor = 48 ∨ head.minor = 49
  lines_pos : head.lines ≠ []
  lines : ∀ line ∈ head.lines, AllowedLine line

/-- The line feed after the value is counted, too. -/
theorem AllowedLine.valid {line : HeaderLine} (h : AllowedLine line) (short : line.value.length ≠ 4096) : line.Valid :=
  ⟨h.name_pos, h.name_le, h.name_chars, h.ws_pos, h.ws_chars, by have := h.value_le; omega, h.value_chars, h.value_head⟩

theorem AllowedHead.valid {head : RequestHead} (h : AllowedHead head)
    (short : ∀ line ∈ head.lines, line.value.length ≠ 4096) : head.Valid :=
  ⟨h.method_pos, h.method_le, h.method_chars, h.target_pos, h.target_le, h.target_chars, h.minor, h.lines_pos,
    fun line hl => (h.lines line hl).valid (short line hl)⟩

/-- When no call starts beyond a limit, no token is longer than its limit, and the count stays next to its
    limit. A head whose parts are within the limits is read to its end, however it is cut into reads, unless a value
    has exactly 4096 bytes or the head is longer than the maximum: up to the end there is room for the next byte, and
    the calls behind the next read return. -/
theorem token_limits {initial max : ℤ} {input : List UInt8} {tokens : List HshTokenS} {parser : HshParserS}
    {buffer : HshBufferS} :
    (initial < 2147483648 → -2147483648 ≤ max → max < 2147483648 →
      ParserRun StartsWithin initial max input tokens parser buffer →
      (∀ token ∈ tokens, WithinLimits token) ∧ 0 ≤ parser.limitCount ∧ parser.limitCount ≤ parser.limitMax + 1) ∧
    ∀ {head : RequestHead} {fuel : ℕ},
      AllowedHead head → (∀ line ∈ head.lines, line.value.length ≠ 4096) → (head.bytes.length : ℤ) ≤ max →
      0 < initial → initial ≤ max → max < 2147483648 → head.bytes.length < fuel →
      HeadFed initial max fuel input tokens parser buffer →
      (head.bytes <+: input → hasHeadersDone tokens = true) ∧
      (input <+: head.bytes → input ≠ head.bytes → buffer.length < buffer.capacity ∧
        ∀ {calls : List ReadCall} {memused : ℤ} {r : ReadReturn} (blk : NewBlock),
          (∀ call ∈ calls, BlockOk call.blk) → hsReadIntoBuffer max calls buffer memused = some r →
          (input ++ received calls <+: head.bytes ∨ head.bytes <+: input ++ received calls) →
          ∃ more parser' buffer', headTokens max blk fuel parser r.buffer = some (more, parser', buffer')) := by
  constructor
  · intro initial_lt max_ge max_lt run
    obtain ⟨rest, limits⟩ := countRest_run initial_lt max_ge max_lt run
    exact ⟨limits, rest.nonneg, rest.le⟩
  · intro head fuel allowed short fits pos le max_lt enough fed
    have valid := allowed.valid short
    refine ⟨fun whole => ?_, fun part more => ?_⟩
    · rcases headFed_comes valid pos le max_lt enough fed (.inr whole) with ⟨-, done, -⟩ | partly
      · exact done
      · exact absurd whole partly.not_whole
    · rcases headFed_comes valid pos le max_lt enough fed (.inl part) with ⟨whole, -⟩ | partly
      · exact absurd (part.eq_of_length_le whole.length_le) more
      · refine ⟨partly.has_room fits, fun blk hblk hr comes => ?_⟩
        obtain ⟨more, parser', buffer', eq, -⟩ := partly.read (by omega) max_lt hblk hr comes enough blk
        exact ⟨more, parser', buffer', eq⟩

/-- `GET / HTTP/1.0` and one line. -/
def getHead : RequestHead :=
  ⟨ascii "GET", ascii "/", 48, [⟨ascii "Host", ascii " ", ascii "a"⟩]⟩

def pieceReads (bs : List UInt8) : List ReadCall :=
  [⟨.bytes bs, block 8192⟩, ⟨.fail, block 8192⟩]

/-- The calls that read a whole head from one read, and a head in two reads of a buffer that grows for it. -/
theorem token_limits_get :
    (∃ tokens parser buffer, ParserRun StartsWithin 1024 8388608 getHead.bytes tokens parser buffer ∧
      tokens.map shape = getHead.tokens ∧ (∀ token ∈ tokens, WithinLimits token) ∧ 0 ≤ parser.limitCount ∧
      parser.limitCount ≤ parser.limitMax + 1) ∧
    ∃ tokens parser buffer, HeadFed 16 64 64 getHead.bytes tokens parser buffer ∧ buffer.capacity = 32 ∧
      hasHeadersDone tokens = true := by
  constructor
  · have run : (readBytes getHead.bytes freshBuffer).any (fun r =>
        (drain StartsWithin 8388608 (block 4096) 64 hshParserInit r.buffer).any fun d =>
          decide (d.1.map shape = getHead.tokens)) = true := by
      decide +kernel
    obtain ⟨r, hr, drained⟩ := (Option.any_eq_true _ _).1 run
    obtain ⟨d, hd, shapes⟩ := (Option.any_eq_true _ _).1 drained
    have reached := (readBytes_run freshBuffer_run hr).drain ⟨by decide, by decide⟩ hd
    exact ⟨d.1, d.2.1, d.2.2, reached, of_decide_eq_true shapes,
      token_limits.1 (by norm_num) (by norm_num) (by norm_num) reached⟩
  · have allowed : AllowedHead getHead := by
      refine ⟨by decide, by decide, by decide +kernel, by decide, by decide, by decide +kernel, by decide, by decide, ?_⟩
      intro line hl
      rw [List.mem_singleton.1 hl]
      exact ⟨by decide, by decide, by decide +kernel, by decide, by decide +kernel, by decide, by decide +kernel,
        by decide +kernel⟩
    have short : ∀ line ∈ getHead.lines, line.value.length ≠ 4096 := by
      intro line hl
      rw [List.mem_singleton.1 hl]
      decide
    have blocks : ∀ bs, ∀ call ∈ pieceReads bs, BlockOk call.blk := by
      intro bs call h
      simp only [pieceReads, List.mem_cons, List.not_mem_nil, or_false] at h
      rcases h with rfl | rfl <;> exact ⟨by norm_num [block], by norm_num [block]⟩
    have run : (hsReadIntoBuffer 64 (pieceReads (getHead.bytes.take 16)) (hsBufferInit (block 4096) 16 0).1 0).any (fun r =>
        (headTokens 64 (block 4096) 64 hshParserInit r.buffer).any fun d =>
          decide (hasHeadersDone d.1 = false) &&
            (hsReadIntoBuffer 64 (pieceReads (getHead.bytes.drop 16)) d.2.2 0).any fun r' =>
              (headTokens 64 (block 4096) 64 d.2.1 r'.buffer).any fun d' => decide (d'.2.2.capacity = 32)) = true := by
      decide +kernel
    obtain ⟨r, hr, run⟩ := (Option.any_eq_true _ _).1 run
    obtain ⟨d, hd, run⟩ := (Option.any_eq_true _ _).1 run
    obtain ⟨going, run⟩ := Bool.and_eq_true_iff.1 run
    obtain ⟨r', hr', run⟩ := (Option.any_eq_true _ _).1 run
    obtain ⟨d', hd', capacity⟩ := (Option.any_eq_true _ _).1 run
    have first : HeadFed 16 64 64 _ _ _ _ := .read (.init 0 ⟨by decide, by decide⟩) rfl (blocks _) hr hd
    have fed := HeadFed.read first (of_decide_eq_true going) (blocks _) hr' hd'
    have input : [] ++ received (pieceReads (getHead.bytes.take 16)) ++
        received (pieceReads (getHead.bytes.drop 16)) = getHead.bytes := by
      decide +kernel
    rw [input] at fed
    exact ⟨_, _, _, fed, of_decide_eq_true capacity, (token_limits.2 allowed short (by decide +kernel) (by norm_num)
      (by norm_num) (by norm_num) (by decide +kernel) fed).1 (List.prefix_refl _)⟩

/-- The call that reads 33 letters leaves the loop after the last; the next one ends the method there. -/
theorem method_past_limit : ∃ input tokens parser buffer,
    ParserRun (fun _ _ _ => True) 1024 8388608 input tokens parser buffer ∧ ¬ ∀ token ∈ tokens, WithinLimits token := by
  have run : (session (List.replicate 33 71) (ascii " / ")).any (fun r =>
      (hshParserExec 8388608 (block 4096) r.1 r.2).any fun e =>
        decide (e.1.type = .method ∧ e.1.len = 33)) = true := by
    decide +kernel
  obtain ⟨⟨parser, buffer⟩, hs, hr⟩ := (Option.any_eq_true _ _).1 run
  obtain ⟨⟨token, parser', buffer'⟩, he, long⟩ := (Option.any_eq_true _ _).1 hr
  rw [decide_eq_true_eq] at long
  obtain ⟨typed, len⟩ : token.type = .method ∧ token.len = 33 := long
  obtain ⟨tokens, reached⟩ := session_run hs
  refine ⟨_, tokens ++ emitted token, parser', buffer', reached.exec ⟨by decide, by decide⟩ trivial he, fun within => ?_⟩
  have shown : token ∈ emitted token := by simp [emitted, typed]
  have short := (within token (List.mem_append_right _ shown)).1 typed
  omega

end Limits

end HttpServer.TokenLimits
