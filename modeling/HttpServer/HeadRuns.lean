import HttpServer.HeadSoundness

set_option autoImplicit false

/-!
# Runs of the parser inside a head

The tokens returned so far are those of the head machine on the bytes consumed so far, however the
bytes arrived and whatever the calls were, until the head is done or the machine is in error.
-/
namespace HttpServer.HeadRuns
open Scanner ParserGrammar HttpServer.Parser ReadBuffer ParserInvariant ParserRuns HeadMachine HeadGrammar
  HeadSoundness BodyPhases

section Kinds

variable {c : UInt8} {h h' : HeadScan} {w : List UInt8}

/-- The last empty line is never cut off by the limit of a token. -/
def FinalCount (h : HeadScan) : Prop := h.ph = .finalCr → h.count = 1 ∧ h.limit = 256

theorem finalCount_init : FinalCount {} := by
  intro h
  cases h

theorem phaseStep_finalCr {ph : Phase} {c : ℕ} (live : isHead ph = true)
    (h : (phaseStep ph c).1 = .finalCr) :
    (phaseStep ph c).2 = [.headerKey, .resetCount, .incCount] := by
  revert h
  cases ph <;> simp only [isHead, Bool.false_eq_true] at live <;>
    simp only [phaseStep, keyStep, phaseError] <;> (repeat' split) <;> simp

theorem phaseStep_headersDone {ph : Phase} {c : ℕ} (live : isHead ph = true)
    (h : (phaseStep ph c).1 = .headersDone) : ph = .finalCr := by
  revert h
  cases ph <;> simp only [isHead, Bool.false_eq_true] at live <;>
    simp only [phaseStep, keyStep, phaseError] <;> (repeat' split) <;> simp

/-- What a byte of the head can do. -/
theorem headStep_kinds (live : isHead h.ph = true) (hc : FinalCount h) :
    (headStep c h).Sat False (fun t => isHead t.ph = true ∧ FinalCount t)
      (fun t => isHead t.ph = true ∧ FinalCount t ∨ t.ph = .error ∧ t.emitted = none ∨
        t.ph = .headersDone ∧ t.emitted = some (.headersDone, 0, 0)) := by
  have real : headStep c h = headMachine.step c h := if_pos live
  have trans : headMachine.trans c h = ({ h with ph := (phaseStep h.ph c.toNat).1, emitted := none },
    (phaseStep h.ph c.toNat).2) := rfl
  rw [real]
  rcases phaseStep_head live c.toNat with herr | hdone | ⟨hhead, -⟩
  · rw [Machine.step_out headMachine (t := HeadScan.next { h with ph := .error, emitted := none })
      (by rw [trans, herr]; rfl)]
    exact .inr (.inl ⟨rfl, rfl⟩)
  · obtain ⟨count, limit⟩ := hc (phaseStep_headersDone live (by rw [hdone]))
    rw [Machine.step_out headMachine (by
      rw [trans, hdone]
      exact headersDone_out { h with ph := .headersDone, emitted := none } (by dsimp only; omega)
        (by dsimp only; omega) (by dsimp only; omega))]
    exact .inr (.inr ⟨rfl, rfl⟩)
  by_cases final : (phaseStep h.ph c.toNat).1 = .finalCr
  · have list := phaseStep_finalCr live final
    rw [Machine.step_fall headMachine (by rw [trans, list]; exact (enters_key c _).2)]
    have again : ∀ t : HeadScan, t.ph = .finalCr → headMachine.again t = .fall t.next :=
      fun t ht => if_neg (by rw [ht]; decide)
    rw [again _ final]
    exact ⟨by rw [← final] at *; exact hhead, fun _ => ⟨rfl, rfl⟩⟩
  · exact (headStep_sat c live).mono (fun t ht => ⟨ht.2.2, fun hf => absurd (ht.1.symm.trans hf) final⟩)
      (fun t ht => .inl ⟨by rw [ht.1]; exact hhead, fun hf => absurd (ht.1.symm.trans hf) final⟩)

theorem headRun_stuck {breaks : List (Option Shape)} (dead : isHead h.ph = false)
    (run : headRun w h = some (h', breaks)) : h' = h ∧ breaks = [] := by
  cases w with
  | nil => exact headRun_nil run
  | cons c w => exact absurd (headRun_live run) (by rw [dead]; decide)

theorem headRun_kinds {breaks : List (Option Shape)} (live : isHead h.ph = true) (hc : FinalCount h)
    (run : headRun w h = some (h', breaks)) :
    isHead h'.ph = true ∧ FinalCount h' ∨ h'.ph = .error ∧ breaks.getLast? = some none ∨
      h'.ph = .headersDone ∧ breaks.getLast? = some (some (.headersDone, 0, 0)) := by
  induction w generalizing h breaks with
  | nil =>
    obtain ⟨rfl, -⟩ := headRun_nil run
    exact .inl ⟨live, hc⟩
  | cons c w ih =>
    have step := headStep_kinds (c := c) live hc
    rw [headRun] at run
    cases hs : headStep c h with
    | fault => rw [hs] at run; cases run
    | fall t =>
      rw [hs] at run step
      exact ih step.1 step.2 run
    | out t =>
      rw [hs] at run step
      obtain ⟨r, hrest, hr⟩ := Option.map_eq_some_iff.1 run
      cases hr
      rcases step with ⟨live', hc'⟩ | ⟨ph, emitted⟩ | ⟨ph, emitted⟩
      · rcases ih (h := { t with emitted := none }) live' hc' hrest with h1 | ⟨ph, last⟩ | ⟨ph, last⟩
        · exact .inl h1
        · exact .inr (.inl ⟨ph, by rw [List.getLast?_cons, last]; rfl⟩)
        · exact .inr (.inr ⟨ph, by rw [List.getLast?_cons, last]; rfl⟩)
      · obtain ⟨h1, h2⟩ := headRun_stuck (by dsimp only; rw [ph]; rfl) hrest
        exact .inr (.inl ⟨by rw [h1]; exact ph, by rw [h2, emitted]; rfl⟩)
      · obtain ⟨h1, h2⟩ := headRun_stuck (by dsimp only; rw [ph]; rfl) hrest
        exact .inr (.inr ⟨by rw [h1]; exact ph, by rw [h2, emitted]; rfl⟩)

end Kinds

section Reached

variable {P : Phase → UInt8 → Prop} {max : ℤ} {blk : NewBlock} {input w : List UInt8}
  {tokens : List HshTokenS} {token : HshTokenS} {parser parser' : HshParserS}
  {buffer buffer' : HshBufferS} {h h' : HeadScan}

theorem headRunOk_append {as bs : List UInt8} {breaks : List (Option Shape)}
    (run : headRun as h = some (h', breaks)) (first : HeadRunOk P as h) (rest : HeadRunOk P bs h') :
    HeadRunOk P (as ++ bs) h := by
  induction as generalizing h breaks with
  | nil =>
    obtain ⟨rfl, -⟩ := headRun_nil run
    exact rest
  | cons c as ih =>
    have tail := first.2
    rw [headRun] at run
    rw [List.cons_append, HeadRunOk]
    refine ⟨first.1, ?_⟩
    cases hs : headStep c h with
    | fall t =>
      rw [hs] at run tail
      exact ih run tail
    | out t =>
      rw [hs] at run tail
      obtain ⟨r, hr, heq⟩ := Option.map_eq_some_iff.1 run
      cases heq
      exact ih hr tail
    | fault => trivial

/-- The bytes `w` of `input` were consumed and the head goes on. -/
structure HeadReached (P : Phase → UInt8 → Prop) (max : ℤ) (input : List UInt8)
    (tokens : List HshTokenS) (parser : HshParserS) (buffer : HshBufferS) (w : List UInt8)
    (h : HeadScan) : Prop where
  ok : BufferOk true max buffer
  rest : HeadRest parser buffer h
  input_eq : w ++ unconsumed buffer = input
  kept : slice buffer.data 0 w.length = w
  run : ∃ breaks, headRun w {} = some (h, breaks) ∧ tokens.map shape = breaks.reduceOption
  good : HeadRunOk P w {}
  live : isHead h.ph = true

/-- `token` ends the head `w`. -/
structure HeadFinished (P : Phase → UInt8 → Prop) (max : ℤ) (input : List UInt8)
    (tokens : List HshTokenS) (token : HshTokenS) (parser : HshParserS) (buffer : HshBufferS)
    (w : List UInt8) : Prop where
  ok : BufferOk true max buffer
  prefix_eq : ∃ left, w ++ left = input
  length_eq : buffer.length = input.length
  kept : slice buffer.data 0 w.length = w
  ahi_eq : buffer.afterHeadersIndex = w.length
  run : ∃ h breaks, headRun w {} = some (h, breaks) ∧ h.ph = .headersDone ∧
    (tokens ++ [token]).map shape = breaks.reduceOption
  good : HeadRunOk P w {}
  last : shape token = (.headersDone, 0, 0)
  done : HeadDone parser
  mode : bodyFlags (phase parser.state) = some token.flags

theorem HeadReached.offset_eq (reached : HeadReached P max input tokens parser buffer w h) :
    h.offset = w.length := by
  obtain ⟨breaks, run, -⟩ := reached.run
  simpa using headRun_offset run

theorem headReached_init {initial memused : ℤ} (hblk : BlockOk blk) (nonneg : 0 ≤ initial)
    (le : initial ≤ max) (max_lt : max < 2147483648) :
    HeadReached P max [] [] hshParserInit (hsBufferInit blk initial memused).1 [] {} :=
  ⟨⟨hblk.1, hblk.2, le_refl 0, le_refl 0, by norm_num [hsBufferInit],
      by dsimp only [hsBufferInit]; omega, fun _ => ⟨nonneg, le⟩⟩,
    headRest_init, rfl, rfl, ⟨[], rfl, rfl⟩, trivial, rfl⟩

theorem HeadReached.read {calls : List ReadCall} {memused : ℤ} {r : ReadReturn}
    (reached : HeadReached P max input tokens parser buffer w h) (max_ge : -2147483648 ≤ max)
    (max_lt : max < 2147483648) (hblk : ∀ call ∈ calls, BlockOk call.blk)
    (hr : hsReadIntoBuffer max calls buffer memused = some r) :
    HeadReached P max (input ++ received calls) tokens parser r.buffer w h := by
  obtain ⟨ok, app, -⟩ := hsReadIntoBuffer_spec max_ge max_lt hblk reached.ok hr
  have index := reached.rest.index_eq
  have offset := reached.offset_eq
  have inside := reached.rest.inside
  refine ⟨ok, reached.rest.of_appended app, ?_, ?_, reached.run, reached.good, reached.live⟩
  · rw [unconsumed_appended (by omega) (by omega) app, ← List.append_assoc, reached.input_eq]
  · rw [← reached.kept, slice_length]
    exact slice_congr fun i lo hi => app.old rfl i (by omega) (by omega)

theorem unconsumed_take {consumed left : List UInt8} (rest : unconsumed buffer = consumed ++ left) :
    slice buffer.data buffer.index consumed.length = consumed := by
  have length := congrArg List.length rest
  rw [unconsumed, slice_length, List.length_append] at length
  rw [unconsumed, length, slice_add] at rest
  exact (List.append_inj rest (slice_length _ _ _)).1

theorem HeadReached.kept_append {consumed left : List UInt8}
    (reached : HeadReached P max input tokens parser buffer w h)
    (rest : unconsumed buffer = consumed ++ left) :
    slice buffer.data 0 (w ++ consumed).length = w ++ consumed := by
  have index := reached.rest.index_eq
  have offset := reached.offset_eq
  have taken := unconsumed_take rest
  rw [index, offset] at taken
  rw [List.length_append, slice_add, reached.kept, zero_add, taken]

theorem noBody_of_error (rest : HeadRest parser buffer h) (ph : h.ph = .error) :
    NoBody parser ∧ phase parser.state = .error := by
  have state : phase parser.state = .error := rest.sim.phase_eq.trans ph
  exact ⟨fun _ => ⟨rest.sim.state_lt, .inr state, rest.sim.tokenReady⟩, state⟩

theorem HeadReached.exec (reached : HeadReached P max input tokens parser buffer w h)
    (hblk : BlockOk blk) (max_lt : max < 2147483648)
    (ok : ExecOk (fun c s => P (phase s.cs) c) (fun _ _ _ => True) max blk parser buffer)
    (hr : hshParserExec max blk parser buffer = some (token, parser', buffer')) :
    (∃ w' h', HeadReached P max input (tokens ++ emitted token) parser' buffer' w' h' ∧
        (token = noneToken ∨ isLine token.type = true)) ∨
      (NoBody parser' ∧ phase parser'.state = .error ∧ token = noneToken) ∨
      ∃ w', HeadFinished P max input tokens token parser' buffer' w' := by
  by_cases seen : parser.sequenceId = buffer.sequenceId
  · unfold hshParserExec at hr
    rw [if_pos (.inr seen)] at hr
    cases hr
    exact .inl ⟨w, h, by simpa [emitted, noneToken] using reached, .inl rfl⟩
  obtain ⟨consumed, h₁, token₁, parser₁, buffer₁, hexec, exec, good⟩ :=
    hshParserExec_head max blk reached.ok reached.rest reached.live seen
  rw [hexec] at hr
  cases hr
  obtain ⟨breaks, run, shapes⟩ := reached.run
  have offset := reached.offset_eq
  have index := reached.rest.index_eq
  -- the run so far, with the bytes of this call
  have whole : ∀ {more : List (Option Shape)}, headRun consumed h = some (h₁, more) →
      headRun (w ++ consumed) {} = some (h₁, breaks ++ more) := by
    intro more hmore
    rw [headRun_append, run, Option.bind_some, hmore]
    rfl
  have goodAll : HeadRunOk P (w ++ consumed) {} := headRunOk_append run reached.good (good P ok)
  have kinds : ∀ {more : List (Option Shape)}, headRun consumed h = some (h₁, more) →
      isHead h₁.ph = true ∧ FinalCount h₁ ∨ h₁.ph = .error ∧ (breaks ++ more).getLast? = some none ∨
        h₁.ph = .headersDone ∧ (breaks ++ more).getLast? = some (some (.headersDone, 0, 0)) :=
    fun hmore => headRun_kinds rfl finalCount_init (whole hmore)
  have goes : ∀ {left : List UInt8} {more : List (Option Shape)} {parser₂ : HshParserS},
      unconsumed buffer = consumed ++ left → headRun consumed h = some (h₁, more) →
      HeadRest parser₂ { buffer with index := h₁.offset } h₁ → isHead h₁.ph = true →
      (tokens ++ emitted token).map shape = (breaks ++ more).reduceOption →
      HeadReached P max input (tokens ++ emitted token) parser₂ { buffer with index := h₁.offset }
        (w ++ consumed) h₁ := by
    intro left more parser₂ hleft hmore rest live hshapes
    refine ⟨bufferOk_index reached.ok _, rest, ?_, reached.kept_append hleft, ⟨_, whole hmore, hshapes⟩,
      goodAll, live⟩
    rw [unconsumed_advance index hleft (headRun_offset hmore), List.append_assoc, ← hleft,
      reached.input_eq]
  cases exec with
  | none rest all first silent head _ =>
    have quiet : ∀ more : List (Option Shape), more = [] ∨ more = [none] →
        (tokens ++ emitted noneToken).map shape = (breaks ++ more).reduceOption := by
      rintro more (rfl | rfl) <;> simp [emitted, noneToken, shapes, List.reduceOption_append]
    rcases kinds first with ⟨live, -⟩ | ⟨ph, -⟩ | ⟨ph, last⟩
    · exact .inl ⟨_, _, goes rest first head live (quiet _ silent), .inl rfl⟩
    · obtain ⟨noBody, state⟩ := noBody_of_error head ph
      exact .inr (.inl ⟨noBody, state, rfl⟩)
    · -- the call would have returned the end of the head
      rcases silent with rfl | rfl
      · have stays := headRun_stays reached.live first
        rw [ph] at stays
        cases stays
      · rw [List.getLast?_concat] at last
        cases last
  | token rest first typed ph head _ =>
    have spoken : (tokens ++ emitted token).map shape = (breaks ++ [some (shape token)]).reduceOption := by
      have some_token : token.type ≠ .none := by
        intro hn
        rw [hn] at typed
        cases typed
      simp [emitted, some_token, shapes, List.reduceOption_append]
    rcases kinds first with ⟨live, -⟩ | ⟨-, last⟩ | ⟨ph', -⟩
    · exact .inl ⟨_, _, goes rest first head live spoken, .inr typed⟩
    · rw [List.getLast?_concat] at last
      cases last
    · exact absurd ph' ph
  | done rest first ph last finished mode sized =>
    rename_i left _ _
    have length := congrArg List.length rest
    rw [unconsumed, slice_length, List.length_append] at length
    have total := congrArg List.length reached.input_eq
    rw [List.length_append, unconsumed, slice_length] at total
    have within := reached.rest.inside
    have ahi : h₁.offset = ((w ++ consumed).length : ℤ) := by simpa using headRun_offset (whole first)
    have inside : h₁.offset ≤ buffer.length := by
      rw [ahi, List.length_append]
      push_cast
      omega
    obtain ⟨ok', data⟩ := sized.ok reached.ok hblk max_lt (by omega) inside
    have whole_kept := reached.kept_append rest
    refine .inr (.inr ⟨w ++ consumed, bufferOk_index ok' _, ⟨left, ?_⟩, ?_, ?_, ?_,
      ⟨h₁, _, whole first, ph, ?_⟩, goodAll, last, finished, mode⟩)
    · rw [List.append_assoc, ← rest, reached.input_eq]
    · exact sized.length_eq.trans (by omega)
    · exact (slice_congr fun i lo hi => data i lo (by omega)).trans whole_kept
    · exact sized.ahi_eq.trans ahi
    · simp [shapes, List.reduceOption_append]

end Reached

end HttpServer.HeadRuns
