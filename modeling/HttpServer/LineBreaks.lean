import HttpServer.HandlerCalls

set_option autoImplicit false

/-!
# Line breaks inside the tokens of a head

The tokens that the request handler finds are a request line and alternating names and values without
a line break, just when no byte of the head is stray: a break inside a target, a name or a value.
-/
namespace HttpServer.LineBreaks
open Scanner ParserTables ParserGrammar HttpServer.Parser ReadBuffer ParserInvariant ParserRuns HeadMachine
  HeadGrammar HeadSoundness HeadRuns HeadTexts RequestRuns KeptHeads RequestUtil Connection ConnectionSteps
  ConnectionInvariant HeldRequests ServedRequests FirstRequests HandlerCalls

section Heads

variable {w v : List UInt8} {h h' h'' t : HeadScan} {shapes new new' : List Shape} {c : UInt8} {ph : Phase}
  {breaks : List (Option Shape)}

/-- A token that should not have a line break has one. -/
def Broken (w : List UInt8) (sh : Shape) : Prop :=
  Inside w sh ∧ plainType sh.1 = true ∧ ∃ c ∈ text w sh, isCrLf c = true

/-- A line break went into a token: one that was returned, or the one that is scanned. -/
inductive Tainted (w : List UInt8) (h : HeadScan) (shapes : List Shape) : Prop
  | returned {sh : Shape} (mem : sh ∈ shapes) (broken : Broken w sh)
  | scanned (offset_eq : h.offset = w.length) (holds : holdsText h.ph = true) (typed : plainType h.type = true)
      (index_nonneg : 0 ≤ h.index) (index_le : h.index ≤ h.offset)
      (broken : ∃ c ∈ w.drop h.index.toNat, isCrLf c = true)

theorem leads_unique (leads : Leads c h h' new) (leads' : Leads c h h'' new') : h' = h'' ∧ new = new' := by
  obtain ⟨breaks, run, rfl⟩ := leads
  obtain ⟨breaks', run', rfl⟩ := leads'
  rw [run] at run'
  cases run'
  exact ⟨rfl, rfl⟩

theorem Broken.append {sh : Shape} (broken : Broken w sh) (v : List UInt8) : Broken (w ++ v) sh := by
  obtain ⟨inside, plain, found⟩ := broken
  refine ⟨inside.append v, plain, ?_⟩
  rw [inside.text_append]
  exact found

theorem broken_emit (offset : h.offset = w.length) (typed : plainType h.type = true) (nonneg : 0 ≤ h.index)
    (le : h.index ≤ h.offset) (found : ∃ c ∈ w.drop h.index.toNat, isCrLf c = true) (c : UInt8) :
    Broken (w ++ [c]) (h.type, h.index, h.offset - h.index) := by
  have inside : Inside w (h.type, h.index, h.offset - h.index) := ⟨nonneg, by dsimp only; omega, by dsimp only; omega⟩
  refine ⟨inside.append [c], typed, ?_⟩
  have whole : text w (h.type, h.index, h.offset - h.index) = w.drop h.index.toNat := by
    unfold text
    dsimp only
    exact List.take_of_length_le (by rw [List.length_drop]; omega)
  rw [inside.text_append, whole]
  exact found

theorem found_append {i : ℕ} (le : i ≤ w.length) (found : ∃ c ∈ w.drop i, isCrLf c = true) (v : List UInt8) :
    ∃ c ∈ (w ++ v).drop i, isCrLf c = true := by
  obtain ⟨d, mem, crLf⟩ := found
  rw [List.drop_append_of_le_length le]
  exact ⟨d, List.mem_append_left _ mem, crLf⟩

theorem Tainted.step (tainted : Tainted w h shapes) (live : isHead h.ph = true) (leads : Leads c h h' new) :
    h'.ph = .error ∨ Tainted (w ++ [c]) h' (shapes ++ new) := by
  cases tainted with
  | returned mem broken => exact .inr (.returned (List.mem_append_left _ mem) (broken.append [c]))
  | scanned offset holds typed nonneg le found =>
    have fails : phaseStep h.ph c.toNat = phaseError → h'.ph = .error := fun hs => by
      rw [(leads_unique leads (leads_error live hs)).1]
    have emits : ∀ ph, phaseStep h.ph c.toNat = (ph, [.emitToken]) → Tainted (w ++ [c]) h' (shapes ++ new) := by
      intro ph hs
      obtain ⟨rfl, rfl⟩ := leads_unique leads (.of_reads (reads_emit live hs))
      exact .returned (List.mem_append_right _ List.mem_cons_self) (broken_emit offset typed nonneg le found c)
    have counts : ∀ ph, phaseStep h.ph c.toNat = (ph, [.incCount]) → holdsText ph = true → ph ≠ .error →
        Tainted (w ++ [c]) h' (shapes ++ new) := by
      intro ph hs hold alive
      obtain ⟨n, counted⟩ := leads_count live hs alive
      obtain ⟨rfl, rfl⟩ := leads_unique leads counted
      refine .scanned ?_ hold typed nonneg (le.trans (by dsimp only; omega)) (found_append (by omega) found [c])
      rw [List.length_append]
      push_cast
      exact congrArg (· + 1) offset
    cases hph : h.ph <;> rw [hph] at holds <;> simp only [holdsText, Bool.false_eq_true] at holds
    case target =>
      by_cases space : c.toNat = 32
      · exact .inr (emits (.version 0) (by simp [hph, phaseStep, space]))
      · exact .inr (counts .target (by simp [hph, phaseStep, space]) rfl (by decide))
    case key =>
      by_cases colon : c.toNat = 58
      · exact .inr (emits .colon (by simp [hph, phaseStep, keyStep, colon]))
      by_cases token : isTokenChar c.toNat = true
      · exact .inr (counts .key (by simp [hph, phaseStep, keyStep, colon, token]) rfl (by decide))
      · exact .inl (fails (by simp [hph, phaseStep, keyStep, colon, token]))
    case value =>
      by_cases cr : c.toNat = 13
      · exact .inr (emits .valueLf (by simp [hph, phaseStep, cr]))
      by_cases lf : c.toNat = 10
      · exact .inl (fails (by simp [hph, phaseStep, lf]))
      · exact .inr (counts .value (by simp [hph, phaseStep, cr, lf]) rfl (by decide))

theorem stray_step (inv : CleanHead w h shapes) (live : isHead h.ph = true) (stray : stray h.ph c = true)
    (leads : Leads c h h' new) : h'.ph = .error ∨ Tainted (w ++ [c]) h' (shapes ++ new) := by
  have offset := inv.offset_eq
  have type := inv.type_eq
  have length : ((w ++ [c]).length : ℤ) = w.length + 1 := by simp
  -- the byte begins a token
  have enters : ∀ {ph : Phase} {as : List Action} {type : HshTokenE} {limit : ℤ}, phaseStep h.ph c.toNat = (ph, as) →
      (∀ c t, headMachine.runActs c as t = .fall { t.enter type limit with count := 1 }) → holdsText ph = true →
      plainType type = true → ph ≠ .error → isCrLf c = true → Tainted (w ++ [c]) h' (shapes ++ new) := by
    intro ph as type limit hs enters hold plain alive crLf
    obtain ⟨rfl, rfl⟩ := leads_unique leads (leads_enter live hs alive enters)
    refine .scanned (by dsimp only; omega) hold plain (by dsimp only; omega) (by dsimp only; omega) ⟨c, ?_, crLf⟩
    dsimp only
    rw [offset, Int.toNat_natCast, List.drop_left]
    exact List.mem_cons_self
  -- the byte goes on with the token
  have counts : ∀ {ph : Phase}, phaseStep h.ph c.toNat = (ph, [.incCount]) → holdsText ph = true →
      plainType h.type = true → ph ≠ .error → 0 ≤ h.index → h.index ≤ h.offset →
      (∃ d ∈ (w ++ [c]).drop h.index.toNat, isCrLf d = true) → Tainted (w ++ [c]) h' (shapes ++ new) := by
    intro ph hs hold plain alive nonneg le found
    obtain ⟨n, counted⟩ := leads_count live hs alive
    obtain ⟨rfl, rfl⟩ := leads_unique leads counted
    exact .scanned (by dsimp only; omega) hold plain nonneg (by dsimp only; omega) found
  have last : 0 ≤ h.index → h.index ≤ h.offset → isCrLf c = true → ∃ d ∈ (w ++ [c]).drop h.index.toNat, isCrLf d = true := by
    intro nonneg le crLf
    refine ⟨c, ?_, crLf⟩
    rw [List.drop_append_of_le_length (by omega)]
    exact List.mem_append_right _ List.mem_cons_self
  -- after a carriage return at the start of a token
  have carried : afterCr h.ph = true → 0 ≤ h.index ∧ h.index ≤ h.offset ∧ ∃ d ∈ w.drop h.index.toNat, isCrLf d = true := by
    intro after
    obtain ⟨index, cr⟩ := inv.lastCr after
    obtain ⟨front, rfl⟩ := List.getLast?_eq_some_iff.1 cr
    rw [List.length_append, List.length_singleton] at offset
    push_cast at offset
    refine ⟨by omega, by omega, 13, ?_, by decide⟩
    rw [show h.index.toNat = front.length by omega, List.drop_left]
    exact List.mem_cons_self
  have fails : phaseStep h.ph c.toNat = phaseError → h'.ph = .error := fun hs => by
    rw [(leads_unique leads (leads_error live hs)).1]
  have target := enters_count .target .target 1024 (by norm_num) (by norm_num) fun _ _ => rfl
  have value := enters_count .headerValue .headerValue 4096 (by norm_num) (by norm_num) fun _ _ => rfl
  have tokenChar : isCrLf c = true → isTokenChar c.toNat = true ∧ c.toNat ≠ 58 ∧ c.toNat ≠ 32 := by
    intro crLf
    simp only [isCrLf, Bool.or_eq_true, decide_eq_true_eq] at crLf
    rcases crLf with rfl | rfl <;> decide
  cases hph : h.ph <;> simp only [hph, HeadSoundness.stray, Bool.false_eq_true] at stray
  case targetFirst =>
    obtain ⟨-, -, space⟩ := tokenChar stray
    exact .inr (enters (show phaseStep h.ph c.toNat = (.target, [.target, .incCount]) by simp [hph, phaseStep, space])
      target rfl rfl (by decide) stray)
  case target =>
    obtain ⟨-, -, space⟩ := tokenChar stray
    have typed : h.type = .target := type _ (by rw [hph]; rfl)
    obtain ⟨nonneg, le, -⟩ := inv.current (by rw [hph]; rfl)
    exact .inr (counts (show phaseStep h.ph c.toNat = (.target, [.incCount]) by simp [hph, phaseStep, space]) rfl
      (by rw [typed]; rfl) (by decide) nonneg le (last nonneg le stray))
  case firstHeader =>
    obtain ⟨token, -, -⟩ := tokenChar stray
    exact .inr (enters (show phaseStep h.ph c.toNat = (.key, [.resetCount, .headerKey, .incCount]) by
      simp [hph, phaseStep, token]) (fun c t => (enters_key c t).1) rfl rfl (by decide) stray)
  case key =>
    obtain ⟨token, colon, -⟩ := tokenChar stray
    have typed : h.type = .headerKey := type _ (by rw [hph]; rfl)
    obtain ⟨nonneg, le, -⟩ := inv.current (by rw [hph]; rfl)
    exact .inr (counts (show phaseStep h.ph c.toNat = (.key, [.incCount]) by
      simp [hph, phaseStep, keyStep, colon, token]) rfl (by rw [typed]; rfl) (by decide) nonneg le (last nonneg le stray))
  case nextHeader =>
    have lf : c = 10 := of_decide_eq_true stray
    subst lf
    exact .inr (enters (show phaseStep h.ph (10 : UInt8).toNat = (.key, [.headerKey, .resetCount, .incCount]) by
      rw [hph]; rfl) (fun c t => (enters_key c t).2) rfl rfl (by decide) (by decide))
  case ows =>
    have lf : c = 10 := of_decide_eq_true stray
    subst lf
    exact .inr (enters (show phaseStep h.ph (10 : UInt8).toNat = (.value, [.headerValue, .incCount]) by rw [hph]; rfl)
      value rfl rfl (by decide) (by decide))
  case finalCr =>
    obtain ⟨nonneg, le, found⟩ := carried (by rw [hph]; rfl)
    have typed : h.type = .headerKey := type _ (by rw [hph]; rfl)
    simp only [Bool.and_eq_true, decide_eq_true_eq] at stray
    have lf : c.toNat ≠ 10 := toNat_ne stray.1 rfl
    have hs : phaseStep h.ph c.toNat = keyStep c.toNat := by
      rw [hph]
      exact if_neg lf
    by_cases colon : c.toNat = 58
    · obtain ⟨rfl, rfl⟩ := leads_unique leads (.of_reads (reads_emit live
        (show phaseStep h.ph c.toNat = (.colon, [.emitToken]) by rw [hs]; exact if_pos colon)))
      exact .inr (.returned (List.mem_append_right _ List.mem_cons_self)
        (broken_emit offset (by rw [typed]; rfl) nonneg le found c))
    by_cases token : isTokenChar c.toNat = true
    · exact .inr (counts (show phaseStep h.ph c.toNat = (.key, [.incCount]) by rw [hs]; simp [keyStep, colon, token]) rfl
        (by rw [typed]; rfl) (by decide) nonneg le (found_append (by omega) found [c]))
    · exact .inl (fails (by rw [hs]; simp [keyStep, colon, token]))
  case valueCr =>
    obtain ⟨nonneg, le, found⟩ := carried (by rw [hph]; rfl)
    have typed : h.type = .headerValue := type _ (by rw [hph]; rfl)
    have lf : c.toNat ≠ 10 := toNat_ne (of_decide_eq_true stray) rfl
    by_cases cr : c.toNat = 13
    · obtain ⟨rfl, rfl⟩ := leads_unique leads (.of_reads (reads_emit live
        (show phaseStep h.ph c.toNat = (.valueLf, [.emitToken]) by simp [hph, phaseStep, cr])))
      exact .inr (.returned (List.mem_append_right _ List.mem_cons_self)
        (broken_emit offset (by rw [typed]; rfl) nonneg le found c))
    · exact .inr (counts (show phaseStep h.ph c.toNat = (.value, [.incCount]) by simp [hph, phaseStep, cr, lf]) rfl
        (by rw [typed]; rfl) (by decide) nonneg le (found_append (by omega) found [c]))
  case headersDone =>
    rw [hph] at live
    cases live

end Heads

section Runs

variable {w v left : List UInt8} {h h' t : HeadScan} {shapes : List Shape} {c : UInt8} {breaks : List (Option Shape)}

/-- The byte of a head is not stray. -/
def Clean (ph : Phase) (c : UInt8) : Prop := isHead ph = true → stray ph c = false

theorem headRun_cons (run : headRun (c :: v) h = some (h', breaks)) :
    ∃ t b b', headRun [c] h = some (t, b) ∧ headRun v t = some (h', b') ∧ breaks = b ++ b' := by
  rw [← List.singleton_append, headRun_append] at run
  obtain ⟨⟨t, b⟩, first, rest⟩ := Option.bind_eq_some_iff.1 run
  obtain ⟨⟨u, b'⟩, second, heq⟩ := Option.map_eq_some_iff.1 rest
  cases heq
  exact ⟨t, b, b', first, second, rfl⟩

theorem headRunOk_cons {P : Phase → UInt8 → Prop} {b : List (Option Shape)} (run : headRun [c] h = some (t, b)) :
    HeadRunOk P (c :: v) h ↔ P h.ph c ∧ HeadRunOk P v t := by
  rw [HeadRunOk]
  refine and_congr_right fun _ => ?_
  rw [headRun] at run
  cases hs : headStep c h with
  | fault => rw [hs] at run; cases run
  | fall u =>
    rw [hs] at run
    obtain ⟨rfl, -⟩ := headRun_nil run
    exact Iff.rfl
  | out u =>
    rw [hs] at run
    obtain ⟨r, hr, heq⟩ := Option.map_eq_some_iff.1 run
    cases heq
    have same : r.1 = { u with emitted := none } := (headRun_nil hr).1
    rw [same]

theorem headRun_clean (inv : CleanHead w h shapes) (run : headRun v h = some (h', breaks)) (clean : HeadRunOk Clean v h) :
    CleanHead (w ++ v) h' (shapes ++ breaks.reduceOption) := by
  induction v generalizing w h shapes breaks with
  | nil =>
    obtain ⟨rfl, rfl⟩ := headRun_nil run
    simpa [List.reduceOption] using inv
  | cons c v ih =>
    have live := headRun_live run
    obtain ⟨t, b, b', first, rest, rfl⟩ := headRun_cons run
    obtain ⟨here, later⟩ := (headRunOk_cons first).1 clean
    obtain ⟨u, new, leads, next⟩ := inv.step live (here live)
    obtain ⟨rfl, rfl⟩ := leads_unique leads ⟨b, first, rfl⟩
    rw [List.reduceOption_append, ← List.append_assoc, ← List.singleton_append, ← List.append_assoc]
    exact ih next rest later

theorem headRun_tainted (tainted : h.ph = .error ∨ Tainted w h shapes) (run : headRun v h = some (h', breaks)) :
    h'.ph = .error ∨ Tainted (w ++ v) h' (shapes ++ breaks.reduceOption) := by
  induction v generalizing w h shapes breaks with
  | nil =>
    obtain ⟨rfl, rfl⟩ := headRun_nil run
    simpa [List.reduceOption] using tainted
  | cons c v ih =>
    have live := headRun_live run
    obtain ⟨t, b, b', first, rest, rfl⟩ := headRun_cons run
    have tainted := tainted.resolve_left fun error => by
      rw [error] at live
      cases live
    rw [List.reduceOption_append, ← List.append_assoc, ← List.singleton_append, ← List.append_assoc]
    exact ih (tainted.step live ⟨b, first, rfl⟩) rest

theorem headRun_stray (inv : CleanHead w h shapes) (run : headRun v h = some (h', breaks)) (dirty : ¬ HeadRunOk Clean v h) :
    h'.ph = .error ∨ Tainted (w ++ v) h' (shapes ++ breaks.reduceOption) := by
  induction v generalizing w h shapes breaks with
  | nil => exact absurd trivial dirty
  | cons c v ih =>
    have live := headRun_live run
    obtain ⟨t, b, b', first, rest, rfl⟩ := headRun_cons run
    rw [List.reduceOption_append, ← List.append_assoc, ← List.singleton_append, ← List.append_assoc]
    by_cases here : stray h.ph c = true
    · exact headRun_tainted (stray_step inv live here ⟨b, first, rfl⟩) rest
    · have here := eq_false_of_ne_true here
      obtain ⟨u, new, leads, next⟩ := inv.step live here
      obtain ⟨rfl, rfl⟩ := leads_unique leads ⟨b, first, rfl⟩
      exact ih next rest fun later => dirty ((headRunOk_cons first).2 ⟨fun _ => here, later⟩)

/-- The tokens of a head as they should be. -/
structure SoundShapes (w : List UInt8) (shapes : List Shape) : Prop where
  types : ∃ n, shapes.map Prod.fst = requestLine ++ pairs (n + 1) ++ [.headersDone]
  plain : ∀ sh ∈ shapes, plainType sh.1 = true → ∀ c ∈ text w sh, isCrLf c = false

/-- No byte of the head is stray. What follows the head does not count. -/
def StrayFree (input : List UInt8) : Prop := HeadRunOk Clean input {}

theorem headRunOk_ended (ended : h.ph = .headersDone) : HeadRunOk Clean v h := by
  cases v with
  | nil => trivial
  | cons c v =>
    have dead : isHead h.ph = false := by rw [ended]; rfl
    have fault : headStep c h = .fault := if_neg (by rw [dead]; decide)
    rw [HeadRunOk, fault]
    exact ⟨fun live => absurd (dead.symm.trans live) (by decide), trivial⟩

theorem headRunOk_front (run : headRun w h = some (h', breaks)) (clean : HeadRunOk Clean (w ++ v) h) :
    HeadRunOk Clean w h := by
  induction w generalizing h breaks with
  | nil => trivial
  | cons c w ih =>
    obtain ⟨t, b, b', first, rest, -⟩ := headRun_cons run
    obtain ⟨here, later⟩ := (headRunOk_cons first).1 clean
    exact (headRunOk_cons first).2 ⟨here, ih rest later⟩

/-- The tokens of an accepted head are as they should be just when no byte of it is stray. -/
theorem sound_iff_strayFree (accepted : AcceptedHead w) : SoundShapes w (headShapes w) ↔ StrayFree (w ++ left) := by
  obtain ⟨h, breaks, run, done⟩ := accepted
  rw [headShapes_of_run run]
  constructor
  · intro sound
    refine headRunOk_append run ?_ (headRunOk_ended done)
    by_contra dirty
    rcases headRun_stray .init run dirty with error | tainted
    · rw [done] at error
      cases error
    · cases tainted with
      | returned mem broken =>
        obtain ⟨-, plain, c, hc, crLf⟩ := broken
        exact absurd ((sound.plain _ (by simpa using mem) plain c hc).symm.trans crLf) (by decide)
      | scanned _ holds =>
        rw [done] at holds
        cases holds
  · intro clean
    have inv := headRun_clean .init run (headRunOk_front run clean)
    rw [List.nil_append, List.nil_append] at inv
    have form := inv.form
    rw [done] at form
    exact ⟨form, fun sh mem plain => (inv.texts sh mem plain).2.2.2⟩

end Runs

/-- What the handler should find: a request line, names and values in turn, the end of the head and maybe a body,
    and no line break in a target, a name or a value. -/
structure SoundHead (request : HttpRequestS) : Prop where
  types : ∃ n bodies, request.tokens.map HshTokenS.type = requestLine ++ pairs (n + 1) ++ [.headersDone] ++ bodies ∧
    (bodies = [] ∨ bodies = [.body])
  plain : ∀ token ∈ request.tokens, plainType token.type = true →
    ∀ c ∈ slice request.buffer.data token.index token.len.toNat, isCrLf c = false

section Requests

variable {cfg : Config} {c c' : Conn} {l : Label} {request : HttpRequestS} {serial : ℕ} {w input : List UInt8}
  {max : ℤ}

theorem slice_text {data : ℤ → UInt8} {sh : Shape} (front : slice data 0 w.length = w) (inside : Inside w sh) :
    slice data sh.2.1 sh.2.2.toNat = text w sh := by
  obtain ⟨lo, len, hi⟩ := inside
  unfold text
  conv_rhs => rw [← front]
  rw [slice_drop _ _ _ _ (by omega), slice_take _ _ (by omega), zero_add, Int.toNat_of_nonneg lo]

theorem pairs_lines (n : ℕ) : ∀ type ∈ pairs n, type ≠ .body ∧ type ≠ .headersDone := by
  induction n with
  | zero => exact fun _ h => absurd h List.not_mem_nil
  | succ n ih =>
    intro type mem
    rw [pairs] at mem
    rcases List.mem_cons.1 mem with rfl | mem
    · decide
    rcases List.mem_cons.1 mem with rfl | mem
    · decide
    · exact ih type mem

theorem filter_types (n : ℕ) {bodies : List HshTokenE} (only : bodies = [] ∨ bodies = [HshTokenE.body]) :
    (requestLine ++ pairs (n + 1) ++ [HshTokenE.headersDone] ++ bodies).filter (fun type => type ≠ .body) =
      requestLine ++ pairs (n + 1) ++ [HshTokenE.headersDone] := by
  have line : (pairs (n + 1)).filter (fun type => type ≠ .body) = pairs (n + 1) :=
    List.filter_eq_self.2 fun type mem => decide_eq_true (pairs_lines _ type mem).1
  rw [List.filter_append, List.filter_append, List.filter_append, line]
  rcases only with rfl | rfl <;> simp [requestLine]

theorem lines_types (tokens : List HshTokenS) :
    (lines tokens).map HshTokenS.type = (tokens.map HshTokenS.type).filter (fun type => type ≠ .body) := by
  rw [List.filter_map]
  rfl

/-- The tokens that the handler finds are as they should be just when those of the head are. -/
theorem soundHead_iff (past : Past max input request.tokens request.parser request.buffer w)
    (bodies : ∃ bodies, request.tokens = lines request.tokens ++ bodies ∧
      (bodies.map HshTokenS.type = [] ∨ bodies.map HshTokenS.type = [.body])) :
    SoundHead request ↔ SoundShapes w (headShapes w) := by
  obtain ⟨h, breaks, run, -, shapes⟩ := past.behind.accepts.run
  rw [← headShapes_of_run run] at shapes
  have types : (headShapes w).map Prod.fst = (lines request.tokens).map HshTokenS.type := by
    rw [← shapes, List.map_map]
    rfl
  -- the texts are the same in the buffer and in the head
  have same : ∀ token ∈ lines request.tokens,
      slice request.buffer.data token.index token.len.toNat = text w (shape token) := fun token mem =>
    slice_text past.front.text (past.accepted.inside (shapes ▸ List.mem_map_of_mem mem))
  constructor
  · rintro ⟨⟨n, more, all, only⟩, plain⟩
    refine ⟨⟨n, ?_⟩, fun sh mem typed => ?_⟩
    · rw [types, lines_types, all, filter_types n only]
    · rw [← shapes] at mem
      obtain ⟨token, ht, rfl⟩ := List.mem_map.1 mem
      rw [← same token ht]
      exact plain token (List.mem_filter.1 ht).1 typed
  · rintro ⟨⟨n, form⟩, plain⟩
    obtain ⟨more, split, only⟩ := bodies
    refine ⟨⟨n, more.map HshTokenS.type, ?_, only⟩, fun token mem typed => ?_⟩
    · rw [split, List.map_append, ← types, form]
    · have line : token ∈ lines request.tokens := by
        refine List.mem_filter.2 ⟨mem, decide_eq_true fun body => ?_⟩
        rw [body] at typed
        cases typed
      rw [same token line]
      exact plain (shape token) (shapes ▸ List.mem_map_of_mem line) typed

theorem SoundHead.ends_eq (h : SoundHead request) : ends request.tokens = 1 := by
  obtain ⟨n, bodies, all, only⟩ := h.types
  have count : ends request.tokens = (request.tokens.map HshTokenS.type).count HshTokenE.headersDone := by
    unfold ends List.count
    rw [List.countP_map]
    exact List.countP_congr fun token _ => by simp
  have none : (pairs (n + 1)).count HshTokenE.headersDone = 0 :=
    List.count_eq_zero.2 fun mem => (pairs_lines _ _ mem).2 rfl
  rw [count, all, List.count_append, List.count_append, List.count_append, none]
  rcases only with rfl | rfl <;> rfl

/-- In every run in which user code calls only while it has something to answer: what the handler finds is as it
    should be just when it is called for the first time and no byte of the head is stray. -/
theorem handler_soundHead (run : Runs.Reached (Connection.step cfg) Accepted Asked c)
    (hs : Connection.step cfg c l = some c') (called : .invoke serial .requestHandler request ∈ since c c') :
    SoundHead request ↔ handlerCalled c.events = false ∧ StrayFree (receivedBytes c.events) := by
  have course := course_reached run
  have handler : ∀ {more : List Event}, handlerCalled more = false → .invoke serial .requestHandler request ∉ more := by
    intro more quiet mem
    exact absurd (quiet.symm.trans (List.any_eq_true.2 ⟨_, mem, rfl⟩)) (by decide)
  cases move_effect (step_move hs) with
  | same _ _ quiet =>
    obtain ⟨more, events, silent⟩ := quiet
    rw [since_append events] at called
    exact absurd called (handler silent)
  | exec _ _ _ _ _ _ quiet =>
    obtain ⟨more, events, silent⟩ := quiet
    rw [since_append events] at called
    exact absurd called (handler silent)
  | @handler blk token parser buffer stack hstack hr parser_eq live tokens buffer_eq starts events =>
    rw [since_append events] at called
    obtain ⟨-, rfl⟩ : serial = c.serial ∧ request = c'.request := by simpa using called
    have typed : token.type ≠ .none := by
      rcases starts with ⟨typed, -⟩ | ⟨typed, -⟩ <;> rw [typed] <;> decide
    by_cases again : handlerCalled c.events = true
    · refine ⟨fun sound => ?_, fun h => absurd (h.1.symm.trans again) (by decide)⟩
      have live : c.live = true := ((steady_reached run).library hstack rfl).live
      have ended := course.behind again live
      have whole := ((course.mode.exec hr).2.2 ended).2
      have one := sound.ends_eq
      have before := ended.one
      rw [tokens, ends_append] at one
      rcases starts with ⟨typed, -⟩ | starts
      · have last : ends [token] = 1 := by simp [ends, typed]
        omega
      · have := whole starts
        omega
    · have first := eq_false_of_ne_true again
      have unhandled := course.before first
      obtain ⟨w, past⟩ := (unhandled.first.exec unhandled.session.steady hstack unhandled.session.buffered
        unhandled.goesOn hr).2.2.2.2.2 (.inl (starts.imp And.left And.left))
      rw [emitted_of_type typed, ← tokens, ← buffer_eq, ← parser_eq] at past
      obtain ⟨left, received⟩ := past.behind.prefix_eq
      rw [soundHead_iff past ?_, @sound_iff_strayFree _ left past.accepted, received]
      · exact ⟨fun clean => ⟨first, clean⟩, And.right⟩
      · rw [tokens, lines_append, unhandled.noBodies]
        rcases starts with ⟨typed, -⟩ | ⟨typed, -⟩
        · exact ⟨[], by simp [lines, typed], .inl rfl⟩
        · exact ⟨[token], by simp [lines, typed], .inr (by simp [typed])⟩

/-- A request as it should be. -/
theorem handler_soundHead_get : ∃ (c c' : Conn) (serial : ℕ) (request : HttpRequestS),
    .invoke serial .requestHandler request ∈ since c c' ∧
      (SoundHead request ↔ handlerCalled c.events = false ∧ StrayFree (receivedBytes c.events)) := by
  have run : ((Runs.exec (Runs.guarded (Connection.step {}) Asked) (reads (ascii "GET / HTTP/1.1\r\nA: b\r\n\r\n") :: execs 5)
      accepted).any fun c => (Connection.step {} c (.exec sessionBlock sessionEnv)).any fun c' =>
        handlerCalled (since c c')) = true := by
    decide +kernel
  obtain ⟨c, hc, next⟩ := (Option.any_eq_true _ _).1 run
  obtain ⟨c', hs, called⟩ := (Option.any_eq_true _ _).1 next
  obtain ⟨event, mem, handler⟩ := List.any_eq_true.1 called
  have reached : Runs.Reached (Connection.step {}) Accepted Asked c := .guarded (.init accepted_accepted) hc
  cases event with
  | invoke serial cb request =>
    cases cb with
    | requestHandler => exact ⟨c, c', serial, request, mem, handler_soundHead reached hs mem⟩
    | chunkCb => cases handler
  | _ => cases handler

/-- The handler finds a line break in a token of the first request. -/
def findsLineBreak : Event → Bool
  | .invoke serial .requestHandler request => serial = 1 && request.tokens.any fun token => plainType token.type &&
      (slice request.buffer.data token.index token.len.toNat).any isCrLf
  | _ => false

/-- A line feed as the target of the first request of a connection. -/
theorem handler_lineFeed : ∃ (c c' : Conn) (request : HttpRequestS), Runs.Reached (Connection.step {}) Accepted Asked c ∧
    Connection.step {} c (.exec sessionBlock sessionEnv) = some c' ∧
    .invoke 1 .requestHandler request ∈ since c c' ∧ handlerCalled c.events = false ∧ ¬ SoundHead request := by
  have run : ((Runs.exec (Runs.guarded (Connection.step {}) Asked) (reads (ascii "GET \n HTTP/1.1\r\nA: b\r\n\r\n") :: execs 5)
      accepted).any fun c => !handlerCalled c.events && (Connection.step {} c (.exec sessionBlock sessionEnv)).any fun c' =>
        (since c c').any findsLineBreak) = true := by
    decide +kernel
  obtain ⟨c, hc, next⟩ := (Option.any_eq_true _ _).1 run
  obtain ⟨first, next⟩ := Bool.and_eq_true_iff.1 next
  obtain ⟨c', hs, called⟩ := (Option.any_eq_true _ _).1 next
  obtain ⟨event, mem, handler⟩ := List.any_eq_true.1 called
  have reached : Runs.Reached (Connection.step {}) Accepted Asked c := .guarded (.init accepted_accepted) hc
  cases event with
  | invoke serial cb request =>
    cases cb with
    | requestHandler =>
      obtain ⟨one, handler⟩ := Bool.and_eq_true_iff.1 handler
      obtain rfl : serial = 1 := of_decide_eq_true one
      obtain ⟨token, ht, broken⟩ := List.any_eq_true.1 handler
      obtain ⟨typed, broken⟩ := Bool.and_eq_true_iff.1 broken
      obtain ⟨d, hd, crLf⟩ := List.any_eq_true.1 broken
      refine ⟨c, c', request, reached, hs, mem, by simpa using first, fun sound => ?_⟩
      exact absurd ((sound.plain token ht typed d hd).symm.trans crLf) (by decide)
    | chunkCb => cases handler
  | _ => cases handler

end Requests

end HttpServer.LineBreaks
