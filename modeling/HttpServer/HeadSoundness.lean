import HttpServer.BodyPhases
import HttpServer.HeadGrammar

set_option autoImplicit false

/-!
# The tokens of an accepted head

Unless a line break is scanned inside a target, a header name or a header value, the tokens of a
head are a request line and alternating names and values, and these hold no line break.
-/
namespace HttpServer.HeadSoundness
open MachineInt Scanner ParserTables ParserGrammar HttpServer.Parser ReadBuffer ParserInvariant
  ParserRuns HeadMachine HeadGrammar BodyPhases

def requestLine : List HshTokenE := [.method, .target, .version]

def pairs : ℕ → List HshTokenE
  | 0 => []
  | n + 1 => .headerKey :: .headerValue :: pairs n

/-- The types of the tokens returned before a phase. -/
def HeadForm (ph : Phase) (types : List HshTokenE) : Prop :=
  match ph with
  | .methodFirst | .method => types = []
  | .targetFirst | .target => types = [.method]
  | .version i => types = if i < 9 then [.method, .target] else requestLine
  | .firstHeader => types = requestLine
  | .key => ∃ n, types = requestLine ++ pairs n
  | .colon | .ows | .value => ∃ n, types = requestLine ++ pairs n ++ [.headerKey]
  | .valueCr | .valueLf | .nextHeader | .finalCr => ∃ n, types = requestLine ++ pairs (n + 1)
  | .headersDone => ∃ n, types = requestLine ++ pairs (n + 1) ++ [.headersDone]
  | _ => True

/-- The type of the token that is being scanned. -/
def scanned : Phase → Option HshTokenE
  | .method => some .method
  | .target => some .target
  | .version i => if i = 0 then none else some .version
  | .key | .finalCr => some .headerKey
  | .value | .valueCr => some .headerValue
  | _ => none

/-- The phases inside a token that should be free of line breaks. -/
def holdsText : Phase → Bool
  | .target | .key | .value => true
  | _ => false

/-- The phases after a carriage return that is the first byte of a token. -/
def afterCr : Phase → Bool
  | .finalCr | .valueCr => true
  | _ => false

/-- The bytes that go into a token and should not: a line break, or a byte after the head. -/
def stray (ph : Phase) (c : UInt8) : Bool :=
  match ph with
  | .targetFirst | .target | .firstHeader | .key => isCrLf c
  | .nextHeader | .ows => c = 10
  | .finalCr => c ≠ 10 && (keyStep c.toNat).1 ≠ .error
  | .valueCr => c ≠ 10
  | .headersDone => (keyStep c.toNat).1 ≠ .error
  | _ => false

def plainType : HshTokenE → Bool
  | .target | .headerKey | .headerValue => true
  | _ => false

def text (w : List UInt8) (sh : Shape) : List UInt8 := (w.drop sh.2.1.toNat).take sh.2.2.toNat

def PlainToken (w : List UInt8) (sh : Shape) : Prop :=
  plainType sh.1 = true → 0 ≤ sh.2.1 ∧ 0 ≤ sh.2.2 ∧ sh.2.1 + sh.2.2 ≤ w.length ∧
    ∀ c ∈ text w sh, isCrLf c = false

theorem pairs_succ (n : ℕ) : pairs (n + 1) = pairs n ++ [.headerKey, .headerValue] := by
  induction n with
  | zero => rfl
  | succ n ih =>
    change HshTokenE.headerKey :: .headerValue :: pairs (n + 1) =
      .headerKey :: .headerValue :: (pairs n ++ [.headerKey, .headerValue])
    rw [ih]

theorem text_append {w : List UInt8} {sh : Shape} (nonneg : 0 ≤ sh.2.1) (nonneg' : 0 ≤ sh.2.2)
    (le : sh.2.1 + sh.2.2 ≤ w.length) (v : List UInt8) : text (w ++ v) sh = text w sh := by
  rw [text, text, List.drop_append_of_le_length (by omega), List.take_append_of_le_length]
  rw [List.length_drop]
  omega

theorem PlainToken.append {w : List UInt8} {sh : Shape} (h : PlainToken w sh) (v : List UInt8) :
    PlainToken (w ++ v) sh := by
  intro hp
  obtain ⟨lo, len, hi, free⟩ := h hp
  refine ⟨lo, len, by rw [List.length_append]; push_cast; omega, ?_⟩
  rw [text_append lo len hi]
  exact free

/-- After the bytes `w` of a head, of which none was stray. -/
structure CleanHead (w : List UInt8) (h : HeadScan) (shapes : List Shape) : Prop where
  offset_eq : h.offset = w.length
  silent : h.emitted = none
  form : HeadForm h.ph (shapes.map Prod.fst)
  type_eq : ∀ t, scanned h.ph = some t → h.type = t
  texts : ∀ sh ∈ shapes, PlainToken w sh
  current : holdsText h.ph = true → 0 ≤ h.index ∧ h.index ≤ h.offset ∧
    ∀ c ∈ w.drop h.index.toNat, isCrLf c = false
  counted : h.ph = .finalCr → h.count = 1 ∧ h.limit = 256
  lastCr : afterCr h.ph = true → h.index = h.offset - 1 ∧ w.getLast? = some 13

section Step

variable {w : List UInt8} {h t : HeadScan} {shapes new : List Shape} {c : UInt8} {ph : Phase}
  {as : List Action}

theorem CleanHead.init : CleanHead [] {} [] :=
  ⟨rfl, rfl, rfl, nofun, nofun, nofun, nofun, nofun⟩

theorem CleanHead.extend (inv : CleanHead w h shapes) (offset : t.offset = h.offset + 1)
    (silent : t.emitted = none) (form : HeadForm t.ph ((shapes ++ new).map Prod.fst))
    (type : ∀ ty, scanned t.ph = some ty → t.type = ty) (texts : ∀ sh ∈ new, PlainToken (w ++ [c]) sh)
    (current : holdsText t.ph = true → isCrLf c = false ∧
      (t.index = h.offset ∨ holdsText h.ph = true ∧ t.index = h.index))
    (counted : t.ph = .finalCr → t.count = 1 ∧ t.limit = 256)
    (lastCr : afterCr t.ph = true → t.index = h.offset ∧ c = 13) :
    CleanHead (w ++ [c]) t (shapes ++ new) := by
  have length : h.offset = w.length := inv.offset_eq
  refine ⟨?_, silent, form, type, ?_, ?_, counted, fun after => ?_⟩
  · rw [offset, length, List.length_append, List.length_singleton]
    push_cast
    rfl
  · intro sh hsh
    rcases List.mem_append.1 hsh with hsh | hsh
    · exact (inv.texts sh hsh).append [c]
    · exact texts sh hsh
  · intro hold
    obtain ⟨free, hindex | ⟨hold', hindex⟩⟩ := current hold
    · refine ⟨by omega, by omega, ?_⟩
      rw [hindex, length, Int.toNat_natCast, List.drop_left]
      intro d hd
      rw [List.mem_singleton.1 hd]
      exact free
    · obtain ⟨lo, hi, all⟩ := inv.current hold'
      refine ⟨by omega, by omega, ?_⟩
      rw [hindex, List.drop_append_of_le_length (by omega)]
      intro d hd
      rcases List.mem_append.1 hd with hd | hd
      · exact all d hd
      · rw [List.mem_singleton.1 hd]
        exact free
  · obtain ⟨index, cr⟩ := lastCr after
    exact ⟨by omega, by rw [List.getLast?_concat, cr]⟩

theorem CleanHead.token (inv : CleanHead w h shapes) (hold : holdsText h.ph = true) :
    PlainToken (w ++ [c]) (h.type, h.index, h.offset - h.index) := by
  intro _
  obtain ⟨lo, hi, all⟩ := inv.current hold
  have length := inv.offset_eq
  refine ⟨lo, by dsimp only; omega, by rw [List.length_append]; push_cast; omega, ?_⟩
  intro d hd
  rw [text_append lo (by dsimp only; omega) (by dsimp only; omega)] at hd
  exact all d (List.mem_of_mem_take hd)

/-- Where a byte of a head leads and what it emits. -/
def Leads (c : UInt8) (h h' : HeadScan) (new : List Shape) : Prop :=
  ∃ breaks, headRun [c] h = some (h', breaks) ∧ breaks.reduceOption = new

theorem Leads.of_reads (reads : Reads [c] h new t) : Leads c h t new :=
  ⟨_, reads, by simp [List.reduceOption]⟩

theorem leads_error (live : isHead h.ph = true) (hs : phaseStep h.ph c.toNat = phaseError) :
    Leads c h { h with ph := .error, offset := h.offset + 1, emitted := none } [] :=
  ⟨_, headRun_acts_out live hs rfl, rfl⟩

theorem leads_count (live : isHead h.ph = true) (hs : phaseStep h.ph c.toNat = (ph, [.incCount]))
    (hne : ph ≠ .error) : ∃ n, Leads c h { h with
      ph := ph, count := n, offset := h.offset + 1, emitted := none } [] := by
  refine ⟨wrap16 (h.count + 1), ?_⟩
  by_cases exceeds : wrap16 (h.count + 1) > h.limit
  · have act : headMachine.act .incCount c { h with ph := ph, emitted := none } = .out
        (HeadScan.next { h with ph := ph, emitted := none, count := wrap16 (h.count + 1) }) :=
      if_pos exceeds
    exact ⟨_, headRun_acts_out live hs (Machine.runActs_out _ act _), rfl⟩
  · have act : headMachine.act .incCount c { h with ph := ph, emitted := none } = .fall
        { h with ph := ph, emitted := none, count := wrap16 (h.count + 1) } :=
      if_neg exceeds
    exact .of_reads (reads_acts live hs
      (t := { h with ph := ph, emitted := none, count := wrap16 (h.count + 1) })
      (by rw [Machine.runActs_fall _ act]; rfl) hne)

theorem leads_enter {type : HshTokenE} {limit : ℤ} (live : isHead h.ph = true)
    (hs : phaseStep h.ph c.toNat = (ph, as)) (hne : ph ≠ .error)
    (enters : ∀ c t, headMachine.runActs c as t = .fall { t.enter type limit with count := 1 }) :
    Leads c h ⟨ph, type, h.offset, 1, limit, h.offset + 1, none⟩ [] :=
  .of_reads (reads_acts live hs (enters c _) hne)

theorem not_finalCr (h : afterCr ph = false) : ph ≠ .finalCr := by
  rintro rfl
  cases h

theorem CleanHead.fail (inv : CleanHead w h shapes) (live : isHead h.ph = true)
    (hs : phaseStep h.ph c.toNat = phaseError) :
    ∃ h' new, Leads c h h' new ∧ CleanHead (w ++ [c]) h' (shapes ++ new) :=
  ⟨_, [], leads_error live hs, inv.extend rfl rfl trivial nofun nofun nofun nofun nofun⟩

theorem CleanHead.count (inv : CleanHead w h shapes) (live : isHead h.ph = true)
    (hs : phaseStep h.ph c.toNat = (ph, [.incCount])) (hne : ph ≠ .error)
    (form : HeadForm ph (shapes.map Prod.fst)) (type : ∀ ty, scanned ph = some ty → h.type = ty)
    (current : holdsText ph = true → isCrLf c = false ∧ holdsText h.ph = true)
    (notCr : afterCr ph = false) :
    ∃ h' new, Leads c h h' new ∧ CleanHead (w ++ [c]) h' (shapes ++ new) := by
  obtain ⟨n, leads⟩ := leads_count live hs hne
  refine ⟨_, [], leads, inv.extend rfl rfl (by simpa using form) type nofun
    (fun hold => ⟨(current hold).1, .inr ⟨(current hold).2, rfl⟩⟩) (fun h => absurd h (not_finalCr notCr))
    fun after => absurd (notCr.symm.trans after) (by decide)⟩

theorem CleanHead.enter {type : HshTokenE} {limit : ℤ} (inv : CleanHead w h shapes)
    (live : isHead h.ph = true) (hs : phaseStep h.ph c.toNat = (ph, as)) (hne : ph ≠ .error)
    (enters : ∀ c t, headMachine.runActs c as t = .fall { t.enter type limit with count := 1 })
    (form : HeadForm ph (shapes.map Prod.fst)) (types : ∀ ty, scanned ph = some ty → type = ty)
    (current : holdsText ph = true → isCrLf c = false) (counted : ph = .finalCr → limit = 256)
    (cr : afterCr ph = true → c = 13) :
    ∃ h' new, Leads c h h' new ∧ CleanHead (w ++ [c]) h' (shapes ++ new) :=
  ⟨_, [], leads_enter live hs hne enters, inv.extend rfl rfl (by simpa using form) types nofun
    (fun hold => ⟨current hold, .inl rfl⟩) (fun h => ⟨rfl, counted h⟩) fun after => ⟨rfl, cr after⟩⟩

theorem CleanHead.emit (inv : CleanHead w h shapes) (live : isHead h.ph = true)
    (hs : phaseStep h.ph c.toNat = (ph, [.emitToken]))
    (form : HeadForm ph (shapes.map Prod.fst ++ [h.type])) (type : scanned ph = none ∨ scanned ph = some h.type)
    (text : PlainToken (w ++ [c]) (h.type, h.index, h.offset - h.index))
    (current : holdsText ph = false) (notCr : afterCr ph = false) :
    ∃ h' new, Leads c h h' new ∧ CleanHead (w ++ [c]) h' (shapes ++ new) := by
  refine ⟨_, _, .of_reads (reads_emit live hs), inv.extend rfl rfl (by simpa using form) ?_ ?_ ?_
    (fun h => absurd h (not_finalCr notCr)) fun after => absurd (notCr.symm.trans after) (by decide)⟩
  · intro ty hty
    rcases type with hn | hn
    · rw [hn] at hty
      cases hty
    · rw [hn] at hty
      exact Option.some.inj hty
  · intro sh hsh
    rw [List.mem_singleton.1 hsh]
    exact text
  · intro hold
    rw [current] at hold
    cases hold

theorem CleanHead.pass (inv : CleanHead w h shapes) (live : isHead h.ph = true)
    (hs : phaseStep h.ph c.toNat = (ph, [])) (hne : ph ≠ .error)
    (form : HeadForm ph (shapes.map Prod.fst)) (type : ∀ ty, scanned ph = some ty → h.type = ty)
    (current : holdsText ph = false) (notCr : afterCr ph = false) :
    ∃ h' new, Leads c h h' new ∧ CleanHead (w ++ [c]) h' (shapes ++ new) := by
  refine ⟨_, [], .of_reads (reads_pass live hs hne), inv.extend rfl rfl (by simpa using form) type
    nofun ?_ (fun h => absurd h (not_finalCr notCr)) fun after => absurd (notCr.symm.trans after) (by decide)⟩
  intro hold
  rw [current] at hold
  cases hold

theorem isCrLf_iff : isCrLf c = false ↔ c.toNat ≠ 13 ∧ c.toNat ≠ 10 := by
  refine ⟨not_crLf, fun h => ?_⟩
  simp only [isCrLf, Bool.or_eq_false_iff, decide_eq_false_iff_not]
  exact ⟨fun he => h.1 (by rw [he]; rfl), fun he => h.2 (by rw [he]; rfl)⟩

theorem not_lf (h : decide (c = 10) = false) : c.toNat ≠ 10 :=
  toNat_ne (of_decide_eq_false h) rfl

/-- A byte leads on to a clean head. -/
def StaysClean (w : List UInt8) (h : HeadScan) (shapes : List Shape) (c : UInt8) : Prop :=
  ∃ h' new, Leads c h h' new ∧ CleanHead (w ++ [c]) h' (shapes ++ new)

theorem CleanHead.step_methodFirst (inv : CleanHead w h shapes) (hph : h.ph = .methodFirst) :
    StaysClean w h shapes c := by
  have live : isHead h.ph = true := by rw [hph]; rfl
  have form := inv.form
  rw [hph] at form
  by_cases alpha : isAlpha c.toNat = true
  · exact inv.enter live (show phaseStep h.ph c.toNat = (.method, [.method, .incCount]) by simp [hph, phaseStep, alpha])
      (by decide) (enters_count .method .method 32 (by norm_num) (by norm_num) fun _ _ => rfl) form
      (fun _ h => Option.some.inj h) (by rintro ⟨⟩) (by rintro ⟨⟩) (by rintro ⟨⟩)
  · exact inv.fail live (by simp [hph, phaseStep, alpha])

theorem CleanHead.step_method (inv : CleanHead w h shapes) (hph : h.ph = .method) : StaysClean w h shapes c := by
  have live : isHead h.ph = true := by rw [hph]; rfl
  have form := inv.form
  rw [hph] at form
  have method : h.type = .method := inv.type_eq _ (by rw [hph]; rfl)
  by_cases space : c.toNat = 32
  · refine inv.emit live (show phaseStep h.ph c.toNat = (.targetFirst, [.emitToken]) by simp [hph, phaseStep, space])
      ?_ (.inl rfl) ?_ rfl (by decide)
    · rw [method, show shapes.map Prod.fst = [] from form]
      rfl
    · intro hp
      rw [method] at hp
      cases hp
  by_cases alpha : isAlpha c.toNat = true
  · exact inv.count live (show phaseStep h.ph c.toNat = (.method, [.incCount]) by simp [hph, phaseStep, alpha, space])
      (by decide) form (fun _ h => method.trans (Option.some.inj h)) (by rintro ⟨⟩) (by decide)
  · exact inv.fail live (by simp [hph, phaseStep, alpha, space])

theorem CleanHead.step_targetFirst (inv : CleanHead w h shapes) (hph : h.ph = .targetFirst) (clean : stray h.ph c = false) :
    StaysClean w h shapes c := by
  have live : isHead h.ph = true := by rw [hph]; rfl
  have form := inv.form
  rw [hph] at form clean
  by_cases space : c.toNat = 32
  · exact inv.fail live (by simp [hph, phaseStep, space])
  · exact inv.enter live (show phaseStep h.ph c.toNat = (.target, [.target, .incCount]) by simp [hph, phaseStep, space])
      (by decide) (enters_count .target .target 1024 (by norm_num) (by norm_num) fun _ _ => rfl)
      form (fun _ h => Option.some.inj h) (fun _ => clean) (by rintro ⟨⟩) (by rintro ⟨⟩)

theorem CleanHead.step_target (inv : CleanHead w h shapes) (hph : h.ph = .target) (clean : stray h.ph c = false) :
    StaysClean w h shapes c := by
  have live : isHead h.ph = true := by rw [hph]; rfl
  have form := inv.form
  rw [hph] at form clean
  have target : h.type = .target := inv.type_eq _ (by rw [hph]; rfl)
  by_cases space : c.toNat = 32
  · refine inv.emit live (show phaseStep h.ph c.toNat = (.version 0, [.emitToken]) by simp [hph, phaseStep, space])
      ?_ (.inl rfl) (inv.token (by rw [hph]; rfl)) rfl (by decide)
    rw [target, show shapes.map Prod.fst = [.method] from form]
    rfl
  · exact inv.count live (show phaseStep h.ph c.toNat = (.target, [.incCount]) by simp [hph, phaseStep, space])
      (by decide) form (fun _ h => target.trans (Option.some.inj h))
      (fun _ => ⟨clean, by rw [hph]; rfl⟩) (by decide)

theorem CleanHead.step_version {i : ℕ} (inv : CleanHead w h shapes) (hph : h.ph = .version i) :
    StaysClean w h shapes c := by
  have live : isHead h.ph = true := by rw [hph]; rfl
  have form := inv.form
  rw [hph] at form
  by_cases char : versionChar i c.toNat = true
  swap
  · exact inv.fail live (by simp [hph, phaseStep, char])
  have types : shapes.map Prod.fst = if i < 9 then [.method, .target] else requestLine := form
  by_cases last : i = 9
  · subst last
    exact inv.pass live (show phaseStep h.ph c.toNat = (.firstHeader, []) by
      simp [hph, phaseStep, char]) (by decide) types (by rintro _ ⟨⟩) rfl (by decide)
  by_cases first : i = 0
  · subst first
    refine ⟨_, [], .of_reads (reads_acts live (show phaseStep h.ph c.toNat = (.version 1, [.version])
      by simp [hph, phaseStep, char]) (t := { h.enter .version 16 with
        ph := .version 1, emitted := none }) rfl (by simp)), ?_⟩
    refine inv.extend rfl rfl ?_ (fun _ h => Option.some.inj h) (by rintro _ ⟨⟩) (by rintro ⟨⟩) (by rintro ⟨⟩)
      (by rintro ⟨⟩)
    rw [List.append_nil]
    exact types
  have version : h.type = .version := inv.type_eq _ (by rw [hph]; exact if_neg first)
  by_cases eight : i = 8
  · subst eight
    refine inv.emit live (show phaseStep h.ph c.toNat = (.version 9, [.emitToken]) by
      simp [hph, phaseStep, char]) ?_ (.inr (by rw [version]; rfl)) ?_ rfl (by decide)
    · rw [types, version]
      rfl
    · intro hp
      rw [version] at hp
      cases hp
  · refine inv.pass live (show phaseStep h.ph c.toNat = (.version (i + 1), []) by
      simp [hph, phaseStep, char, last, first, eight]) (by simp) ?_
      (fun _ h => version.trans (Option.some.inj h)) rfl rfl
    change shapes.map Prod.fst = if i + 1 < 9 then [.method, .target] else requestLine
    rw [types]
    congr 1
    exact propext ⟨fun _ => by omega, fun _ => by omega⟩

theorem CleanHead.step_firstHeader (inv : CleanHead w h shapes) (hph : h.ph = .firstHeader) (clean : stray h.ph c = false) :
    StaysClean w h shapes c := by
  have live : isHead h.ph = true := by rw [hph]; rfl
  have form := inv.form
  rw [hph] at form clean
  by_cases token : isTokenChar c.toNat = true
  · exact inv.enter live (show phaseStep h.ph c.toNat = (.key, [.resetCount, .headerKey, .incCount]) by
        simp [hph, phaseStep, token]) (by decide) (fun c t => (enters_key c t).1)
      ⟨0, (show shapes.map Prod.fst = requestLine from form).trans rfl⟩
      (fun _ h => Option.some.inj h) (fun _ => clean) (by rintro ⟨⟩) (by rintro ⟨⟩)
  · exact inv.fail live (by simp [hph, phaseStep, token])

theorem CleanHead.step_key (inv : CleanHead w h shapes) (hph : h.ph = .key) (clean : stray h.ph c = false) :
    StaysClean w h shapes c := by
  have live : isHead h.ph = true := by rw [hph]; rfl
  have form := inv.form
  rw [hph] at form clean
  have key : h.type = .headerKey := inv.type_eq _ (by rw [hph]; rfl)
  obtain ⟨n, hn⟩ := form
  by_cases colon : c.toNat = 58
  · refine inv.emit live (show phaseStep h.ph c.toNat = (.colon, [.emitToken]) by simp [hph, phaseStep, keyStep, colon])
      ⟨n, ?_⟩ (.inl rfl) (inv.token (by rw [hph]; rfl)) rfl (by decide)
    rw [key, hn]
  by_cases token : isTokenChar c.toNat = true
  · exact inv.count live (show phaseStep h.ph c.toNat = (.key, [.incCount]) by
        simp [hph, phaseStep, keyStep, colon, token]) (by decide) ⟨n, hn⟩
      (fun _ h => key.trans (Option.some.inj h)) (fun _ => ⟨clean, by rw [hph]; rfl⟩) (by decide)
  · exact inv.fail live (by simp [hph, phaseStep, keyStep, colon, token])

theorem CleanHead.step_colon (inv : CleanHead w h shapes) (hph : h.ph = .colon) : StaysClean w h shapes c := by
  have live : isHead h.ph = true := by rw [hph]; rfl
  have form := inv.form
  rw [hph] at form
  by_cases ws : c.toNat = 9 ∨ c.toNat = 32
  · exact inv.pass live (show phaseStep h.ph c.toNat = (.ows, []) by simp [hph, phaseStep, ws]) (by decide) form (by rintro _ ⟨⟩)
      rfl (by decide)
  · exact inv.fail live (by simp [hph, phaseStep, ws])

theorem CleanHead.step_ows (inv : CleanHead w h shapes) (hph : h.ph = .ows) (clean : stray h.ph c = false) :
    StaysClean w h shapes c := by
  have live : isHead h.ph = true := by rw [hph]; rfl
  have form := inv.form
  rw [hph] at form clean
  have value := enters_count .headerValue .headerValue 4096 (by norm_num) (by norm_num)
    fun _ _ => rfl
  by_cases ws : c.toNat = 9 ∨ c.toNat = 32
  · exact inv.enter live (show phaseStep h.ph c.toNat = (.ows, [.headerValue, .incCount]) by
      simp [hph, phaseStep, ws]) (by decide) value form (by rintro _ ⟨⟩) (by rintro ⟨⟩) (by rintro ⟨⟩)
      (by rintro ⟨⟩)
  by_cases cr : c.toNat = 13
  · obtain ⟨n, hn⟩ := form
    -- an empty value
    refine ⟨_, _, .of_reads (reads_out live
      (show phaseStep h.ph c.toNat = (.valueCr, [.headerValue, .incCount, .emitToken]) by
        simp [hph, phaseStep, cr])
      (headerValue_out c { h with ph := .valueCr, emitted := none }) rfl),
      inv.extend rfl rfl ⟨n, ?_⟩ (fun _ h => Option.some.inj h) ?_ (by rintro ⟨⟩) (by rintro ⟨⟩)
        fun _ => ⟨rfl, UInt8.toNat_inj.1 cr⟩⟩
    · rw [List.map_append, hn, pairs_succ]
      simp
    · intro sh hsh _
      rw [List.mem_singleton.1 hsh]
      have length := inv.offset_eq
      refine ⟨by dsimp only; omega, by simp, ?_, by simp [text]⟩
      rw [List.length_append]
      push_cast
      omega
  · have lf : c.toNat ≠ 10 := not_lf clean
    exact inv.enter live (show phaseStep h.ph c.toNat = (.value, [.headerValue, .incCount]) by
      simp [hph, phaseStep, ws, cr]) (by decide) value form (fun _ h => Option.some.inj h)
      (fun _ => isCrLf_iff.2 ⟨cr, lf⟩) (by rintro ⟨⟩) (by rintro ⟨⟩)

theorem CleanHead.step_value (inv : CleanHead w h shapes) (hph : h.ph = .value) : StaysClean w h shapes c := by
  have live : isHead h.ph = true := by rw [hph]; rfl
  have form := inv.form
  rw [hph] at form
  have value : h.type = .headerValue := inv.type_eq _ (by rw [hph]; rfl)
  obtain ⟨n, hn⟩ := form
  by_cases cr : c.toNat = 13
  · refine inv.emit live (show phaseStep h.ph c.toNat = (.valueLf, [.emitToken]) by simp [hph, phaseStep, cr])
      ⟨n, ?_⟩ (.inl rfl) (inv.token (by rw [hph]; rfl)) rfl (by decide)
    rw [value, hn, pairs_succ]
    simp
  by_cases lf : c.toNat = 10
  · exact inv.fail live (by simp [hph, phaseStep, lf])
  · exact inv.count live (show phaseStep h.ph c.toNat = (.value, [.incCount]) by simp [hph, phaseStep, cr, lf])
      (by decide) ⟨n, hn⟩ (fun _ h => value.trans (Option.some.inj h))
      (fun _ => ⟨isCrLf_iff.2 ⟨cr, lf⟩, by rw [hph]; rfl⟩) (by decide)

theorem CleanHead.step_valueCr (inv : CleanHead w h shapes) (hph : h.ph = .valueCr) (clean : stray h.ph c = false) :
    StaysClean w h shapes c := by
  have live : isHead h.ph = true := by rw [hph]; rfl
  have form := inv.form
  rw [hph] at form clean
  have lf : c.toNat = 10 := by
    have : c = 10 := by simpa [stray] using clean
    rw [this]
    rfl
  exact inv.count live (show phaseStep h.ph c.toNat = (.nextHeader, [.incCount]) by simp [hph, phaseStep, lf])
    (by decide) form (by rintro _ ⟨⟩) (by rintro ⟨⟩) (by decide)

theorem CleanHead.step_valueLf (inv : CleanHead w h shapes) (hph : h.ph = .valueLf) : StaysClean w h shapes c := by
  have live : isHead h.ph = true := by rw [hph]; rfl
  have form := inv.form
  rw [hph] at form
  by_cases lf : c.toNat = 10
  · exact inv.count live (show phaseStep h.ph c.toNat = (.nextHeader, [.incCount]) by simp [hph, phaseStep, lf])
      (by decide) form (by rintro _ ⟨⟩) (by rintro ⟨⟩) (by decide)
  · exact inv.fail live (by simp [hph, phaseStep, lf])

theorem CleanHead.step_nextHeader (inv : CleanHead w h shapes) (hph : h.ph = .nextHeader) (clean : stray h.ph c = false) :
    StaysClean w h shapes c := by
  have live : isHead h.ph = true := by rw [hph]; rfl
  have form := inv.form
  rw [hph] at form clean
  have lf : c.toNat ≠ 10 := not_lf clean
  by_cases token : isTokenChar c.toNat = true
  swap
  · exact inv.fail live (by simp [hph, phaseStep, token])
  by_cases cr : c.toNat = 13
  · exact inv.enter live (show phaseStep h.ph c.toNat =
        (.finalCr, [.headerKey, .resetCount, .incCount]) by rw [hph, cr]; rfl)
      (by decide) (fun c t => (enters_key c t).2) form (fun _ h => Option.some.inj h) (by rintro ⟨⟩)
      (fun _ => rfl) fun _ => UInt8.toNat_inj.1 cr
  · obtain ⟨n, hn⟩ := form
    exact inv.enter live (show phaseStep h.ph c.toNat =
        (.key, [.headerKey, .resetCount, .incCount]) by simp [hph, phaseStep, token, cr])
      (by decide) (fun c t => (enters_key c t).2) ⟨n + 1, hn⟩ (fun _ h => Option.some.inj h)
      (fun _ => isCrLf_iff.2 ⟨cr, lf⟩) (by rintro ⟨⟩) (by rintro ⟨⟩)

theorem CleanHead.step_finalCr (inv : CleanHead w h shapes) (hph : h.ph = .finalCr) (clean : stray h.ph c = false) :
    StaysClean w h shapes c := by
  have live : isHead h.ph = true := by rw [hph]; rfl
  have form := inv.form
  rw [hph] at form clean
  obtain ⟨count, limit⟩ := inv.counted hph
  by_cases lf : c = 10
  · obtain ⟨n, hn⟩ := form
    refine ⟨_, [(HshTokenE.headersDone, 0, 0)], .of_reads (reads_out live
      (show phaseStep h.ph c.toNat = (.headersDone, [.incCount, .doneHeaders]) by
        rw [hph, lf]; rfl)
      (headersDone_out { h with ph := .headersDone, emitted := none } (by dsimp only; omega)
        (by dsimp only; omega) (by dsimp only; omega)) rfl),
      inv.extend rfl rfl ⟨n, ?_⟩ (by rintro _ ⟨⟩) ?_ (by rintro ⟨⟩) (by rintro ⟨⟩) (by rintro ⟨⟩)⟩
    · rw [List.map_append, hn]
      rfl
    · intro sh hsh hp
      rw [List.mem_singleton.1 hsh] at hp
      cases hp
  · have dead : (keyStep c.toNat).1 = .error := by simpa [stray, lf] using clean
    have lf' : c.toNat ≠ 10 := toNat_ne lf rfl
    refine inv.fail live ?_
    rw [hph]
    simp only [phaseStep, if_neg lf']
    exact keyStep_error dead

theorem CleanHead.step (inv : CleanHead w h shapes) (live : isHead h.ph = true)
    (clean : stray h.ph c = false) : StaysClean w h shapes c := by
  cases hph : h.ph with
  | methodFirst => exact inv.step_methodFirst hph
  | method => exact inv.step_method hph
  | targetFirst => exact inv.step_targetFirst hph clean
  | target => exact inv.step_target hph clean
  | version i => exact inv.step_version hph
  | firstHeader => exact inv.step_firstHeader hph clean
  | key => exact inv.step_key hph clean
  | colon => exact inv.step_colon hph
  | ows => exact inv.step_ows hph clean
  | value => exact inv.step_value hph
  | valueCr => exact inv.step_valueCr hph clean
  | valueLf => exact inv.step_valueLf hph
  | nextHeader => exact inv.step_nextHeader hph clean
  | finalCr => exact inv.step_finalCr hph clean
  | _ => rw [hph] at live; cases live

end Step

end HttpServer.HeadSoundness
