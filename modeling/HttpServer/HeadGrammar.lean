import HttpServer.HeadMachine

set_option autoImplicit false

/-!
# Valid request heads

The tokens of a request line and its headers, part by part, and that `hsh_parser_exec` returns
exactly these however the head is cut into pieces.
-/
namespace HttpServer.HeadGrammar
open MachineInt Scanner ParserTables ParserGrammar HttpServer.Parser ReadBuffer ParserInvariant
  ParserRuns HeadMachine

structure HeaderLine where
  name : List UInt8
  ws : List UInt8
  value : List UInt8

structure RequestHead where
  method : List UInt8
  target : List UInt8
  minor : UInt8
  lines : List HeaderLine

def isCrLf (c : UInt8) : Bool := c = 13 || c = 10
def isWs (c : UInt8) : Bool := c = 9 || c = 32

/-- `NAME ':' WS VALUE` with the limits of the tokens. -/
structure HeaderLine.Valid (line : HeaderLine) : Prop where
  name_pos : line.name ≠ []
  name_le : line.name.length ≤ 256
  name_chars : ∀ c ∈ line.name, isTokenChar c.toNat = true ∧ isCrLf c = false
  ws_pos : line.ws ≠ []
  ws_chars : ∀ c ∈ line.ws, isWs c = true
  value_le : line.value.length ≤ 4095
  value_chars : ∀ c ∈ line.value, isCrLf c = false
  value_head : ∀ c ∈ line.value.head?, isWs c = false

/-- `METHOD SP TARGET SP 'HTTP/1.' (0 or 1)` and at least one line. -/
structure RequestHead.Valid (head : RequestHead) : Prop where
  method_pos : head.method ≠ []
  method_le : head.method.length ≤ 32
  method_chars : ∀ c ∈ head.method, isAlpha c.toNat = true
  target_pos : head.target ≠ []
  target_le : head.target.length ≤ 1024
  target_chars : ∀ c ∈ head.target, c ≠ 32 ∧ isCrLf c = false
  minor : head.minor = 48 ∨ head.minor = 49
  lines_pos : head.lines ≠ []
  lines : ∀ line ∈ head.lines, line.Valid

def HeaderLine.bytes (line : HeaderLine) : List UInt8 :=
  line.name ++ [58] ++ line.ws ++ line.value ++ [13, 10]

def versionBytes (minor : UInt8) : List UInt8 := [72, 84, 84, 80, 47, 49, 46, minor]

def RequestHead.bytes (head : RequestHead) : List UInt8 :=
  head.method ++ [32] ++ head.target ++ [32] ++ versionBytes head.minor ++ [13, 10] ++
    head.lines.flatMap HeaderLine.bytes ++ [13, 10]

def HeaderLine.tokens (offset : ℤ) (line : HeaderLine) : List Shape :=
  [(HshTokenE.headerKey, offset, (line.name.length : ℤ)),
    (HshTokenE.headerValue, offset + line.name.length + 1 + line.ws.length, (line.value.length : ℤ))]

def linesTokens : ℤ → List HeaderLine → List Shape
  | _, [] => []
  | offset, line :: lines => line.tokens offset ++ linesTokens (offset + line.bytes.length) lines

def RequestHead.targetIndex (head : RequestHead) : ℤ := head.method.length + 1
def RequestHead.versionIndex (head : RequestHead) : ℤ := head.targetIndex + head.target.length + 1

/-- The type, index and length of each part of the head, in order. -/
def RequestHead.tokens (head : RequestHead) : List Shape :=
  [(HshTokenE.method, 0, (head.method.length : ℤ)),
    (HshTokenE.target, head.targetIndex, (head.target.length : ℤ)),
    (HshTokenE.version, head.versionIndex, 8)] ++
    linesTokens (head.versionIndex + 10) head.lines ++ [(HshTokenE.headersDone, 0, 0)]

section Reads

/-- The head machine reads `w` and emits `shapes`. -/
def Reads (w : List UInt8) (h : HeadScan) (shapes : List Shape) (h' : HeadScan) : Prop :=
  headRun w h = some (h', shapes.map some)

theorem Reads.append {as bs : List UInt8} {h h' h'' : HeadScan} {s s' : List Shape}
    (first : Reads as h s h') (second : Reads bs h' s' h'') :
    Reads (as ++ bs) h (s ++ s') h'' := by
  unfold Reads at *
  rw [headRun_append, first, Option.bind_some, second, Option.map_some, List.map_append]

theorem Reads.of_eq {w : List UInt8} {h h' h'' : HeadScan} {shapes : List Shape}
    (reads : Reads w h shapes h') (eq : h' = h'') : Reads w h shapes h'' :=
  eq ▸ reads

theorem Reads.of_shapes {w : List UInt8} {h h' h'' : HeadScan} {shapes shapes' : List Shape}
    (reads : Reads w h shapes h') (eq : shapes = shapes') (eq' : h' = h'') : Reads w h shapes' h'' :=
  eq ▸ eq' ▸ reads

theorem Reads.offset_eq {w : List UInt8} {h h' : HeadScan} {shapes : List Shape}
    (reads : Reads w h shapes h') : h'.offset = h.offset + w.length :=
  headRun_offset reads

theorem Reads.nil (h : HeadScan) : Reads [] h [] h := rfl

theorem Reads.fall {c : UInt8} {h h' : HeadScan} (step : headStep c h = .fall h') :
    Reads [c] h [] h' := by
  unfold Reads
  rw [headRun_fall step]
  rfl

variable {c : UInt8} {h t : HeadScan} {p : Phase} {l : List Action}

theorem reads_acts (live : isHead h.ph = true) (hs : phaseStep h.ph c.toNat = (p, l))
    (run : headMachine.runActs c l { h with ph := p, emitted := none } = .fall t)
    (hne : t.ph ≠ .error) : Reads [c] h [] t.next := by
  refine .fall ?_
  unfold headStep
  rw [if_pos live, Machine.step_fall headMachine (t := t) (by simpa [headMachine, hs] using run)]
  exact if_neg hne

theorem headRun_acts_out (live : isHead h.ph = true) (hs : phaseStep h.ph c.toNat = (p, l))
    (run : headMachine.runActs c l { h with ph := p, emitted := none } = .out t) :
    headRun [c] h = some ({ t with emitted := none }, [t.emitted]) := by
  have step : headStep c h = .out t := by
    unfold headStep
    rw [if_pos live, Machine.step_out headMachine (t := t) (by simpa [headMachine, hs] using run)]
  rw [headRun_out step]
  rfl

theorem reads_out {sh : Shape} (live : isHead h.ph = true)
    (hs : phaseStep h.ph c.toNat = (p, l))
    (run : headMachine.runActs c l { h with ph := p, emitted := none } = .out t)
    (emitted : t.emitted = some sh) : Reads [c] h [sh] { t with emitted := none } := by
  unfold Reads
  rw [headRun_acts_out live hs run, emitted]
  rfl

theorem headAct_count (nonneg : 0 ≤ h.count) (lt : h.count < h.limit) (le : h.limit ≤ 4096) :
    headMachine.act .incCount c h = .fall { h with count := h.count + 1 } := by
  change headAct .incCount c h = _
  unfold headAct
  dsimp only
  rw [wrap16_eq (by omega) (by omega), if_neg (by omega)]

theorem reads_count (live : isHead h.ph = true) (hs : phaseStep h.ph c.toNat = (p, [.incCount]))
    (hne : p ≠ .error) (nonneg : 0 ≤ h.count) (lt : h.count < h.limit) (le : h.limit ≤ 4096) :
    Reads [c] h [] { h with
      ph := p, count := h.count + 1, offset := h.offset + 1, emitted := none } := by
  have counted := headAct_count (c := c) (h := { h with ph := p, emitted := none }) nonneg lt le
  exact reads_acts live hs (t := { h with ph := p, count := h.count + 1, emitted := none })
    (by rw [Machine.runActs_fall _ counted]; rfl) hne

theorem reads_class {cs : List UInt8} (live : isHead h.ph = true)
    (hs : ∀ c ∈ cs, phaseStep h.ph c.toNat = (h.ph, [.incCount])) (silent : h.emitted = none)
    (nonneg : 0 ≤ h.count) (fits : h.count + cs.length ≤ h.limit) (le : h.limit ≤ 4096) :
    Reads cs h [] { h with count := h.count + cs.length, offset := h.offset + cs.length } := by
  induction cs generalizing h with
  | nil =>
    simp only [List.length_nil, Nat.cast_zero, add_zero]
    exact .nil h
  | cons c cs ih =>
    rw [List.length_cons] at fits ⊢
    push_cast at fits ⊢
    have hne : h.ph ≠ .error := by
      intro herr
      rw [herr] at live
      cases live
    have first := reads_count live (hs c (by simp)) hne nonneg (by omega) le
    have rest := ih (h := { h with count := h.count + 1, offset := h.offset + 1, emitted := none })
      live (fun c hc => hs c (by simp [hc])) rfl (by dsimp only; omega) (by dsimp only; omega) le
    refine (first.append rest).of_eq (HeadScan.ext rfl rfl rfl ?_ rfl ?_ silent.symm)
    all_goals
      dsimp only
      ring

theorem reads_token {type : HshTokenE} {limit : ℤ} {w : List UInt8} (pos : w ≠ [])
    (live : isHead h.ph = true) (hs : ∀ c ∈ w.head?, phaseStep h.ph c.toNat = (p, l))
    (enters : ∀ c t, headMachine.runActs c l t = .fall { t.enter type limit with count := 1 })
    (live' : isHead p = true) (hs' : ∀ c ∈ w, phaseStep p c.toNat = (p, [.incCount]))
    (fits : (w.length : ℤ) ≤ limit) (le : limit ≤ 4096) :
    Reads w h [] ⟨p, type, h.offset, w.length, limit, h.offset + w.length, none⟩ := by
  obtain ⟨c, cs, rfl⟩ := List.exists_cons_of_ne_nil pos
  rw [List.length_cons] at fits ⊢
  push_cast at fits ⊢
  have hne : p ≠ .error := by
    rintro rfl
    cases live'
  have first := reads_acts live (hs c rfl) (enters c _) hne
  have rest := reads_class (h := HeadScan.next ⟨p, type, h.offset, 1, limit, h.offset, none⟩) live'
    (fun c hc => hs' c (List.mem_cons_of_mem _ hc)) rfl (zero_le_one' ℤ)
    (by dsimp only [HeadScan.next]; omega) le
  refine (first.append rest).of_eq (HeadScan.ext rfl rfl rfl ?_ rfl ?_ rfl)
  all_goals
    dsimp only [HeadScan.next]
    ring

theorem reads_emit (live : isHead h.ph = true) (hs : phaseStep h.ph c.toNat = (p, [.emitToken])) :
    Reads [c] h [(h.type, h.index, h.offset - h.index)]
      { h with ph := p, offset := h.offset + 1, emitted := none } :=
  reads_out live hs rfl rfl

theorem reads_pass (live : isHead h.ph = true) (hs : phaseStep h.ph c.toNat = (p, []))
    (hne : p ≠ .error) :
    Reads [c] h [] { h with ph := p, offset := h.offset + 1, emitted := none } :=
  reads_acts live hs rfl hne

theorem enters_count (a : Action) (type : HshTokenE) (limit : ℤ) (pos : 1 ≤ limit)
    (le : limit ≤ 4096) (enters : ∀ c t, headAct a c t = .fall (t.enter type limit)) (c : UInt8)
    (t : HeadScan) :
    headMachine.runActs c [a, .incCount] t = .fall { t.enter type limit with count := 1 } := by
  rw [Machine.runActs_fall _ (enters c t),
    Machine.runActs_fall _ (headAct_count (le_refl 0) (by dsimp only [HeadScan.enter]; omega) le)]
  rfl

theorem enters_key (c : UInt8) (t : HeadScan) :
    headMachine.runActs c [.resetCount, .headerKey, .incCount] t =
        .fall { t.enter .headerKey 256 with count := 1 } ∧
      headMachine.runActs c [.headerKey, .resetCount, .incCount] t =
        .fall { t.enter .headerKey 256 with count := 1 } :=
  ⟨enters_count .headerKey .headerKey 256 (by norm_num) (by norm_num) (fun _ _ => rfl) c _,
    enters_count .headerKey .headerKey 256 (by norm_num) (by norm_num) (fun _ _ => rfl) c _⟩

theorem headerValue_out (c : UInt8) (t : HeadScan) :
    headMachine.runActs c [.headerValue, .incCount, .emitToken] t =
      .out ⟨t.ph, .headerValue, t.offset, 1, 4096, t.offset + 1,
        some (.headerValue, t.offset, t.offset - t.offset)⟩ := by
  rw [show [Action.headerValue, .incCount, .emitToken] = [.headerValue, .incCount] ++ [.emitToken]
    from rfl, Machine.runActs_append, enters_count .headerValue .headerValue 4096 (by norm_num)
    (by norm_num) (fun _ _ => rfl)]
  rfl

theorem headersDone_out (t : HeadScan) (nonneg : 0 ≤ t.count) (lt : t.count < t.limit)
    (le : t.limit ≤ 4096) :
    headMachine.runActs c [.incCount, .doneHeaders] t = .out { t with
      count := t.count + 1, offset := t.offset + 1, emitted := some (.headersDone, 0, 0) } := by
  rw [Machine.runActs_fall _ (headAct_count nonneg lt le)]
  rfl

end Reads

section Parts

variable {h : HeadScan} {head : RequestHead} {line : HeaderLine}

theorem toNat_ne {c d : UInt8} {n : ℕ} (hne : c ≠ d) (hn : d.toNat = n) : c.toNat ≠ n := by
  rintro rfl
  exact hne (UInt8.toNat_inj.1 hn.symm)

theorem not_crLf {c : UInt8} (h : isCrLf c = false) : c.toNat ≠ 13 ∧ c.toNat ≠ 10 := by
  simp only [isCrLf, Bool.or_eq_false_iff, decide_eq_false_iff_not] at h
  exact ⟨toNat_ne h.1 rfl, toNat_ne h.2 rfl⟩

theorem isWs_iff {c : UInt8} : isWs c = true ↔ c.toNat = 9 ∨ c.toNat = 32 := by
  simp only [isWs, Bool.or_eq_true, decide_eq_true_eq, ← UInt8.toNat_inj]
  rfl

theorem not_ws {c : UInt8} (h : isWs c = false) : c.toNat ≠ 9 ∧ c.toNat ≠ 32 := by
  simp only [isWs, Bool.or_eq_false_iff, decide_eq_false_iff_not] at h
  exact ⟨toNat_ne h.1 rfl, toNat_ne h.2 rfl⟩

theorem reads_method (valid : head.Valid) :
    Reads (head.method ++ [32]) {} [(HshTokenE.method, 0, (head.method.length : ℤ))]
      ⟨.targetFirst, .method, 0, head.method.length, 32, head.targetIndex, none⟩ := by
  have alpha : ∀ c ∈ head.method, phaseStep .method c.toNat = (.method, [.incCount]) := by
    intro c hc
    have ha := valid.method_chars c hc
    have ne : c.toNat ≠ 32 := by
      intro he
      rw [he] at ha
      cases ha
    simp [phaseStep, ne, ha]
  have first : ∀ c ∈ head.method.head?,
      phaseStep ({} : HeadScan).ph c.toNat = (.method, [.method, .incCount]) := by
    intro c hc
    simp [phaseStep, valid.method_chars c (List.mem_of_mem_head? hc)]
  have token := reads_token valid.method_pos (by decide) first
    (enters_count .method .method 32 (by norm_num) (by norm_num) fun _ _ => rfl) (by decide) alpha
    (by have := valid.method_le; omega) (by norm_num)
  refine (token.append (reads_emit rfl rfl)).of_shapes ?_ ?_
  all_goals simp [RequestHead.targetIndex]

theorem reads_target (valid : head.Valid) (ph : h.ph = .targetFirst)
    (offset : h.offset = head.targetIndex) :
    ∃ h', Reads (head.target ++ [32]) h
        [(HshTokenE.target, head.targetIndex, (head.target.length : ℤ))] h' ∧
      h'.ph = .version 0 ∧ h'.offset = head.versionIndex := by
  have rest : ∀ c ∈ head.target, phaseStep .target c.toNat = (.target, [.incCount]) := by
    intro c hc
    have ne : c.toNat ≠ 32 := toNat_ne (valid.target_chars c hc).1 rfl
    simp [phaseStep, ne]
  have first : ∀ c ∈ head.target.head?,
      phaseStep h.ph c.toNat = (.target, [.target, .incCount]) := by
    intro c hc
    have ne : c.toNat ≠ 32 := toNat_ne (valid.target_chars c (List.mem_of_mem_head? hc)).1 rfl
    simp [ph, phaseStep, ne]
  have token := reads_token valid.target_pos (by rw [ph]; rfl) first
    (enters_count .target .target 1024 (by norm_num) (by norm_num) fun _ _ => rfl) (by decide) rest
    (by have := valid.target_le; omega) (by norm_num)
  refine ⟨_, (token.append (reads_emit rfl rfl)).of_shapes ?_ rfl, rfl, ?_⟩
  all_goals simp [RequestHead.versionIndex, offset]

theorem phaseStep_version {i c : ℕ} (pos : 0 < i) (lt : i < 8) (hc : versionChar i c = true) :
    phaseStep (.version i) c = (.version (i + 1), []) := by
  have hi : i ≠ 0 := by omega
  have hi' : i ≠ 8 := by omega
  have hi'' : i ≠ 9 := by omega
  simp [phaseStep, hc, hi, hi', hi'']

theorem reads_versionChars (valid : head.Valid) (ph : h.ph = .version 1) :
    Reads [84, 84, 80, 47, 49, 46, head.minor] h [] { h with
      ph := .version 8, offset := h.offset + 7, emitted := none } := by
  have minor : versionChar 7 head.minor.toNat = true := by
    rcases valid.minor with h | h <;> rw [h] <;> rfl
  have pass : ∀ {i : ℕ} {c : UInt8} {h : HeadScan}, h.ph = .version i → 0 < i → i < 8 →
      versionChar i c.toNat = true →
      Reads [c] h [] { h with ph := .version (i + 1), offset := h.offset + 1, emitted := none } :=
    fun {i c h} ph pos lt hc => reads_pass (by rw [ph]; rfl)
      (by rw [ph]; exact phaseStep_version pos lt hc) (by simp)
  have all := ((((((pass (c := 84) ph (by decide) (by decide) rfl).append
    (pass (c := 84) rfl (by decide) (by decide) rfl)).append
    (pass (c := 80) rfl (by decide) (by decide) rfl)).append
    (pass (c := 47) rfl (by decide) (by decide) rfl)).append
    (pass (c := 49) rfl (by decide) (by decide) rfl)).append
    (pass (c := 46) rfl (by decide) (by decide) rfl)).append
    (pass rfl (by decide) (by decide) minor)
  refine all.of_eq (HeadScan.ext rfl rfl rfl rfl rfl ?_ rfl)
  dsimp only
  ring

theorem reads_version (valid : head.Valid) (ph : h.ph = .version 0)
    (offset : h.offset = head.versionIndex) :
    ∃ h', Reads (versionBytes head.minor ++ [13, 10]) h
        [(HshTokenE.version, head.versionIndex, 8)] h' ∧ h'.ph = .firstHeader ∧
      h'.offset = head.versionIndex + 10 := by
  have first : Reads [72] h [] ⟨.version 1, .version, h.offset, 0, 16, h.offset + 1, none⟩ :=
    reads_acts (by rw [ph]; rfl) (by rw [ph])
      (t := ⟨.version 1, .version, h.offset, 0, 16, h.offset, none⟩) rfl (by simp)
  have chars := first.append (reads_versionChars valid rfl)
  have emit := chars.append (reads_emit (c := 13) (p := .version 9) rfl rfl)
  have last := emit.append (reads_pass (c := 10) (p := .firstHeader) rfl rfl (by decide))
  refine ⟨_, last.of_shapes ?_ rfl, rfl, ?_⟩
  · change [(HshTokenE.version, h.offset, h.offset + 1 + 7 - h.offset)] = _
    rw [show h.offset + 1 + 7 - h.offset = 8 by ring, offset]
  · change h.offset + 1 + 7 + 1 + 1 = _
    rw [offset]
    ring

theorem reads_name (valid : line.Valid) (ph : h.ph = .firstHeader ∨ h.ph = .nextHeader) :
    ∃ h', Reads (line.name ++ [58]) h [(HshTokenE.headerKey, h.offset, (line.name.length : ℤ))] h' ∧
      h'.ph = .colon ∧ h'.offset = h.offset + line.name.length + 1 := by
  have rest : ∀ c ∈ line.name, phaseStep .key c.toNat = (.key, [.incCount]) := by
    intro c hc
    have ht := (valid.name_chars c hc).1
    have ne : c.toNat ≠ 58 := by
      intro he
      rw [he] at ht
      cases ht
    simp [phaseStep, keyStep, ne, ht]
  have token : Reads line.name h [] ⟨.key, .headerKey, h.offset, line.name.length, 256,
      h.offset + line.name.length, none⟩ := by
    have fits := valid.name_le
    rcases ph with ph | ph
    · refine reads_token valid.name_pos (by rw [ph]; rfl) (fun c hc => ?_)
        (fun c t => (enters_key c t).1) rfl rest (by omega) (by norm_num)
      have ht := (valid.name_chars c (List.mem_of_mem_head? hc)).1
      simp [ph, phaseStep, ht]
    · refine reads_token valid.name_pos (by rw [ph]; rfl) (fun c hc => ?_)
        (fun c t => (enters_key c t).2) rfl rest (by omega) (by norm_num)
      have ht := valid.name_chars c (List.mem_of_mem_head? hc)
      simp [ph, phaseStep, ht.1, (not_crLf ht.2).1]
  refine ⟨_, (token.append (reads_emit rfl rfl)).of_shapes ?_ rfl, rfl, rfl⟩
  simp

theorem reads_ws (ph : h.ph = .colon) (pos : line.ws ≠ []) (chars : ∀ c ∈ line.ws, isWs c = true) :
    ∃ h', Reads line.ws h [] h' ∧ h'.ph = .ows ∧ h'.offset = h.offset + line.ws.length := by
  have more : ∀ (cs : List UInt8) (h : HeadScan), h.ph = .ows → (∀ c ∈ cs, isWs c = true) →
      ∃ h', Reads cs h [] h' ∧ h'.ph = .ows := by
    intro cs
    induction cs with
    | nil => exact fun h ph _ => ⟨h, .nil h, ph⟩
    | cons c cs ih =>
      intro h ph hcs
      have hc := isWs_iff.1 (hcs c (by simp))
      have first : Reads [c] h [] ⟨.ows, .headerValue, h.offset, 1, 4096, h.offset + 1, none⟩ :=
        reads_acts (by rw [ph]; rfl)
          (show phaseStep h.ph c.toNat = (.ows, [.headerValue, .incCount]) by
            simp [ph, phaseStep, hc])
          (enters_count .headerValue .headerValue 4096 (by norm_num) (by norm_num)
            (fun _ _ => rfl) c _) (by simp [HeadScan.enter])
      obtain ⟨h', rest, ph'⟩ := ih ⟨.ows, .headerValue, h.offset, 1, 4096, h.offset + 1, none⟩
        rfl fun c hc => hcs c (by simp [hc])
      exact ⟨h', first.append rest, ph'⟩
  obtain ⟨c, cs, hws⟩ := List.exists_cons_of_ne_nil pos
  rw [hws] at chars ⊢
  have hc := isWs_iff.1 (chars c (by simp))
  have first := reads_pass (h := h) (c := c) (p := .ows) (by rw [ph]; rfl)
    (by simp [ph, phaseStep, hc]) (by decide)
  obtain ⟨h', rest, ph'⟩ := more cs { h with ph := .ows, offset := h.offset + 1, emitted := none } rfl
    fun c hc => chars c (by simp [hc])
  have reads := first.append rest
  exact ⟨h', reads, ph', reads.offset_eq⟩

theorem reads_value (valid : line.Valid) (ph : h.ph = .ows) :
    ∃ h', Reads (line.value ++ [13, 10]) h
        [(HshTokenE.headerValue, h.offset, (line.value.length : ℤ))] h' ∧ h'.ph = .nextHeader := by
  have fits := valid.value_le
  by_cases empty : line.value = []
  · -- the carriage return is the first byte of the value and ends it
    have first := reads_out (by rw [ph]; rfl) (by rw [ph]; rfl)
      (headerValue_out 13 { h with ph := .valueCr, emitted := none }) rfl
    have last := first.append (reads_count (c := 10) (p := .nextHeader) rfl rfl (by decide)
      (by norm_num) (by norm_num) (by norm_num))
    refine ⟨_, (show Reads (line.value ++ [13, 10]) h _ _ by rw [empty]; exact last).of_shapes ?_ rfl,
      rfl⟩
    simp [empty]
  · have rest : ∀ c ∈ line.value, phaseStep .value c.toNat = (.value, [.incCount]) := by
      intro c hc
      have ne := not_crLf (valid.value_chars c hc)
      simp [phaseStep, ne.1, ne.2]
    have token := reads_token (h := h) (p := .value) (l := [.headerValue, .incCount]) empty
      (by rw [ph]; rfl) (fun c hc => by
        have ne := not_crLf (valid.value_chars c (List.mem_of_mem_head? hc))
        have ne' := not_ws (valid.value_head c hc)
        simp [ph, phaseStep, ne.1, ne'.1, ne'.2])
      (enters_count .headerValue .headerValue 4096 (by norm_num) (by norm_num) fun _ _ => rfl) rfl
      rest (by omega) (by norm_num)
    have emit := token.append (reads_emit (c := 13) rfl rfl)
    have last := emit.append (reads_count (c := 10) (p := .nextHeader) rfl rfl (by decide)
      (by dsimp only; omega) (by dsimp only; omega) (by norm_num))
    refine ⟨_, (show Reads (line.value ++ [13, 10]) h _ _ by simpa using last).of_shapes ?_ rfl, rfl⟩
    simp

theorem reads_line (valid : line.Valid) (ph : h.ph = .firstHeader ∨ h.ph = .nextHeader) :
    ∃ h', Reads line.bytes h (line.tokens h.offset) h' ∧ h'.ph = .nextHeader := by
  obtain ⟨h₁, name, ph₁, off₁⟩ := reads_name valid ph
  obtain ⟨h₂, ws, ph₂, off₂⟩ := reads_ws ph₁ valid.ws_pos valid.ws_chars
  obtain ⟨h₃, value, ph₃⟩ := reads_value valid ph₂
  refine ⟨h₃, ?_, ph₃⟩
  have all := (name.append ws).append value
  rw [off₂, off₁] at all
  simpa [HeaderLine.bytes, HeaderLine.tokens] using all

theorem reads_lines {lines : List HeaderLine} (valid : ∀ line ∈ lines, line.Valid)
    (ph : h.ph = .firstHeader ∨ h.ph = .nextHeader) (pos : lines = [] → h.ph = .nextHeader) :
    ∃ h', Reads (lines.flatMap HeaderLine.bytes) h (linesTokens h.offset lines) h' ∧
      h'.ph = .nextHeader := by
  induction lines generalizing h with
  | nil => exact ⟨h, .nil h, pos rfl⟩
  | cons line lines ih =>
    obtain ⟨h₁, first, ph₁⟩ := reads_line (valid line (by simp)) ph
    obtain ⟨h₂, rest, ph₂⟩ := ih (h := h₁) (fun line hl => valid line (by simp [hl])) (.inr ph₁)
      fun _ => ph₁
    rw [first.offset_eq] at rest
    exact ⟨h₂, first.append rest, ph₂⟩

theorem reads_end (ph : h.ph = .nextHeader) :
    ∃ h', Reads [13, 10] h [(HshTokenE.headersDone, 0, 0)] h' ∧ h'.ph = .headersDone := by
  have first : Reads [13] h [] ⟨.finalCr, .headerKey, h.offset, 1, 256, h.offset + 1, none⟩ :=
    reads_acts (by rw [ph]; rfl)
      (show phaseStep h.ph (13 : UInt8).toNat = (.finalCr, [.headerKey, .resetCount, .incCount]) by
        rw [ph]; rfl)
      ((enters_key 13 _).2) (by simp [HeadScan.enter])
  have last := reads_out (c := 10) (p := .headersDone) (l := [.incCount, .doneHeaders])
    (h := ⟨.finalCr, .headerKey, h.offset, 1, 256, h.offset + 1, none⟩) rfl rfl
    (headersDone_out _ (by norm_num) (by norm_num) (by norm_num)) rfl
  exact ⟨_, first.append last, rfl⟩

theorem reads_head (valid : head.Valid) :
    ∃ h', Reads head.bytes {} head.tokens h' ∧ h'.ph = .headersDone := by
  have method := reads_method valid
  obtain ⟨h₁, target, ph₁, off₁⟩ := reads_target valid
    (h := ⟨.targetFirst, .method, 0, head.method.length, 32, head.targetIndex, none⟩) rfl rfl
  obtain ⟨h₂, version, ph₂, off₂⟩ := reads_version valid ph₁ off₁
  obtain ⟨h₃, lines, ph₃⟩ := reads_lines valid.lines (.inl ph₂) fun h => absurd h valid.lines_pos
  obtain ⟨h₄, last, ph₄⟩ := reads_end ph₃
  rw [off₂] at lines
  have all := (((method.append target).append version).append lines).append last
  refine ⟨h₄, ?_, ph₄⟩
  simpa [RequestHead.bytes, RequestHead.tokens] using all

end Parts

/-- `hsh_parser_exec` until it returns `HSH_TOK_NONE` or the end of the head. -/
def headTokens (max : ℤ) (blk : NewBlock) :
    ℕ → HshParserS → HshBufferS → Option (List HshTokenS × HshParserS × HshBufferS)
  | 0, _, _ => none
  | fuel + 1, parser, buffer =>
    match hshParserExec max blk parser buffer with
    | none => none
    | some (token, parser, buffer) =>
      if token.type = .none then some ([], parser, buffer)
      else if token.type = .headersDone then some ([token], parser, buffer)
      else (headTokens max blk fuel parser buffer).map fun r => (token :: r.1, r.2)

def hasHeadersDone (tokens : List HshTokenS) : Bool := tokens.any fun t => t.type = .headersDone

/-- The tokens up to the end of the head, when the pieces are appended one after the other. -/
def feed (max : ℤ) (blk : NewBlock) (fuel : ℕ) :
    List (List UInt8) → HshParserS → HshBufferS → Option (List HshTokenS × HshBufferS)
  | [], _, buffer => some ([], buffer)
  | piece :: pieces, parser, buffer =>
    match headTokens max blk fuel parser
      { append buffer piece with sequenceId := wrap8 (buffer.sequenceId + 1) } with
    | none => none
    | some (tokens, parser, buffer) =>
      if hasHeadersDone tokens then some (tokens, buffer)
      else (feed max blk fuel pieces parser buffer).map fun r => (tokens ++ r.1, r.2)

section Feed

variable {max : ℤ} {blk : NewBlock} {parser : HshParserS} {buffer : HshBufferS} {h h' : HeadScan}
  {w : List UInt8}

theorem headRun_live {c : UInt8} {breaks : List (Option Shape)}
    (run : headRun (c :: w) h = some (h', breaks)) : isHead h.ph = true := by
  rw [headRun] at run
  by_contra dead
  have fault : headStep c h = .fault := if_neg dead
  rw [fault] at run
  cases run

theorem headRun_nil {breaks : List (Option Shape)} (run : headRun [] h = some (h', breaks)) :
    h' = h ∧ breaks = [] :=
  ⟨(congrArg Prod.fst (Option.some.inj run)).symm, (congrArg Prod.snd (Option.some.inj run)).symm⟩

theorem headRun_stays (live : isHead h.ph = true) (run : headRun w h = some (h', [])) :
    isHead h'.ph = true := by
  induction w generalizing h with
  | nil =>
    cases run
    exact live
  | cons c w ih =>
    rw [headRun] at run
    have step := headStep_sat c live
    have real : headStep c h = headMachine.step c h := if_pos live
    rw [real] at run
    cases hs : headMachine.step c h with
    | fall t =>
      rw [hs] at run step
      exact ih step.2.2 run
    | out t =>
      rw [hs] at run
      obtain ⟨r, -, hr⟩ := Option.map_eq_some_iff.1 run
      cases hr
    | fault =>
      rw [hs] at run
      cases run

theorem headRun_split {as bs : List UInt8} {h₁ : HeadScan} {breaks : List (Option Shape)}
    {shapes : List Shape} (run : headRun (as ++ bs) h = some (h', shapes.map some))
    (first : headRun as h = some (h₁, breaks)) :
    ∃ rest, headRun bs h₁ = some (h', rest) ∧ breaks ++ rest = shapes.map some := by
  rw [headRun_append, first, Option.bind_some] at run
  obtain ⟨r, hr, heq⟩ := Option.map_eq_some_iff.1 run
  obtain ⟨rfl, hbreaks⟩ := Prod.mk.inj heq
  exact ⟨r.2, hr, hbreaks⟩

theorem headRun_done {breaks : List (Option Shape)} (ph : h.ph = .headersDone)
    (run : headRun w h = some (h', breaks)) : w = [] ∧ h' = h ∧ breaks = [] := by
  cases w with
  | nil =>
    cases run
    exact ⟨rfl, rfl, rfl⟩
  | cons c w =>
    have live := headRun_live run
    rw [ph] at live
    cases live

theorem headRun_within {h₁ : HeadScan} {part left consumed rest : List UInt8} {breaks breaks' : List (Option Shape)}
    (run : headRun part h = some (h', breaks)) (last : left ≠ [] → h'.ph = .headersDone)
    (first : headRun consumed h = some (h₁, breaks')) (eq : part ++ left = consumed ++ rest) :
    ∃ more, part = consumed ++ more ∧ rest = more ++ left := by
  rcases List.append_eq_append_iff.1 eq with ⟨extra, rfl, rfl⟩ | ⟨more, rfl, rfl⟩
  · rw [headRun_append, run, Option.bind_some] at first
    obtain ⟨r, beyond, -⟩ := Option.map_eq_some_iff.1 first
    have none : extra = [] := by
      by_contra some
      exact some (headRun_done (last (by simp [some])) beyond).1
    exact ⟨[], by simp [none], by simp [none]⟩
  · exact ⟨more, rfl, rfl⟩

/-- What the calls for one piece return. -/
structure HeadTokens (buffer : HshBufferS) (h' : HeadScan) (shapes : List Shape)
    (tokens : List HshTokenS) (parser' : HshParserS) (buffer' : HshBufferS) : Prop where
  shapes_eq : tokens.map shape = shapes
  finished : h'.ph = .headersDone → hasHeadersDone tokens = true ∧
    buffer'.afterHeadersIndex = h'.offset
  paused : h'.ph ≠ .headersDone → hasHeadersDone tokens = false ∧ HeadRest parser' buffer' h' ∧
    buffer' = { buffer with index := h'.offset } ∧ parser'.sequenceId = buffer.sequenceId

theorem unconsumed_advance {consumed left : List UInt8} (index : buffer.index = h.offset)
    (rest : unconsumed buffer = consumed ++ left) (offset : h'.offset = h.offset + consumed.length) :
    unconsumed { buffer with index := h'.offset } = left := by
  have len := congrArg List.length rest
  rw [unconsumed, slice_length, List.length_append] at len
  have dropped := congrArg (List.drop consumed.length) rest
  rw [unconsumed, slice_drop _ _ _ _ (by omega), List.drop_left] at dropped
  rw [← dropped, unconsumed]
  dsimp only
  rw [offset, index]
  congr 1
  omega

theorem bufferOk_index {m : ℤ} (hb : BufferOk true m buffer) (index : ℤ) :
    BufferOk true m { buffer with index := index } :=
  ⟨hb.buf_pos, hb.buf_lt, hb.ahi_nonneg, hb.ahi_le, hb.length_lt, hb.capacity_lt, hb.held⟩

variable (max blk) in
/-- The calls for the bytes of a head that are in the buffer, whatever follows the end of the head. -/
theorem headTokens_spec {m : ℤ} (hb : BufferOk true m buffer) (hr : HeadRest parser buffer h)
    (live : isHead h.ph = true) (fresh : parser.sequenceId ≠ buffer.sequenceId) {part left : List UInt8}
    (unread : unconsumed buffer = part ++ left) (beyond : left ≠ [] → h'.ph = .headersDone)
    {shapes : List Shape} (run : headRun part h = some (h', shapes.map some))
    (next : isHead h'.ph = true ∨ h'.ph = .headersDone) {fuel : ℕ} (enough : part.length < fuel) :
    ∃ tokens parser' buffer', headTokens max blk fuel parser buffer = some (tokens, parser', buffer') ∧
      HeadTokens buffer h' shapes tokens parser' buffer' := by
  induction fuel generalizing parser buffer h part shapes with
  | zero => omega
  | succ fuel ih =>
    obtain ⟨consumed, h₁, token, parser₁, buffer₁, hexec, exec, -⟩ :=
      hshParserExec_head max blk hb hr live fresh
    unfold headTokens
    rw [hexec]
    dsimp only
    cases exec with
    | none rest all first silent head seen =>
      obtain ⟨more, rfl, rfl⟩ := headRun_within run beyond first (unread.symm.trans rest)
      obtain ⟨breaks, tail, eq⟩ := headRun_split run first
      rcases silent with rfl | rfl
      · rw [(List.append_eq_nil_iff.1 (all rfl)).1] at tail
        cases tail
        have none_left : shapes = [] := List.map_eq_nil_iff.1 eq.symm
        have stays := headRun_stays live first
        have ne : h'.ph ≠ .headersDone := by
          intro hd
          rw [hd] at stays
          cases stays
        exact ⟨[], _, _, rfl, none_left.symm, fun hd => absurd hd ne, fun _ => ⟨rfl, head, rfl, seen⟩⟩
      · cases shapes with
        | nil => cases eq
        | cons sh shapes => cases (List.cons.inj eq).1
    | token rest first typed ph head again =>
      obtain ⟨more, rfl, rfl⟩ := headRun_within run beyond first (unread.symm.trans rest)
      have unread' := unconsumed_advance (HeadRest.index_eq hr) rest (headRun_offset first)
      obtain ⟨breaks, tail, eq⟩ := headRun_split run first
      cases shapes with
      | nil => cases eq
      | cons sh shapes =>
        obtain ⟨hsh, rfl⟩ := List.cons.inj eq
        have live₁ : isHead h₁.ph = true := by
          cases more with
          | nil =>
            obtain ⟨rfl, -⟩ := headRun_nil tail
            exact next.resolve_right ph
          | cons c more => exact headRun_live tail
        have nonempty : consumed ≠ [] := by
          rintro rfl
          cases first
        have pos := List.length_pos_iff.2 nonempty
        obtain ⟨tokens, parser', buffer', heq, spec⟩ := ih (bufferOk_index hb h₁.offset) head live₁
          (by rw [again]; exact fresh) unread' tail (by rw [List.length_append] at enough; omega)
        have ne_none : token.type ≠ .none := by
          intro hn
          rw [hn] at typed
          cases typed
        have ne_done : token.type ≠ .headersDone := by
          intro hn
          rw [hn] at typed
          cases typed
        rw [if_neg ne_none, if_neg ne_done, heq]
        have plain : hasHeadersDone (token :: tokens) = hasHeadersDone tokens := by
          simp [hasHeadersDone, ne_done]
        refine ⟨token :: tokens, parser', buffer', rfl, ?_, ?_, ?_⟩
        · rw [List.map_cons, spec.shapes_eq, Option.some.inj hsh]
        · rw [plain]
          exact spec.finished
        · rw [plain]
          exact spec.paused
    | done rest first ph last finished mode sized =>
      obtain ⟨more, rfl, -⟩ := headRun_within run beyond first (unread.symm.trans rest)
      obtain ⟨breaks, tail, eq⟩ := headRun_split run first
      obtain ⟨-, rfl, rfl⟩ := headRun_done ph tail
      have type : token.type = .headersDone := congrArg Prod.fst last
      have hshapes : [shape token] = shapes := by
        cases shapes with
        | nil => cases eq
        | cons sh shapes =>
          obtain ⟨hsh, hnil⟩ := List.cons.inj eq
          rw [Option.some.inj hsh, List.map_eq_nil_iff.1 hnil.symm]
      rw [if_neg (by rw [type]; decide), if_pos type]
      exact ⟨[token], _, _, rfl, hshapes, fun _ => ⟨by simp [hasHeadersDone, type], sized.ahi_eq⟩,
        fun ne => absurd ph ne⟩

theorem HeadRest.appended {m : ℤ} {piece : List UInt8} (hb : BufferOk true m buffer)
    (hr : HeadRest parser buffer h) (read : h.offset = buffer.length)
    (room : buffer.length + piece.length ≤ buffer.capacity) (q : ℤ) :
    BufferOk true m { append buffer piece with sequenceId := q } ∧
      HeadRest parser { append buffer piece with sequenceId := q } h ∧
      unconsumed { append buffer piece with sequenceId := q } = piece ∧
      (append buffer piece).length = buffer.length + piece.length := by
  have ok := append_ok hb (show (piece.length : ℤ) ≤ _ by omega)
  have cap := hb.capacity_lt
  have nonneg : 0 ≤ buffer.length := hb.ahi_nonneg.trans hb.ahi_le
  have appended := (append_appended nonneg (by omega) : Appended true buffer piece _)
  have index := HeadRest.index_eq hr
  have nonneg_index := hr.sim.index_nonneg.trans hr.sim.index_le
  refine ⟨⟨ok.buf_pos, ok.buf_lt, ok.ahi_nonneg, ok.ahi_le, ok.length_lt, ok.capacity_lt, ok.held⟩,
    hr.of_appended (appended.withSequenceId q), ?_, appended.length_eq⟩
  rw [unconsumed_appended (by omega) (by omega) (appended.withSequenceId q), unconsumed, index, read,
    sub_self]
  rfl

variable (max blk) in
theorem feed_spec {m : ℤ} {pieces : List (List UInt8)} (hb : BufferOk true m buffer)
    (hr : HeadRest parser buffer h) (live : isHead h.ph = true)
    (seen : parser.sequenceId = buffer.sequenceId) (read : h.offset = buffer.length)
    {shapes : List Shape} (run : headRun pieces.flatten h = some (h', shapes.map some))
    (last : h'.ph = .headersDone) (room : buffer.length + pieces.flatten.length ≤ buffer.capacity)
    {fuel : ℕ} (enough : pieces.flatten.length < fuel) :
    ∃ tokens buffer', feed max blk fuel pieces parser buffer = some (tokens, buffer') ∧
      tokens.map shape = shapes ∧ buffer'.afterHeadersIndex = h'.offset := by
  induction pieces generalizing parser buffer h shapes with
  | nil =>
    obtain ⟨rfl, -⟩ := headRun_nil run
    rw [last] at live
    cases live
  | cons piece pieces ih =>
    rw [List.flatten_cons] at run room enough
    rw [List.length_append] at room enough
    push_cast at room
    obtain ⟨ok, rest, unread, length⟩ :=
      HeadRest.appended hb hr read (show buffer.length + piece.length ≤ _ by omega) (wrap8 (buffer.sequenceId + 1))
    obtain ⟨h₁, breaks, first⟩ : ∃ h₁ breaks, headRun piece h = some (h₁, breaks) := by
      rw [headRun_append] at run
      cases hp : headRun piece h with
      | none => rw [hp] at run; cases run
      | some r => exact ⟨r.1, r.2, rfl⟩
    obtain ⟨more, tail, eq⟩ := headRun_split run first
    obtain ⟨shapes₁, shapes₂, rfl, rfl, rfl⟩ := List.map_eq_append_iff.1 eq.symm
    have next : isHead h₁.ph = true ∨ h₁.ph = .headersDone := by
      cases hw : pieces.flatten with
      | nil =>
        rw [hw] at tail
        obtain ⟨rfl, -⟩ := headRun_nil tail
        exact .inr last
      | cons c w =>
        rw [hw] at tail
        exact .inl (headRun_live tail)
    obtain ⟨tokens, parser₁, buffer₁, hdrain, spec⟩ := headTokens_spec max blk ok rest
      live (by rw [seen]; exact (wrap8_succ_ne _).symm) (unread.trans (List.append_nil piece).symm)
      (absurd rfl) first next (by omega : _ < fuel)
    unfold feed
    rw [hdrain]
    dsimp only
    by_cases hd : h₁.ph = .headersDone
    · obtain ⟨-, rfl, hnil⟩ := headRun_done hd tail
      rw [if_pos (spec.finished hd).1, List.map_eq_nil_iff.1 hnil, List.append_nil]
      exact ⟨tokens, buffer₁, rfl, spec.shapes_eq, (spec.finished hd).2⟩
    · obtain ⟨plain, rest₁, rfl, seen₁⟩ := spec.paused hd
      have consumed := headRun_offset first
      obtain ⟨tokens', buffer', hfeed, hshapes, ahi⟩ := ih (bufferOk_index ok _) rest₁
        (next.resolve_right hd) seen₁ (by dsimp only; omega) tail
        (by dsimp only [append] at length ⊢; omega) (by omega)
      rw [plain, hfeed]
      exact ⟨tokens ++ tokens', buffer', rfl, by rw [List.map_append, spec.shapes_eq, hshapes], ahi⟩

end Feed

/-- Any cut of a valid head gives its parts as tokens, in order. -/
theorem feed_head {head : RequestHead} (valid : head.Valid) {pieces : List (List UInt8)}
    (cut : pieces.flatten = head.bytes) {max capacity memused : ℤ} {blk init : NewBlock}
    (hinit : BlockOk init) (room : (head.bytes.length : ℤ) ≤ capacity)
    (capacity_lt : capacity < 2147483648) {fuel : ℕ} (enough : head.bytes.length < fuel) :
    ∃ tokens buffer,
      feed max blk fuel pieces hshParserInit (hsBufferInit init capacity memused).1 =
        some (tokens, buffer) ∧
      tokens.map shape = head.tokens ∧ buffer.afterHeadersIndex = head.bytes.length := by
  obtain ⟨h', run, last⟩ := reads_head valid
  have ok : BufferOk true capacity (hsBufferInit init capacity memused).1 :=
    ⟨hinit.1, hinit.2, le_refl 0, le_refl 0, by norm_num [hsBufferInit], capacity_lt,
      fun _ => ⟨by dsimp only [hsBufferInit]; omega, le_refl capacity⟩⟩
  obtain ⟨tokens, buffer, hfeed, hshapes, ahi⟩ := feed_spec max blk ok headRest_init rfl
    rfl rfl (by rw [cut]; exact run) last (by simpa [hsBufferInit, cut] using room)
    (by rw [cut]; exact enough)
  refine ⟨tokens, buffer, hfeed, hshapes, ?_⟩
  rw [ahi, run.offset_eq]
  simp

theorem feed_head_get : ∃ tokens buffer,
    feed 8388608 (block 4096) 64 [ascii "GET / HT", ascii "TP/1.0\r\nHost: a\r\n\r\n"] hshParserInit
        freshBuffer = some (tokens, buffer) ∧
      tokens.map shape = [(.method, 0, 3), (.target, 4, 1), (.version, 6, 8), (.headerKey, 16, 4),
        (.headerValue, 22, 1), (.headersDone, 0, 0)] ∧ buffer.afterHeadersIndex = 27 := by
  have valid : (⟨ascii "GET", ascii "/", 48, [⟨ascii "Host", ascii " ", ascii "a"⟩]⟩ :
      RequestHead).Valid := by
    refine ⟨by decide, by decide, by decide +kernel, by decide, by decide, by decide +kernel,
      by decide, by decide, ?_⟩
    intro line hl
    rw [List.mem_singleton.1 hl]
    exact ⟨by decide, by decide, by decide +kernel, by decide, by decide +kernel, by decide,
      by decide +kernel, by decide +kernel⟩
  exact feed_head valid (by decide +kernel) ⟨by decide, by decide⟩ (by decide +kernel) (by norm_num)
    (by decide +kernel)

end HttpServer.HeadGrammar
