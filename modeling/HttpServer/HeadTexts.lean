import HttpServer.HeadRuns

set_option autoImplicit false

/-!
# The texts of an accepted head

Every token of a head is a part of it, and the version token is one of two texts.
-/
namespace HttpServer.HeadTexts
open Scanner ParserTables ParserGrammar HttpServer.Parser HeadMachine HeadGrammar HeadSoundness HeadRuns

/-- A token whose bytes are in `w`. -/
def Inside (w : List UInt8) (sh : Shape) : Prop := 0 ≤ sh.2.1 ∧ 0 ≤ sh.2.2 ∧ sh.2.1 + sh.2.2 ≤ w.length

def http10 : List UInt8 := ascii "HTTP/1.0"
def http11 : List UInt8 := ascii "HTTP/1.1"

def IsVersion (s : List UInt8) : Prop := s = http10 ∨ s = http11

/-- The first `i` bytes of a version. -/
def VersionPart (i : ℕ) (s : List UInt8) : Prop := s = http10.take i ∨ s = http11.take i

/-- Behind the version token. -/
def pastVersion : Phase → Bool
  | .version i => 9 ≤ i
  | .methodFirst | .method | .targetFirst | .target | .error => false
  | _ => true

/-- What is known of the token that is scanned. -/
def Scanning (w : List UInt8) (h : HeadScan) : Prop :=
  match h.ph with
  | .version i => i ≤ 9 ∧ (0 < i → i < 9 → h.type = .version ∧ VersionPart i (w.drop h.index.toNat))
  | .firstHeader | .error | .headersDone => True
  | _ => h.type ≠ .version

/-- After the bytes `w` of a head. -/
structure Texts (w : List UInt8) (h : HeadScan) (shapes : List Shape) : Prop where
  offset_eq : h.offset = w.length
  index_nonneg : 0 ≤ h.index
  index_le : h.index ≤ h.offset
  scanning : Scanning w h
  inside : ∀ sh ∈ shapes, Inside w sh
  versions : ∀ sh ∈ shapes, sh.1 = .version → IsVersion (text w sh)
  seen : pastVersion h.ph = true → ∃ sh ∈ shapes, sh.1 = .version

section Step

variable {w : List UInt8} {h t : HeadScan} {shapes : List Shape} {c : UInt8} {ph p : Phase}

theorem Inside.append {sh : Shape} (inside : Inside w sh) (v : List UInt8) : Inside (w ++ v) sh := by
  obtain ⟨lo, len, hi⟩ := inside
  refine ⟨lo, len, ?_⟩
  rw [List.length_append]
  push_cast
  omega

theorem Inside.text_append {sh : Shape} (inside : Inside w sh) (v : List UInt8) : text (w ++ v) sh = text w sh :=
  HeadSoundness.text_append inside.1 inside.2.1 inside.2.2 v

theorem VersionPart.next {i : ℕ} {s : List UInt8} (h : VersionPart i s) (lt : i < 8)
    (char : versionChar i c.toNat = true) : VersionPart (i + 1) (s ++ [c]) := by
  have byte : ∀ d : UInt8, c.toNat = d.toNat → c = d := fun _ => UInt8.toNat_inj.1
  by_cases last : i = 7
  · subst last
    have same : s = http10.take 7 := h.elim id fun h => h.trans (by decide)
    rw [same]
    simp only [versionChar, if_true, Bool.or_eq_true, decide_eq_true_eq] at char
    rcases char with char | char
    · rw [byte 48 char]
      exact .inl rfl
    · rw [byte 49 char]
      exact .inr rfl
  · have front : ∀ v, v = http10 ∨ v = http11 → v.take i ++ [c] = v.take (i + 1) := by
      intro v hv
      simp only [versionChar, last, if_false, decide_eq_true_eq] at char
      have value : c = v.getD i 0 := by
        refine byte _ (char.symm.trans ?_)
        rcases hv with rfl | rfl <;> interval_cases i <;> first | rfl | exact absurd rfl last
      rw [value]
      rcases hv with rfl | rfl <;> interval_cases i <;> rfl
    rcases h with rfl | rfl
    · exact .inl (front _ (.inl rfl))
    · exact .inr (front _ (.inr rfl))

/-- Inside a byte, before its cursor step. -/
structure Between (n : ℤ) (ph : Phase) (t : HeadScan) : Prop where
  ph_eq : t.ph = ph
  offset_eq : t.offset = n
  index_nonneg : 0 ≤ t.index
  index_le : t.index ≤ n
  silent : t.emitted = none

structure After (n : ℤ) (ph : Phase) (t : HeadScan) : Prop where
  ph_eq : t.ph = ph
  offset_eq : t.offset = n + 1
  index_nonneg : 0 ≤ t.index
  index_le : t.index ≤ n
  emitted : ∀ sh ∈ t.emitted, sh = (t.type, t.index, n - t.index) ∨ sh = (.headersDone, 0, 0)

theorem headAct_between {a : Action} (ha : a ∈ lineActions) {n : ℤ} (ht : Between n ph t) :
    (headAct a c t).Sat False (Between n ph) (After n ph) := by
  obtain ⟨hph, offset, nonneg, le, silent⟩ := ht
  have entered : ∀ type limit, Between n ph (t.enter type limit) := fun _ _ =>
    ⟨hph, offset, by dsimp only [HeadScan.enter]; omega, offset.le, silent⟩
  have left : ∀ u : HeadScan, u.ph = t.ph → u.offset = t.offset → u.index = t.index →
      (∀ sh ∈ u.emitted, sh = (u.type, u.index, n - u.index) ∨ sh = (.headersDone, 0, 0)) → After n ph u.next := by
    intro u h1 h2 h3 h4
    exact ⟨h1.trans hph, congrArg (· + 1) (h2.trans offset), nonneg.trans_eq h3.symm, h3.trans_le le, h4⟩
  simp only [lineActions, List.mem_cons, List.not_mem_nil, or_false] at ha
  rcases ha with rfl | rfl | rfl | rfl | rfl | rfl | rfl | rfl | rfl | rfl
  · exact entered _ _
  · exact entered _ _
  · exact entered _ _
  · exact entered _ _
  · exact entered _ _
  · exact ⟨hph, offset, nonneg, le, silent⟩
  · change (if _ then _ else _ : Flow HeadScan).Sat _ _ _
    split
    · exact left _ rfl rfl rfl fun sh hsh => absurd (silent.symm.trans hsh) (by simp)
    · exact ⟨hph, offset, nonneg, le, silent⟩
  · refine left _ rfl rfl rfl fun sh hsh => .inl ?_
    rw [← offset]
    exact (Option.some.inj hsh).symm
  · exact left _ rfl rfl rfl fun sh hsh => .inr (Option.some.inj hsh).symm
  · exact left _ rfl rfl rfl fun sh hsh => absurd (silent.symm.trans hsh) (by simp)

theorem headStep_between (live : isHead h.ph = true) (offset : h.offset = w.length) (nonneg : 0 ≤ h.index)
    (le : h.index ≤ h.offset) : (headStep c h).Sat False
      (fun t => Between (w.length + 1) (phaseStep h.ph c.toNat).1 t ∧ t.index ≤ w.length)
      (After w.length (phaseStep h.ph c.toNat).1) := by
  have real : headStep c h = headMachine.step c h := if_pos live
  have lists : ∀ a ∈ (phaseStep h.ph c.toNat).2, a ∈ lineActions := by
    rcases phaseStep_head live c.toNat with herr | hdone | ⟨-, list⟩
    · rw [herr]
      decide
    · rw [hdone]
      decide
    · exact fun a ha => (list a ha).1
  have start : Between w.length (phaseStep h.ph c.toNat).1
      { h with ph := (phaseStep h.ph c.toNat).1, emitted := none } :=
    ⟨rfl, offset, nonneg, offset ▸ le, rfl⟩
  rw [real]
  rcases phaseStep_head live c.toNat with herr | target
  · rw [Machine.step_out headMachine (t := HeadScan.next { h with ph := .error, emitted := none })
      (by rw [show headMachine.trans c h = ({ h with ph := (phaseStep h.ph c.toNat).1, emitted := none },
        (phaseStep h.ph c.toNat).2) from rfl, herr]; rfl), herr]
    exact ⟨rfl, congrArg (· + 1) offset, nonneg, offset ▸ le, nofun⟩
  have alive : (phaseStep h.ph c.toNat).1 ≠ .error := by
    intro dead
    rcases target with hdone | ⟨hhead, -⟩
    · rw [hdone] at dead
      cases dead
    · rw [dead] at hhead
      cases hhead
  refine Machine.step_sat (P := Between w.length (phaseStep h.ph c.toNat).1) headMachine ?_ fun t ht => ?_
  · exact Machine.runActs_sat headMachine (C := fun _ _ _ => True)
      (fun a ha t ht _ => @headAct_between t c _ a (lists a ha) _ ht) start (Machine.actsOk_true _ _ _ _)
  · have pure : headMachine.again t = .fall t.next := if_neg (by rw [ht.ph_eq]; exact alive)
    rw [pure]
    exact ⟨⟨ht.ph_eq, congrArg (· + 1) ht.offset_eq, ht.index_nonneg, ht.index_le.trans (by omega), ht.silent⟩, ht.index_le⟩

theorem headAct_type {a : Action} (ha : a ∈ lineActions) (other : a ≠ .version) (ht : t.type ≠ .version) :
    (headAct a c t).Sat False (fun t => t.type ≠ .version) (fun t => t.type ≠ .version) := by
  simp only [lineActions, List.mem_cons, List.not_mem_nil, or_false] at ha
  rcases ha with rfl | rfl | rfl | rfl | rfl | rfl | rfl | rfl | rfl | rfl
  · exact (show HshTokenE.method ≠ .version by decide)
  · exact (show HshTokenE.target ≠ .version by decide)
  · exact absurd rfl other
  · exact (show HshTokenE.headerKey ≠ .version by decide)
  · exact (show HshTokenE.headerValue ≠ .version by decide)
  · exact ht
  · change (if _ then _ else _ : Flow HeadScan).Sat _ _ _
    split
    · exact ht
    · exact ht
  · exact ht
  · exact ht
  · exact ht

theorem phaseStep_plain (live : isHead ph = true) (outside : ∀ i, ph ≠ .version i) (n : ℕ) :
    (∀ a ∈ (phaseStep ph n).2, a ∈ lineActions ∧ a ≠ .version) ∧
      (∀ i, (phaseStep ph n).1 = .version i → i = 0) ∧
      (pastVersion (phaseStep ph n).1 = true → pastVersion ph = true) := by
  cases ph <;> simp only [isHead, Bool.false_eq_true] at live <;>
    first | exact absurd rfl (outside _) | skip
  all_goals
    simp only [phaseStep, keyStep, phaseError, lineActions]
    repeat' split
  all_goals simp [pastVersion]

theorem headStep_type (live : isHead h.ph = true) (outside : ∀ i, h.ph ≠ .version i) (ht : h.type ≠ .version) :
    (headStep c h).Sat False (fun t => t.type ≠ .version) (fun t => t.type ≠ .version) := by
  have real : headStep c h = headMachine.step c h := if_pos live
  obtain ⟨lists, -⟩ := phaseStep_plain live outside c.toNat
  rw [real]
  refine Machine.step_sat (P := fun t => t.type ≠ .version) headMachine ?_ fun t ht => ?_
  · exact Machine.runActs_sat headMachine (C := fun _ _ _ => True)
      (fun a ha t ht _ => @headAct_type t c a (lists a ha).1 (lists a ha).2 ht) ht (Machine.actsOk_true _ _ _ _)
  · change (if t.ph = .error then Flow.out t else .fall t.next).Sat _ _ _
    split
    · exact ht
    · exact ht

theorem Texts.init : Texts [] {} [] :=
  ⟨rfl, le_refl 0, le_refl 0, show HshTokenE.method ≠ .version by decide, nofun, nofun, nofun⟩

theorem Texts.extend (inv : Texts w h shapes) (more : After w.length p t) (scanning : Scanning (w ++ [c]) t)
    (version : ∀ sh ∈ t.emitted, sh.1 = .version → IsVersion (text (w ++ [c]) sh))
    (seen : pastVersion p = true → (∃ sh ∈ t.emitted, sh.1 = .version) ∨ pastVersion h.ph = true) :
    Texts (w ++ [c]) { t with emitted := none } (shapes ++ t.emitted.toList) := by
  obtain ⟨hph, offset, nonneg, le, emitted⟩ := more
  have length : ((w ++ [c]).length : ℤ) = w.length + 1 := by simp
  refine ⟨offset.trans length.symm, nonneg, le.trans (by dsimp only; omega), scanning, fun sh hsh => ?_, fun sh hsh typed => ?_,
    fun past => ?_⟩
  · rcases List.mem_append.1 hsh with old | new
    · exact (inv.inside sh old).append [c]
    · have new : sh ∈ t.emitted := by simpa using new
      unfold Inside
      rw [length]
      rcases emitted sh new with rfl | rfl
      · refine ⟨nonneg, ?_, ?_⟩ <;> dsimp only <;> omega
      · refine ⟨le_refl _, le_refl _, ?_⟩
        dsimp only
        omega
  · rcases List.mem_append.1 hsh with old | new
    · rw [(inv.inside sh old).text_append]
      exact inv.versions sh old typed
    · exact version sh (by simpa using new) typed
  · rw [show ({ t with emitted := none } : HeadScan).ph = p from hph] at past
    rcases seen past with ⟨sh, new, typed⟩ | before
    · exact ⟨sh, List.mem_append_right _ (by simpa using new), typed⟩
    · obtain ⟨sh, old, typed⟩ := inv.seen before
      exact ⟨sh, List.mem_append_left _ old, typed⟩

theorem Texts.go (inv : Texts w h shapes) (between : Between (w.length + 1) p t) (index : t.index ≤ w.length)
    (scanning : Scanning (w ++ [c]) t) (seen : pastVersion p = true → pastVersion h.ph = true) :
    Texts (w ++ [c]) t shapes := by
  obtain ⟨hph, offset, nonneg, -, silent⟩ := between
  have all := inv.extend (c := c) ⟨hph, offset, nonneg, index, by rw [silent]; nofun⟩ scanning (by rw [silent]; nofun)
    fun past => .inr (seen past)
  rw [silent] at all
  have same : ({ t with emitted := none } : HeadScan) = t := HeadScan.ext rfl rfl rfl rfl rfl rfl silent.symm
  rw [same, Option.toList_none, List.append_nil] at all
  exact all

theorem scanning_plain (typed : t.type ≠ .version)
    (start : ∀ i, t.ph = .version i → i = 0) : Scanning w t := by
  unfold Scanning
  split
  · rename_i i ph
    have zero := start i ph
    exact ⟨by omega, fun pos => absurd zero (by omega)⟩
  · trivial
  · trivial
  · trivial
  · exact typed

theorem headStep_fall {l : List Action} (live : isHead h.ph = true) (hs : phaseStep h.ph c.toNat = (ph, l))
    (run : headMachine.runActs c l { h with ph := ph, emitted := none } = .fall t) (alive : t.ph ≠ .error) :
    headStep c h = .fall t.next := by
  unfold headStep
  rw [if_pos live, Machine.step_fall headMachine (t := t) (by simpa [headMachine, hs] using run)]
  exact if_neg alive

theorem headStep_out {l : List Action} (live : isHead h.ph = true) (hs : phaseStep h.ph c.toNat = (ph, l))
    (run : headMachine.runActs c l { h with ph := ph, emitted := none } = .out t) : headStep c h = .out t := by
  unfold headStep
  rw [if_pos live, Machine.step_out headMachine (t := t) (by simpa [headMachine, hs] using run)]

theorem headStep_error (live : isHead h.ph = true) (hs : phaseStep h.ph c.toNat = phaseError) :
    headStep c h = .out { h with ph := .error, offset := h.offset + 1, emitted := none } :=
  headStep_out live hs rfl

theorem Texts.fail (inv : Texts w h shapes) :
    Texts (w ++ [c]) { h with ph := .error, offset := h.offset + 1, emitted := none } shapes := by
  have length := inv.offset_eq
  have le := inv.index_le
  have all := inv.extend (c := c) (p := .error) (t := { h with ph := .error, offset := h.offset + 1, emitted := none })
    ⟨rfl, congrArg (· + 1) length, inv.index_nonneg, by dsimp only; omega, nofun⟩ trivial nofun nofun
  rw [Option.toList_none, List.append_nil] at all
  exact all

theorem Texts.version {i : ℕ} (inv : Texts w h shapes) (hph : h.ph = .version i) :
    (headStep c h).Sat False (fun t => Texts (w ++ [c]) t shapes)
      (fun t => Texts (w ++ [c]) { t with emitted := none } (shapes ++ t.emitted.toList)) := by
  have live : isHead h.ph = true := by rw [hph]; rfl
  have offset := inv.offset_eq
  have nonneg := inv.index_nonneg
  have le := inv.index_le
  have scanning := inv.scanning
  have seen := inv.seen
  unfold Scanning at scanning
  rw [hph] at scanning seen
  dsimp only at scanning
  by_cases char : versionChar i c.toNat = true
  swap
  · rw [headStep_error live (by simp [hph, phaseStep, char])]
    change Texts _ _ (shapes ++ [])
    rw [List.append_nil]
    exact inv.fail
  by_cases last : i = 9
  · subst last
    rw [headStep_fall live (show phaseStep h.ph c.toNat = (.firstHeader, []) by simp [hph, phaseStep, char]) rfl
      (by simp)]
    exact inv.go ⟨rfl, congrArg (· + 1) offset, nonneg, le.trans (by omega), rfl⟩ (by dsimp only [HeadScan.next]; omega)
      trivial fun _ => by rw [hph]; rfl
  by_cases first : i = 0
  · subst first
    rw [headStep_fall live (show phaseStep h.ph c.toNat = (.version 1, [.version]) by simp [hph, phaseStep, char])
      (t := { h.enter .version 16 with ph := .version 1, emitted := none }) rfl (by simp)]
    refine inv.go (p := .version 1) ⟨rfl, congrArg (· + 1) offset, ?_, ?_, rfl⟩ ?_ ?_ (by rintro ⟨⟩)
    · exact nonneg.trans le
    · dsimp only [HeadScan.next, HeadScan.enter]
      omega
    · exact offset.le
    · refine ⟨by decide, fun _ _ => ⟨rfl, ?_⟩⟩
      have part : VersionPart 0 (w.drop h.offset.toNat) := .inl (by rw [offset]; simp)
      have next := part.next (by decide) char
      change VersionPart 1 ((w ++ [c]).drop h.offset.toNat)
      rw [List.drop_append_of_le_length (by omega)]
      exact next
  obtain ⟨type, part⟩ := scanning.2 (by omega) (by omega)
  have part' : (w ++ [c]).drop h.index.toNat = w.drop h.index.toNat ++ [c] :=
    List.drop_append_of_le_length (by omega)
  by_cases eight : i = 8
  · subst eight
    rw [headStep_out live (show phaseStep h.ph c.toNat = (.version 9, [.emitToken]) by simp [hph, phaseStep, char]) rfl]
    refine inv.extend (p := .version 9) ⟨rfl, congrArg (· + 1) offset, nonneg, by dsimp only [HeadScan.next]; omega, ?_⟩
      ?_ ?_ fun _ => .inl ⟨_, rfl, type⟩
    · rintro sh hsh
      rw [← Option.some.inj hsh]
      exact .inl (by dsimp only [HeadScan.next]; rw [offset])
    · exact ⟨le_refl 9, fun _ lt => absurd lt (by decide)⟩
    · intro sh hsh _
      rw [← Option.some.inj hsh]
      have whole : text (w ++ [c]) (h.type, h.index, h.offset - h.index) = w.drop h.index.toNat := by
        unfold text
        dsimp only
        rw [part', List.take_append_of_le_length (by rw [List.length_drop]; omega)]
        exact List.take_of_length_le (by rw [List.length_drop]; omega)
      change IsVersion (text (w ++ [c]) (h.type, h.index, h.offset - h.index))
      rw [whole]
      exact part
  · rw [headStep_fall live (show phaseStep h.ph c.toNat = (.version (i + 1), []) by
      simp [hph, phaseStep, char, last, first, eight]) rfl (by simp)]
    refine inv.go (p := .version (i + 1)) ⟨rfl, congrArg (· + 1) offset, nonneg, le.trans (by omega), rfl⟩
      (by dsimp only [HeadScan.next]; omega) ?_ fun h => ?_
    · refine ⟨by omega, fun _ _ => ⟨type, ?_⟩⟩
      change VersionPart (i + 1) ((w ++ [c]).drop h.index.toNat)
      rw [part']
      exact part.next (by omega) char
    · simp only [pastVersion, decide_eq_true_eq] at h
      omega

theorem Texts.step (inv : Texts w h shapes) (live : isHead h.ph = true) :
    (headStep c h).Sat False (fun t => Texts (w ++ [c]) t shapes)
      (fun t => Texts (w ++ [c]) { t with emitted := none } (shapes ++ t.emitted.toList)) := by
  by_cases version : ∃ i, h.ph = .version i
  · obtain ⟨i, hph⟩ := version
    exact inv.version hph
  have outside : ∀ i, h.ph ≠ .version i := fun i hph => version ⟨i, hph⟩
  have between := headStep_between (c := c) live inv.offset_eq inv.index_nonneg inv.index_le
  obtain ⟨-, start, past⟩ := phaseStep_plain live outside c.toNat
  by_cases line : h.ph = .firstHeader
  · by_cases token : isTokenChar c.toNat = true
    · rw [headStep_fall live (show phaseStep h.ph c.toNat = (.key, [.resetCount, .headerKey, .incCount]) by
        simp [line, phaseStep, token]) (enters_key c _).1 (by simp [HeadScan.enter])] at between ⊢
      obtain ⟨between, index⟩ := between
      exact inv.go between index (show HshTokenE.headerKey ≠ .version by decide) past
    · rw [headStep_error live (by simp [line, phaseStep, token])]
      change Texts _ _ (shapes ++ [])
      rw [List.append_nil]
      exact inv.fail
  have typed := inv.scanning
  have typed : h.type ≠ .version := by
    unfold Scanning at typed
    split at typed
    · exact absurd ‹_› (outside _)
    · exact absurd ‹_› line
    · rename_i error
      rw [error] at live
      cases live
    · rename_i done
      rw [done] at live
      cases live
    · exact typed
  have typed := headStep_type (c := c) live outside typed
  cases hs : headStep c h with
  | fault =>
    rw [hs] at between
    exact between
  | fall t =>
    rw [hs] at between typed
    obtain ⟨between, index⟩ := between
    exact inv.go between index (scanning_plain typed (by rw [between.ph_eq]; exact start)) past
  | out t =>
    rw [hs] at between typed
    have after : After w.length (phaseStep h.ph c.toNat).1 t := between
    refine inv.extend after (scanning_plain typed (by rw [after.ph_eq]; exact start)) (fun sh hsh version => ?_) fun before => .inr (past before)
    rcases after.emitted sh hsh with rfl | rfl
    · exact absurd version typed
    · cases version

theorem headRun_texts {v : List UInt8} {breaks : List (Option Shape)} {h' : HeadScan} (inv : Texts w h shapes)
    (run : headRun v h = some (h', breaks)) : Texts (w ++ v) h' (shapes ++ breaks.reduceOption) := by
  induction v generalizing w h shapes breaks with
  | nil =>
    obtain ⟨rfl, rfl⟩ := headRun_nil run
    simpa [List.reduceOption] using inv
  | cons c v ih =>
    have live := headRun_live run
    have step := inv.step (c := c) live
    rw [headRun] at run
    rw [← List.singleton_append, ← List.append_assoc]
    cases hs : headStep c h with
    | fault => rw [hs] at run; cases run
    | fall t =>
      rw [hs] at run step
      exact ih step run
    | out t =>
      rw [hs] at run step
      obtain ⟨r, hr, heq⟩ := Option.map_eq_some_iff.1 run
      cases heq
      have rest := ih step hr
      rw [List.append_assoc] at rest
      cases emitted : t.emitted with
      | none => simpa [emitted, List.reduceOption] using rest
      | some sh => simpa [emitted, List.reduceOption] using rest

end Step

section Accepted

variable {w w' : List UInt8} {sh : Shape}

/-- The parser accepts `w` as a head. -/
def AcceptedHead (w : List UInt8) : Prop := ∃ h breaks, headRun w {} = some (h, breaks) ∧ h.ph = .headersDone

/-- The tokens of a head. -/
def headShapes (w : List UInt8) : List Shape :=
  match headRun w {} with
  | some r => r.2.reduceOption
  | none => []

theorem headShapes_of_run {h : HeadScan} {breaks : List (Option Shape)} (run : headRun w {} = some (h, breaks)) :
    headShapes w = breaks.reduceOption := by
  unfold headShapes
  rw [run]

theorem AcceptedHead.texts (accepted : AcceptedHead w) : ∃ h : HeadScan, h.ph = .headersDone ∧ Texts w h (headShapes w) := by
  obtain ⟨h, breaks, run, done⟩ := accepted
  rw [headShapes_of_run run]
  exact ⟨h, done, headRun_texts .init run⟩

theorem AcceptedHead.inside (accepted : AcceptedHead w) (mem : sh ∈ headShapes w) : Inside w sh := by
  obtain ⟨h, -, texts⟩ := accepted.texts
  exact texts.inside sh mem

theorem AcceptedHead.isVersion (accepted : AcceptedHead w) (mem : sh ∈ headShapes w) (typed : sh.1 = .version) :
    IsVersion (text w sh) := by
  obtain ⟨h, -, texts⟩ := accepted.texts
  exact texts.versions sh mem typed

theorem AcceptedHead.version (accepted : AcceptedHead w) : ∃ sh ∈ headShapes w, sh.1 = .version := by
  obtain ⟨h, done, texts⟩ := accepted.texts
  exact texts.seen (by rw [done]; rfl)

theorem AcceptedHead.last (accepted : AcceptedHead w) : ∃ front, headShapes w = front ++ [(.headersDone, 0, 0)] := by
  obtain ⟨h, breaks, run, done⟩ := accepted
  rcases headRun_kinds rfl finalCount_init run with ⟨live, -⟩ | ⟨error, -⟩ | ⟨-, last⟩
  · rw [done] at live
    cases live
  · rw [done] at error
    cases error
  · obtain ⟨front, rfl⟩ := List.getLast?_eq_some_iff.1 last
    exact ⟨front.reduceOption, by rw [headShapes_of_run run]; simp [List.reduceOption]⟩

/-- Of two accepted heads neither is a proper prefix of the other. -/
theorem AcceptedHead.eq_of_prefix (accepted : AcceptedHead w) (accepted' : AcceptedHead w') (le : w <+: w') : w' = w := by
  obtain ⟨h, breaks, run, done⟩ := accepted
  obtain ⟨h', breaks', run', -⟩ := accepted'
  obtain ⟨rest, rfl⟩ := le
  rw [headRun_append, run, Option.bind_some] at run'
  obtain ⟨r, hr, -⟩ := Option.map_eq_some_iff.1 run'
  rw [(headRun_done done hr).1, List.append_nil]

end Accepted

end HttpServer.HeadTexts
