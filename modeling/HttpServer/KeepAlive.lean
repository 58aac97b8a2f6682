import HttpServer.FirstRequests

set_option autoImplicit false

/-!
# Whether the connection is kept

The version and the `Connection` header of the first request decide it, and the response says so. The code
compares the value of the header as the parser left it, with the blanks behind it.
-/
namespace HttpServer.KeepAlive
open ParserGrammar HttpServer.Parser ReadBuffer HeadMachine HeadGrammar HeadSoundness HeadTexts KeptHeads RequestRuns
  PrintBuffer RequestUtil Respond ResponseText Connection ConnectionSteps ConnectionInvariant HeldRequests
  AnsweredRequests ServedRequests ResponseFronts FirstRequests

section Purpose

/-- The names and the values of the headers of `w`. -/
def headerLines (w : List UInt8) : List Shape → List (List UInt8 × List UInt8)
  | key :: value :: shapes =>
    if key.1 = .headerKey then (text w key, text w value) :: headerLines w (value :: shapes)
    else headerLines w (value :: shapes)
  | _ => []

/-- The value of the first header with a name, ignoring case. -/
def headerField (w name : List UInt8) : Option (List UInt8) :=
  ((headerLines w (headShapes w)).find? fun line => line.1.map lower = name.map lower).map Prod.snd

def versionText (w : List UInt8) : List UInt8 :=
  (((headShapes w).find? fun sh => sh.1 = .version).map (text w)).getD []

def trim (s : List UInt8) : List UInt8 := ((s.dropWhile isWs).reverse.dropWhile isWs).reverse

def connectionValue (w : List UInt8) : Option (List UInt8) := headerField w (ascii "Connection")

def connectionWord (w : List UInt8) : Option (List UInt8) := (connectionValue w).map fun v => (trim v).map lower

/-- The client asks for the connection to be closed, or does not ask for it to be kept in HTTP/1.0. -/
def ShouldClose (w : List UInt8) : Prop :=
  connectionWord w = some (ascii "close") ∨ versionText w = http10 ∧ connectionWord w ≠ some (ascii "keep-alive")

instance (w : List UInt8) : Decidable (ShouldClose w) := inferInstanceAs (Decidable (_ ∨ _))

/-- What `hs_request_detect_keep_alive_flag` closes. -/
def Closes (w : List UInt8) : Prop :=
  (connectionValue w).map (List.map lower) = some (ascii "close") ∨
    (connectionValue w).getD [] = [] ∧ versionText w = http10

instance (w : List UInt8) : Decidable (Closes w) := inferInstanceAs (Decidable (_ ∨ _))

/-- `close` has no blanks around it, and in HTTP/1.0 no other word than `close` and `keep-alive` is sent. -/
def PlainConnection (w : List UInt8) : Prop :=
  ∀ v ∈ connectionValue w, ((trim v).map lower = ascii "close" → trim v = v) ∧
    (versionText w = http10 → (trim v).map lower ≠ ascii "close" → (trim v).map lower ≠ ascii "keep-alive" → v = [])

instance (w : List UInt8) : Decidable (PlainConnection w) := inferInstanceAs (Decidable (∀ v ∈ _, _))

variable {w v : List UInt8}

theorem dropWhile_none {p : UInt8 → Bool} (h : ∀ c ∈ v, p c = false) : v.dropWhile p = v := by
  cases v with
  | nil => rfl
  | cons c v => exact List.dropWhile_cons_of_neg (by rw [h c List.mem_cons_self]; decide)

theorem trim_none (h : ∀ c ∈ v, isWs c = false) : trim v = v := by
  unfold trim
  rw [dropWhile_none h, dropWhile_none (fun c hc => h c (List.mem_reverse.1 hc)), List.reverse_reverse]

theorem trim_of_lower {word : List UInt8} (same : v.map lower = word) (plain : ∀ c ∈ word, isWs c = false) : trim v = v := by
  refine trim_none fun c hc => ?_
  have blank : isWs c = true → lower c = c := by
    simp only [isWs, Bool.or_eq_true, decide_eq_true_eq]
    rintro (rfl | rfl) <;> rfl
  have image : isWs (lower c) = false := plain _ (same ▸ List.mem_map_of_mem hc)
  by_contra ws
  have ws := eq_true_of_ne_false ws
  rw [blank ws, ws] at image
  cases image

/-- With a value: `found` and `empty` are what the code compares, `close` and `keep` the words, `old` is HTTP/1.0. -/
theorem decision_iff {found empty close keep old bare : Prop} (found_bare : found → bare) (found_close : found → close)
    (close_found : close → bare → found) (empty_close : empty → ¬ close) (empty_keep : empty → ¬ keep) :
    ((found ∨ empty ∧ old) ↔ (close ∨ old ∧ ¬ keep)) ↔ ((close → bare) ∧ (old → ¬ close → ¬ keep → empty)) := by
  constructor
  · intro same
    refine ⟨fun isClose => ?_, fun isOld notClose notKeep => ?_⟩
    · exact (same.2 (.inl isClose)).elim found_bare fun h => absurd isClose (empty_close h.1)
    · exact (same.2 (.inr ⟨isOld, notKeep⟩)).elim (fun h => absurd (found_close h) notClose) And.left
  · rintro ⟨closeBare, oldEmpty⟩
    constructor
    · rintro (h | ⟨h, isOld⟩)
      · exact .inl (found_close h)
      · exact .inr ⟨isOld, empty_keep h⟩
    · rintro (h | ⟨isOld, notKeep⟩)
      · exact .inl (close_found h (closeBare h))
      · by_cases h : close
        · exact .inl (close_found h (closeBare h))
        · exact .inr ⟨oldEmpty isOld h notKeep, isOld⟩

/-- The code decides as it should on the plain values only. -/
theorem closes_iff : (Closes w ↔ ShouldClose w) ↔ PlainConnection w := by
  unfold Closes ShouldClose PlainConnection connectionWord
  cases hv : connectionValue w with
  | none => simp
  | some v =>
    have plain : ∀ c ∈ ascii "close", isWs c = false := by decide +kernel
    have found_bare : v.map lower = ascii "close" → trim v = v := fun same => trim_of_lower same plain
    have empty_word : v = [] → (trim v).map lower = [] := by
      rintro rfl
      rfl
    have words : [] ≠ ascii "close" ∧ [] ≠ ascii "keep-alive" := by decide +kernel
    simp only [Option.map_some, Option.some.injEq, Option.getD_some, Option.mem_def, forall_eq', ne_eq]
    exact decision_iff found_bare (fun h => (found_bare h).symm ▸ h) (fun h bare => bare ▸ h)
      (fun h h' => words.1 ((empty_word h).symm.trans h')) (fun h h' => words.2 ((empty_word h).symm.trans h'))

end Purpose

section Detection

variable {max : ℤ} {w key : List UInt8} {b : HshBufferS} {sh : Shape} {request : HttpRequestS}

theorem text_length (inside : Inside w sh) : ((text w sh).length : ℤ) = sh.2.2 := by
  obtain ⟨lo, len, hi⟩ := inside
  unfold text
  rw [List.length_take, List.length_drop]
  omega

theorem front_byte (front : Front max w b) {i : ℤ} (lo : 0 ≤ i) (hi : i < w.length) :
    byteAt b (b.buf + i) = some (w.getD i.toNat 0) := by
  have ok := front.ok
  have pos := ok.buf_pos
  have le := ok.ahi_le
  have ahi := front.ahi_eq
  obtain ⟨held, -⟩ := ok.held rfl
  have value : b.data i = w.getD i.toNat 0 := by
    obtain ⟨n, rfl⟩ := Int.eq_ofNat_of_zero_le lo
    have lt : n < w.length := by omega
    have whole := slice_getElem b.data 0 w.length n (by rw [slice_length]; exact lt)
    rw [zero_add] at whole
    rw [← whole, Int.toNat_natCast, List.getD_eq_getElem _ _ lt]
    congr 1
    exact front.text
  unfold byteAt
  rw [if_pos ⟨pos.ne', by omega, by omega⟩, add_sub_cancel_left, value]

theorem cmp_eq (front : Front max w b) {i : ℤ} (lo : 0 ≤ i) (hi : i + key.length ≤ w.length) :
    hsCaseInsensitiveCmp b (b.buf + i) key =
      some (decide (((w.drop i.toNat).take key.length).map lower = key.map lower)) := by
  induction key generalizing i with
  | nil => simp [hsCaseInsensitiveCmp]
  | cons k key ih =>
    rw [List.length_cons] at hi ⊢
    push_cast at hi
    have lt : i.toNat < w.length := by omega
    have rest := ih (i := i + 1) (by omega) (by omega)
    rw [show (i + 1).toNat = i.toNat + 1 by omega, ← add_assoc] at rest
    rw [hsCaseInsensitiveCmp, front_byte front lo (by omega), rest, List.getD_eq_getElem _ _ lt,
      List.drop_eq_getElem_cons lt, List.take_succ_cons, List.map_cons, List.map_cons]
    dsimp only
    by_cases same : lower w[i.toNat] = lower k
    · rw [if_neg (not_not.2 same)]
      simp [same]
    · rw [if_pos same]
      simp [same]

theorem key_iff (front : Front max w b) (inside : Inside w sh) :
    (sh.2.2 = key.length ∧ hsCaseInsensitiveCmp b (b.buf + sh.2.1) key = some true) ↔
      (text w sh).map lower = key.map lower := by
  have length := text_length inside
  obtain ⟨lo, len, hi⟩ := inside
  constructor
  · rintro ⟨same, found⟩
    rw [cmp_eq front lo (by omega)] at found
    have found := of_decide_eq_true (Option.some.inj found)
    unfold text
    rw [same, Int.toNat_natCast]
    exact found
  · intro found
    have same : sh.2.2 = key.length := by
      have := congrArg List.length found
      rw [List.length_map, List.length_map] at this
      omega
    refine ⟨same, ?_⟩
    rw [cmp_eq front lo (by omega)]
    unfold text at found
    rw [same, Int.toNat_natCast] at found
    exact congrArg some (decide_eq_true found)

/-- What `hs_request_header` returns. -/
def Found (w : List UInt8) (request : HttpRequestS) (shapes : List Shape) (str : HttpStringT) (field : Option (List UInt8)) :
    Prop :=
  (∃ sh ∈ shapes, str = { buf := request.buffer.buf + sh.2.1, len := sh.2.2 } ∧ field = some (text w sh)) ∨
    (str = {} ∧ field = none)

theorem findHeader_found (front : Front max w request.buffer) {tokens pieces : List HshTokenS}
    (inside : ∀ t ∈ tokens, Inside w (shape t)) (last : ∀ t ∈ tokens.getLast?, t.type ≠ .headerKey)
    (body : ∀ t ∈ pieces, t.type = .body) : ∃ str, findHeader request key (tokens ++ pieces) = some str ∧
      Found w request (tokens.map shape) str
        (((headerLines w (tokens.map shape)).find? fun line => line.1.map lower = key.map lower).map Prod.snd) := by
  induction tokens with
  | nil =>
    refine ⟨{}, ?_, .inr ⟨rfl, rfl⟩⟩
    rw [List.nil_append]
    induction pieces with
    | nil => rfl
    | cons t pieces ih =>
      have typed := body t List.mem_cons_self
      rw [findHeader.eq_def]
      dsimp only
      rw [if_neg (by rw [typed]; simp)]
      exact ih fun t ht => body t (List.mem_cons_of_mem _ ht)
  | cons t tokens ih =>
    have rest := ih (fun t ht => inside t (List.mem_cons_of_mem _ ht)) (fun u hu => last u (by
      rw [List.getLast?_cons]
      simp only [Option.mem_def] at hu ⊢
      rw [hu]
      rfl))
    have more : ∀ {str field}, Found w request (tokens.map shape) str field →
        Found w request ((t :: tokens).map shape) str field := by
      rintro str field (⟨sh, hsh, eq⟩ | none)
      · exact .inl ⟨sh, List.mem_cons_of_mem _ hsh, eq⟩
      · exact .inr none
    have here := @key_iff max w key request.buffer (shape t) front (inside t List.mem_cons_self)
    rw [List.cons_append, findHeader.eq_def]
    dsimp only
    cases tokens with
    | nil =>
      have typed := last t rfl
      rw [if_neg (fun h => typed h.1)]
      obtain ⟨str, found, eq⟩ := rest
      exact ⟨str, found, more eq⟩
    | cons v tokens =>
      rw [List.map_cons, List.map_cons, headerLines]
      by_cases typed : t.type = .headerKey
      swap
      · rw [if_neg (fun h => typed h.1), if_neg (show ¬ (shape t).1 = .headerKey from typed)]
        obtain ⟨str, found, eq⟩ := rest
        exact ⟨str, found, more eq⟩
      rw [if_pos (show (shape t).1 = .headerKey from typed), List.find?_cons]
      by_cases same : (text w (shape t)).map lower = key.map lower
      · obtain ⟨length, found⟩ := here.2 same
        rw [if_pos ⟨typed, length⟩, show hsCaseInsensitiveCmp request.buffer (request.buffer.buf + t.index) key = some true
          from found]
        simp only [same, decide_true, Option.map_some]
        exact ⟨_, rfl, .inl ⟨shape v, by simp, rfl, rfl⟩⟩
      · simp only [same, decide_false]
        obtain ⟨str, found, eq⟩ := rest
        refine ⟨str, ?_, more eq⟩
        by_cases length : t.len = key.length
        · obtain ⟨lo, -, hi⟩ := inside t List.mem_cons_self
          have compared := @cmp_eq _ _ key _ front _ lo (by rw [← length]; exact hi)
          have other : hsCaseInsensitiveCmp request.buffer (request.buffer.buf + t.index) key = some false := by
            refine compared.trans (congrArg some (decide_eq_false fun equal => same (here.1 ⟨length, ?_⟩)))
            exact compared.trans (congrArg some (decide_eq_true equal))
          rw [if_pos ⟨typed, length⟩, other]
          exact found
        · rw [if_neg (fun h => length h.2)]
          exact found

theorem version_token {head : List HshTokenS} (accepted : AcceptedHead w) (shapes : head.map shape = headShapes w) :
    ∃ t : HshTokenS, (head.find? fun t => t.type = .version) = some t ∧ Inside w (shape t) ∧
      versionText w = text w (shape t) ∧ IsVersion (text w (shape t)) := by
  have found : (headShapes w).find? (fun sh => sh.1 = .version) =
      (head.find? fun t => t.type = .version).map shape := by
    rw [← shapes, List.find?_map]
    rfl
  cases hf : head.find? fun t => t.type = .version with
  | none =>
    obtain ⟨sh, mem, typed⟩ := accepted.version
    rw [hf, Option.map_none] at found
    exact absurd (decide_eq_true typed) (List.find?_eq_none.1 found sh mem)
  | some t =>
    rw [hf, Option.map_some] at found
    have mem := List.mem_of_find?_eq_some found
    have typed := List.find?_some found
    refine ⟨t, rfl, accepted.inside mem, ?_, accepted.isVersion mem (of_decide_eq_true typed)⟩
    unfold versionText
    rw [found]
    rfl

theorem version_found (accepted : AcceptedHead w) (shows : Shows w request.tokens) : ∃ t : HshTokenS,
    hsGetTokenString request .version = tokenString request t ∧ Inside w (shape t) ∧ versionText w = text w (shape t) ∧
      IsVersion (text w (shape t)) := by
  obtain ⟨head, pieces, tokens, shapes, -⟩ := shows
  obtain ⟨t, found, inside, versionEq, isVersion⟩ := version_token accepted shapes
  refine ⟨t, ?_, inside, versionEq, isVersion⟩
  unfold hsGetTokenString
  rw [tokens, List.find?_append, found]
  rfl

theorem version_byte (front : Front max w b) (inside : Inside w sh) (version : IsVersion (text w sh)) :
    ∃ c, byteAt b (b.buf + sh.2.1 + sh.2.2 - 1) = some c ∧ (c ≠ 49 ↔ text w sh = http10) := by
  have length := text_length inside
  obtain ⟨lo, len, hi⟩ := inside
  have eight : (text w sh).length = 8 := by
    rcases version with h | h <;> rw [h] <;> rfl
  refine ⟨w.getD (sh.2.1 + sh.2.2 - 1).toNat 0, ?_, ?_⟩
  · rw [show b.buf + sh.2.1 + sh.2.2 - 1 = b.buf + (sh.2.1 + sh.2.2 - 1) by ring]
    exact front_byte front (by omega) (by omega)
  · have last : w.getD (sh.2.1 + sh.2.2 - 1).toNat 0 = (text w sh).getD 7 0 := by
      unfold text
      rw [List.getD_eq_getElem?_getD, List.getD_eq_getElem?_getD, List.getElem?_take_of_lt (by omega),
        List.getElem?_drop]
      congr 2
      omega
    rw [last]
    rcases version with h | h <;> rw [h] <;> decide +kernel

theorem field_found (front : Front max w request.buffer) (accepted : AcceptedHead w) (shows : Shows w request.tokens) :
    ∃ str, hsRequestHeader request key = some str ∧ Found w request (headShapes w) str (headerField w key) := by
  obtain ⟨head, pieces, tokens, shapes, body⟩ := shows
  obtain ⟨init, last⟩ := accepted.last
  have inside : ∀ t ∈ head, Inside w (shape t) := fun t ht =>
    accepted.inside (by rw [← shapes]; exact List.mem_map_of_mem ht)
  have noKey : ∀ t ∈ head.getLast?, t.type ≠ .headerKey := by
    intro t ht typed
    have done : (headShapes w).getLast? = some (shape t) := by
      rw [← shapes, List.getLast?_map, ht]
      rfl
    rw [last, List.getLast?_concat] at done
    have := congrArg Prod.fst (Option.some.inj done)
    rw [show (shape t).1 = t.type from rfl, typed] at this
    cases this
  have all := @findHeader_found max w key request front head pieces inside noKey body
  rw [← tokens, shapes] at all
  exact all

theorem detect_eq (front : Front max w request.buffer) (accepted : AcceptedHead w) (shows : Shows w request.tokens) :
    hsRequestDetectKeepAliveFlag request = some { request with
      flags := if Closes w then httpFlagClear request.flags httpKeepAlive else httpFlagSet request.flags httpKeepAlive } := by
  obtain ⟨t, version, inside, versionEq, isVersion⟩ := version_found accepted shows
  obtain ⟨c, byte, old⟩ := version_byte front inside isVersion
  obtain ⟨str, header, found⟩ := @field_found max w (ascii "Connection") request front accepted shows
  have pos := front.ok.buf_pos
  have lo : 0 ≤ t.index := inside.1
  have five : (ascii "close").length = 5 := rfl
  -- the comparison with the value
  have compared : ∃ r, (if str.len = 5 then hsCaseInsensitiveCmp request.buffer str.buf (ascii "close")
      else some (decide (str.len = 0 ∧ c ≠ 49))) = some r ∧ (r = true ↔ Closes w) := by
    unfold Closes connectionValue
    rw [versionEq, ← old]
    rcases found with ⟨sh, mem, rfl, value⟩ | ⟨rfl, value⟩
    · have inside' := accepted.inside mem
      have length := text_length inside'
      have key := @key_iff max w (ascii "close") request.buffer sh front inside'
      rw [five] at key
      have empty : text w sh = [] ↔ sh.2.2 = 0 := by
        rw [← List.length_eq_zero_iff]
        omega
      have word : (ascii "close").map lower = ascii "close" := by decide +kernel
      rw [value, Option.map_some, Option.some.injEq, Option.getD_some, empty]
      rw [word] at key
      by_cases size : sh.2.2 = 5
      · have room : sh.2.1 + (ascii "close").length ≤ w.length := by
          have all := inside'.2.2
          rw [size] at all
          exact all
        have cmp := cmp_eq front inside'.1 room
        refine ⟨_, (if_pos size).trans cmp, ?_⟩
        rw [cmp, Option.some.injEq] at key
        rw [← key]
        constructor
        · exact fun same => .inl ⟨size, same⟩
        · rintro (⟨-, same⟩ | ⟨zero, -⟩)
          · exact same
          · omega
      · exact ⟨_, if_neg size, by
          rw [decide_eq_true_iff]
          exact ⟨.inr, fun h => h.resolve_left fun h => size (key.2 h).1⟩⟩
    · rw [value]
      exact ⟨_, if_neg (by decide), by simp⟩
  obtain ⟨r, compared, closes⟩ := compared
  have known : byteAt request.buffer ((tokenString request t).buf + (tokenString request t).len - 1) = some c := byte
  have some_buf : (tokenString request t).buf ≠ 0 := by
    change request.buffer.buf + t.index ≠ 0
    omega
  unfold hsRequestDetectKeepAliveFlag
  dsimp only
  rw [version, if_neg some_buf, known, header]
  dsimp only
  rw [compared]
  cases r with
  | true => rw [if_pos (closes.1 rfl)]
  | false => rw [if_neg fun h => absurd (closes.2 h) (by decide)]

end Detection

section Written

def completed (events : List Event) : ℕ :=
  events.countP fun
    | .responded _ => true
    | _ => false

/-- A head was parsed to its end, and its body is streamed or there is none. -/
def overlapped (events : List Event) : Bool :=
  events.any fun
    | .push _ token => token.type = .headersDone && startsHandler token
    | _ => false

def kept (c : Conn) : Bool := httpFlagCheck c.request.flags httpKeepAlive

def inChunks (c : Conn) : Bool := httpFlagCheck c.request.flags httpChunkedResponse

/-- User code goes on with the response, and leaves the decision to the server. -/
def Continues (_ : Conn) : Label → Prop
  | .call (.respond _ _) | .call (.connection _) => False
  | _ => True

instance (c : Conn) (l : Label) : Decidable (Continues c l) :=
  match l with
  | .call (.respond _ _) | .call (.connection _) => isFalse id
  | .call (.respondChunk _ _) | .call (.respondChunkEnd _ _) | .call .readChunk | .call .freeBuffer | .exec _ _
  | .socketEvent | .timerEvent | .read _ | .write _ | .callbackReturn | .finalChunk => isTrue trivial

/-- What user code keeps to until the response is written. -/
def AfterResponse (c : Conn) (l : Label) : Prop := Protocol c l ∧ Continues c l

instance (c : Conn) (l : Label) : Decidable (AfterResponse c l) := inferInstanceAs (Decidable (_ ∧ _))

structure Going (s c : Conn) : Prop where
  decided : ∃ more, c.events = s.events ++ more ∧ (completed c.events = 0 → kept c = (kept s || overlapped more))
  chunked : completed c.events = 0 → c.live = true → c.request.state ≠ .write → inChunks c = true

variable {cfg : Config} {s c c' d : Conn} {l : Label} {stack : List Frame}

theorem completed_append (events more : List Event) : completed (events ++ more) = completed events + completed more :=
  List.countP_append

theorem overlapped_append (events more : List Event) : overlapped (events ++ more) = (overlapped events || overlapped more) :=
  List.any_append

theorem going_start (state : s.request.state = .write) : Going s s :=
  ⟨⟨[], (List.append_nil _).symm, fun _ => (Bool.or_false _).symm⟩, fun _ _ notWrite => absurd state notWrite⟩

theorem Going.next (h : Going s c) {more : List Event} (events : d.events = c.events ++ more)
    (keep : completed c.events = 0 → kept d = (kept c || overlapped more))
    (chunked : completed d.events = 0 → d.live = true → d.request.state ≠ .write → inChunks d = true) : Going s d := by
  have earlier : completed d.events = 0 → completed c.events = 0 := by
    rw [events, completed_append]
    omega
  obtain ⟨⟨old, eq, before⟩, -⟩ := h
  refine ⟨⟨old ++ more, by rw [events, eq, List.append_assoc], fun none => ?_⟩, chunked⟩
  rw [overlapped_append, ← Bool.or_assoc, ← before (earlier none)]
  exact keep (earlier none)

theorem Going.same (h : Going s c) {more : List Event} (flags : d.request.flags = c.request.flags)
    (events : d.events = c.events ++ more) (quiet : overlapped more = false)
    (chunked : completed c.events = 0 → d.live = true → d.request.state ≠ .write → inChunks c = true) : Going s d := by
  refine h.next events (fun _ => ?_) fun none live state => ?_
  · rw [quiet, Bool.or_false]
    exact congrArg (httpFlagCheck · httpKeepAlive) flags
  · rw [events, completed_append] at none
    exact (congrArg (httpFlagCheck · httpChunkedResponse) flags).trans (chunked (by omega) live state)

theorem streamed_bits (flags : BitVec 8) : httpFlagCheck (httpFlagSet flags httpFlgStreamed) httpKeepAlive = true ∧
    httpFlagCheck (httpFlagSet flags httpFlgStreamed) httpChunkedResponse = httpFlagCheck flags httpChunkedResponse := by
  revert flags
  decide

theorem chunkEnd_bits (flags : BitVec 8) :
    httpFlagCheck (httpFlagClear flags httpChunkedResponse) httpKeepAlive = httpFlagCheck flags httpKeepAlive := by
  revert flags
  decide

theorem Going.step (session : Session (fun _ _ _ => True) cfg c) (h : Going s c) (protocol : Protocol c l)
    (continues : Continues c l) (move : Move cfg c l c') : Going s c' := by
  have steady := session.steady
  have entered_flags : ∀ env d, (entered cfg env d).request.flags = d.request.flags := by
    intro env d
    unfold entered initBuffer
    split <;> rfl
  -- where the library reads or user code runs, the response is in chunks
  have reading : ∀ {frame stack}, c.stack = frame :: stack → frame = .readRequest ∨ frame = .parseBuffer →
      completed c.events = 0 → inChunks c = true := by
    intro frame stack hstack reads none
    have live : c.live = true := (steady.library hstack (by rcases reads with rfl | rfl <;> rfl)).live
    exact h.chunked none live (by rw [(steady.reading hstack reads).1]; decide)
  have holding : outstanding c.events = true → c.live = true → completed c.events = 0 → inChunks c = true := by
    intro held live none
    exact h.chunked none live (by rw [session.held.1 held]; decide)
  cases move with
  | wakeRead => exact @Going.same s c _ h [] rfl (by simp) rfl fun none => h.chunked none
  | wakeWrite => exact @Going.same s c _ h [] rfl (by simp) rfl fun none => h.chunked none
  | swallow => exact h
  | tick => exact @Going.same s c _ h [] rfl (by simp [setTimeout]) rfl fun none => h.chunked none
  | expire => exact @Going.same s c _ h [.terminate] rfl rfl rfl (by rintro _ ⟨⟩)
  | readSkip hstack => 
    exact @Going.same s c _ h [] (entered_flags _ _) (by simp [popped]) rfl fun none _ _ => reading hstack (.inl rfl) none
  | @readEof env _ _ hstack =>
    exact @Going.same s c _ h [.read (env.readCalls.map ReadCall.result), .terminate] (entered_flags _ _)
      (by simp [hsRequestTerminateConnection, filled, popped]) rfl fun none _ _ => reading hstack (.inl rfl) none
  | @readMore env _ _ hstack =>
    exact @Going.same s c _ h [.read (env.readCalls.map ReadCall.result)] (entered_flags _ _)
      (by simp [filled, popped]) rfl fun none _ _ => reading hstack (.inl rfl) none
  | execNone hstack =>
    exact @Going.same s c _ h [] rfl (by simp [parsed, popped]) rfl fun none _ _ => reading hstack (.inr rfl) none
  | execErr hstack hr type =>
    obtain ⟨-, rfl | left, -⟩ := session.kept.exec steady session.buffered hstack hr
    · cases type
    · exact absurd type left.2.1
  | @execLine _ _ _ token _ _ hstack _ type =>
    refine @Going.same s c _ h [.push c.serial token] rfl rfl ?_ fun none _ _ => reading hstack (.inr rfl) none
    simp only [overlapped, List.any_cons, List.any_nil, Bool.or_false, Bool.and_eq_false_iff, decide_eq_false_iff_not]
    exact not_or_of_imp type.2.2.2 |>.imp_left id
  | @execHead _ _ _ token _ _ hstack _ type starts =>
    obtain ⟨set, chunk⟩ := streamed_bits c.request.flags
    refine @Going.next s c _ h [.push c.serial token, .invoke c.serial .requestHandler _] (List.append_assoc _ [_] [_])
      (fun _ => ?_) fun none _ _ => ?_
    · refine set.trans ?_
      simp [overlapped, type, starts]
    · have events : completed (c.events ++ [.push c.serial token, .invoke c.serial .requestHandler _]) = 0 :=
        (congrArg completed (List.append_assoc _ [_] [_])).symm.trans none
      rw [completed_append] at events
      exact chunk.trans (reading hstack (.inr rfl) (by omega))
  | @execSmall _ _ _ token _ _ hstack _ type =>
    exact @Going.same s c _ h [.push c.serial token, .invoke c.serial .requestHandler _] rfl (List.append_assoc _ [_] [_])
      (by simp [overlapped, type]) fun none _ _ => reading hstack (.inr rfl) none
  | @execFinal _ _ _ token _ _ hstack _ type =>
    exact @Going.same s c _ h [.push c.serial token, .invoke c.serial .chunkCb _] rfl (List.append_assoc _ [_] [_])
      (by simp [overlapped, type]) fun none _ _ => reading hstack (.inr rfl) none
  | @execPiece _ _ _ token _ _ hstack _ type =>
    exact @Going.same s c _ h [.push c.serial token, .invoke c.serial .chunkCb _] rfl (List.append_assoc _ [_] [_])
      (by simp [overlapped, type]) fun none _ _ => reading hstack (.inr rfl) none
  | @writeMore call _ hstack =>
    exact @Going.same s c _ h [.write call.bytes] rfl rfl rfl fun _ _ state => absurd (steady.writing hstack).1 state
  | @writeErr call =>
    exact @Going.same s c _ h [.write call.bytes, .terminate] rfl
      (by simp [hsRequestTerminateConnection, finished, written, popped]) rfl (by rintro _ ⟨⟩)
  | @writeClose call =>
    exact @Going.same s c _ h [.write call.bytes, .responded c.serial, .terminate] rfl
      (by simp [hsRequestTerminateConnection, finished, written, popped]) rfl (by rintro _ ⟨⟩)
  | @writeNext call stack =>
    have done : completed (c.events ++ [.write call.bytes, .responded c.serial, .watch .epollin]) ≠ 0 := by
      rw [completed_append]
      simp [completed]
    have events : (hsRequestBeginRead ((finished httpKeepAliveTimeout (written call (popped stack c))).log
        (.responded c.serial))).events = c.events ++ [.write call.bytes, .responded c.serial, .watch .epollin] := by
      simp [hsRequestBeginRead, finished, written, popped]
    refine @Going.next s c _ h _ events (fun _ => (Bool.or_false _).symm) fun none => ?_
    exact absurd (events ▸ none) done
  | @writeChunk call _ _ _ _ chunk =>
    exact @Going.same s c _ h [.write call.bytes, .invoke c.serial .chunkCb _] rfl (List.append_assoc _ [_] [_]) rfl
      fun _ _ _ => chunk
  | @respond call _ _ request _ user live hcall hf =>
    refine @Going.next s c _ h [.response request, .watch .epollout] (List.append_assoc _ [_] [_]) (fun none => ?_)
      fun _ _ state => absurd rfl state
    have chunk : httpFlagCheck c.request.flags httpChunkedResponse = true := holding (protocol.1 _ rfl) live none
    rw [show overlapped [.response request, .watch .epollout] = false from rfl, Bool.or_false]
    cases call with
    | respond => exact absurd continues id
    | respondChunk response env =>
      cases hcall
      have flags := hsRequestRespondChunk_flags hf
      rw [if_pos chunk] at flags
      exact congrArg (httpFlagCheck · httpKeepAlive) flags
    | respondChunkEnd response env =>
      cases hcall
      have flags := hsRequestRespondChunkEnd_flags hf
      exact (congrArg (httpFlagCheck · httpKeepAlive) flags).trans (chunkEnd_bits _)
    | _ => cases hcall
  | readChunk user live =>
    exact @Going.same s c _ h [.watch .epollin] rfl rfl rfl fun none _ _ => holding (protocol.1 _ rfl) live none
  | freeBuffer user live =>
    exact @Going.same s c _ h [] rfl (by simp [finished]) rfl fun none _ _ => holding (protocol.1 _ rfl) live none
  | connection => exact absurd continues id
  | callbackReturn => exact @Going.same s c _ h [] rfl (by simp [popped]) rfl fun none => h.chunked none
  | @finalChunk serial _ hstack live =>
    obtain ⟨-, -, state, -, -, -⟩ := session.kept.final _ (by rw [hstack]; exact List.mem_cons_self)
    exact @Going.same s c _ h [.push serial { type := .body }, .invoke serial .chunkCb _] rfl
      (List.append_assoc _ [_] [_]) rfl fun none _ _ => h.chunked none live state

end Written

section Answers

variable {cfg : Config} {response : HttpResponseS} {env : RespondEnv} {call : UserCall} {c s e d : Conn}
  {date : CString} {request : HttpRequestS} {w : List UInt8}

/-- The call that starts a response. -/
inductive Starts (response : HttpResponseS) (env : RespondEnv) : UserCall → Prop
  | respond : Starts response env (.respond response env)
  | respondChunk : Starts response env (.respondChunk response env)

/-- The first request of a connection is answered: `c` is the state before the response starts, `s` the one after it,
    and the last byte is written in the step from `e` to `d`. -/
structure Answer (cfg : Config) (response : HttpResponseS) (env : RespondEnv) (c s e d : Conn) : Prop where
  before : Runs.Reached (Connection.step cfg) Accepted BeforeResponse c
  start : ∃ call, Starts response env call ∧ Protocol c (.call call) ∧ Connection.step cfg c (.call call) = some s
  after : Runs.Reached (Connection.step cfg) (· = s) AfterResponse e
  unfinished : completed e.events = 0
  last : ∃ call, Connection.step cfg e (.write call) = some d
  finished : completed d.events ≠ 0

/-- A head was parsed to its end between two states. -/
def overlapping (s e : Conn) : Bool := overlapped (since s e)

def Reads (d : Conn) : Prop := d.live = true ∧ d.request.state = .read ∧ d.stack.head? = some .readRequest

/-- What the response that starts in `s` says, and what happens to the connection once it is written. -/
structure Decided (w : List UInt8) (date : CString) (response : HttpResponseS) (s d : Conn) : Prop where
  word : Says date response s.request false ↔ d.live = false
  close : d.live = false ↔ ShouldClose w
  keep : ¬ ShouldClose w → Says date response s.request true ∧ Reads d

theorem says_exclusive (keep : Says date response request true) (close : Says date response request false) : False := by
  unfold Says frontLines at keep close
  rw [← List.cons_append, List.flatten_append] at keep close
  have differ : ¬ [headerLine (cstring "Connection", ResponseFronts.connectionWord true)].flatten <+:
      [headerLine (cstring "Connection", ResponseFronts.connectionWord false)].flatten := by decide +kernel
  have differ' : ¬ [headerLine (cstring "Connection", ResponseFronts.connectionWord false)].flatten <+:
      [headerLine (cstring "Connection", ResponseFronts.connectionWord true)].flatten := by decide +kernel
  rcases List.prefix_or_prefix_of_prefix keep close with h | h
  · exact differ ((List.prefix_append_right_inj _).1 h)
  · exact differ' ((List.prefix_append_right_inj _).1 h)

theorem first_step (run : Runs.Reached (Connection.step cfg) (· = s) AfterResponse e) {l : Label}
    (hs : Connection.step cfg e l = some d) : ∃ l t, Connection.step cfg s l = some t := by
  induction run generalizing d l with
  | init h => exact ⟨l, d, h ▸ hs⟩
  | step _ _ _ hs' ih => exact ih hs'

theorem keepAlive_bits (flags : BitVec 8) : httpFlagCheck (httpFlagClear flags httpKeepAlive) httpKeepAlive = false ∧
    httpFlagCheck (httpFlagSet flags httpKeepAlive) httpKeepAlive = true := by
  revert flags
  decide

theorem started (before : Runs.Reached (Connection.step cfg) Accepted BeforeResponse c) (starts : Starts response env call)
    (protocol : Protocol c (.call call)) (hs : Connection.step cfg c (.call call) = some s) :
    ∃ w, (AcceptedHead w ∧ w <+: receivedBytes c.events) ∧ (kept s = false ↔ Closes w) ∧
      (∃ stack, s.stack = .writeSocket :: stack) ∧ s.request.bytesWritten = 0 ∧ s.request.state = .write ∧
      (Printable env.date response → 0 ≤ s.request.buffer.length → Says env.date response s.request (kept s)) := by
  have session := (first_reached before).1
  have move := step_move hs
  cases move with
  | @respond _ f _ request memused user live hcall hf =>
    obtain ⟨⟨automatic, whole⟩, -, w, past⟩ := held_past before live (protocol.1 _ rfl)
    have detected_flags : ∀ flags : BitVec 8, httpFlagCheck flags httpAutomatic = true → ∀ r,
        detected { c.request with flags := flags } = some r → (httpFlagCheck r.flags httpKeepAlive = false ↔ Closes w) := by
      intro flags automatic r hr
      unfold detected at hr
      rw [if_pos automatic, @detect_eq cfg.httpMaxRequestBufSize w { c.request with flags := flags } past.front
        past.accepted past.shows] at hr
      cases hr
      obtain ⟨clear, set⟩ := keepAlive_bits flags
      dsimp only
      split
      · exact ⟨fun _ => ‹_›, fun _ => clear⟩
      · exact ⟨fun h => absurd (set.symm.trans h) (by decide), fun h => absurd h ‹_›⟩
    refine ⟨w, ⟨past.accepted, past.behind.prefix_eq⟩, ?_, ⟨_, rfl⟩, (responds_responded hcall hf).written_eq, rfl, ?_⟩
    · cases starts with
      | respond =>
        cases hcall
        obtain ⟨r, hr, flags⟩ := hsRequestRespond_flags hf
        rw [← detected_flags c.request.flags automatic r hr, ← flags]
        rfl
      | respondChunk =>
        cases hcall
        have flags := hsRequestRespondChunk_flags hf
        rw [if_neg (by rw [whole]; decide)] at flags
        obtain ⟨r, hr, flags⟩ := flags
        have bits : ∀ flags : BitVec 8, httpFlagCheck (httpFlagSet flags httpChunkedResponse) httpAutomatic =
            httpFlagCheck flags httpAutomatic := by decide
        rw [← detected_flags _ ((bits _).trans automatic) r hr, ← flags]
        rfl
    · intro printable nonneg
      cases starts with
      | respond =>
        cases hcall
        have said := @hsRequestRespond_status _ _ _ _ _ _ _ printable hf nonneg
        exact said
      | respondChunk =>
        cases hcall
        have said := @hsRequestRespondChunk_status _ _ _ _ _ _ _ printable whole hf nonneg
        exact said
  | _ => cases starts

theorem last_write {call : WriteCall} (steady : Steady e) (unfinished : completed e.events = 0)
    (finished : completed d.events ≠ 0) (hs : Connection.step cfg e (.write call) = some d) :
    (kept e = false ∧ d.live = false) ∨ (kept e = true ∧ Reads d) := by
  have none : ∀ more, completed more = 0 → completed (e.events ++ more) = 0 := by
    intro more h
    rw [completed_append, unfinished, h]
  cases step_move hs with
  | writeMore => exact absurd (none [.write call.bytes] rfl) finished
  | writeErr => exact absurd ((congrArg completed (List.append_assoc e.events [_] [_])).trans (none _ rfl)) finished
  | writeClose _ _ _ _ close => exact .inl ⟨close, rfl⟩
  | writeNext hstack _ _ _ keep => exact .inr ⟨keep, (steady.library hstack rfl).live, rfl, rfl⟩
  | writeChunk => exact absurd ((congrArg completed (List.append_assoc e.events [_] [_])).trans (none _ rfl)) finished

theorem going_reached (before : Runs.Reached (Connection.step cfg) Accepted BeforeResponse c)
    (protocol : Protocol c (.call call)) (hs : Connection.step cfg c (.call call) = some s)
    (state : s.request.state = .write) (after : Runs.Reached (Connection.step cfg) (· = s) AfterResponse e) :
    Session (fun _ _ _ => True) cfg e ∧ Going s e := by
  refine after.invariant (I := fun e => Session (fun _ _ _ => True) cfg e ∧ Going s e) ?_
    fun e l d ⟨session, going⟩ ⟨protocol, continues⟩ hs => ?_
  · rintro _ rfl
    exact ⟨(first_reached before).1.step protocol trivial (step_move hs), going_start state⟩
  · have calls : Calls (fun _ _ _ => True) e l := by cases l <;> trivial
    exact ⟨session.step protocol calls (step_move hs), going.step session protocol continues (step_move hs)⟩

/-- `word`, `dead` and `should` are what the response says, what happens and what should happen. -/
theorem agree_iff {word dead should plain more keep : Prop} (closes : (word ↔ should) ↔ plain)
    (happens : dead ↔ word ∧ ¬ more) (other : ¬ word → keep) :
    ((word ↔ dead) ∧ (dead ↔ should) ∧ (¬ should → keep)) ↔ (plain ∧ (should → ¬ more)) := by
  rw [← closes, happens]
  constructor
  · rintro ⟨same, all, -⟩
    exact ⟨same.trans all, fun h => (all.2 h).2⟩
  · rintro ⟨same, quiet⟩
    refine ⟨⟨fun h => ⟨h, quiet (same.1 h)⟩, And.left⟩, ⟨fun h => same.1 h.1, fun h => ⟨same.2 h, quiet h⟩⟩, fun h => ?_⟩
    exact other fun word => h (same.1 word)

/-- The response and the server agree with the head exactly if the value of its `Connection` header is plain and,
    where the connection should be closed, no head is parsed to its end while the response is written. -/
theorem keep_alive (h : Answer cfg response env c s e d) (printable : Printable env.date response) :
    ∃ w, (AcceptedHead w ∧ w <+: receivedBytes c.events) ∧
      (Decided w env.date response s d ↔ PlainConnection w ∧ (ShouldClose w → overlapping s e = false)) := by
  obtain ⟨before, ⟨call, starts, protocol, hs⟩, after, unfinished, ⟨write, last⟩, finished⟩ := h
  obtain ⟨w, received, closes, ⟨stack, hstack⟩, none, state, printed⟩ := started before starts protocol hs
  obtain ⟨session, going⟩ := going_reached before protocol hs state after
  refine ⟨w, received, ?_⟩
  have nonneg : 0 ≤ s.request.buffer.length := by
    obtain ⟨l, t, first⟩ := first_step after last
    obtain ⟨call, rfl⟩ := step_writes hstack first
    have fits := write_fits hstack first
    omega
  have said := printed printable nonneg
  have keep : kept e = (kept s || overlapping s e) := by
    obtain ⟨more, events, keep⟩ := going.decided
    rw [overlapping, since_append events]
    exact keep unfinished
  have ends := last_write session.steady unfinished finished last
  have word : Says env.date response s.request false ↔ Closes w := by
    rw [← closes]
    cases bit : kept s with
    | false =>
      rw [bit] at said
      exact iff_of_true said rfl
    | true =>
      rw [bit] at said
      exact iff_of_false (fun close => says_exclusive said close) (by decide)
  have happens : d.live = false ↔ Closes w ∧ ¬ overlapping s e = true := by
    rw [← closes, Bool.not_eq_true, ← Bool.or_eq_false_iff, ← keep]
    rcases ends with ⟨close, dead⟩ | ⟨keeps, live, -⟩
    · exact iff_of_true dead close
    · exact iff_of_false (by rw [live]; decide) (by rw [keeps]; decide)
  have other : ¬ Closes w → Says env.date response s.request true ∧ Reads d := by
    intro keeps
    rw [← closes, Bool.not_eq_false] at keeps
    rw [keeps] at said keep
    refine ⟨said, ?_⟩
    rcases ends with ⟨close, -⟩ | ⟨-, reads⟩
    · exact absurd (keep.symm.trans close) (by simp)
    · exact reads
  have agree := agree_iff closes_iff happens other
  rw [Bool.not_eq_true] at agree
  rw [← agree, ← word]
  exact ⟨fun ⟨word, close, keep⟩ => ⟨word, close, keep⟩, fun ⟨word, close, keep⟩ => ⟨word, close, keep⟩⟩

/-- A session in which one `http_respond` is written at once. -/
def answers (bs : List UInt8) (execCalls : ℕ) (size : ℤ) (check : Conn → Conn → Conn → Bool) : Bool :=
  (Runs.exec (Runs.guarded (Connection.step {}) BeforeResponse) (reads bs :: execs execCalls) accepted).any fun c =>
    decide (Protocol c (.call (.respond {} sessionEnv))) &&
      (Connection.step {} c (.call (.respond {} sessionEnv))).any fun s =>
        decide (completed s.events = 0) && (Connection.step {} s (.write ⟨size, false⟩)).any fun d =>
          decide (completed d.events ≠ 0) && check c s d

theorem answers_answer {bs : List UInt8} {execCalls : ℕ} {size : ℤ} {check : Conn → Conn → Conn → Bool}
    (h : answers bs execCalls size check = true) : ∃ c s d, Answer {} {} sessionEnv c s s d ∧ check c s d = true := by
  obtain ⟨c, hc, h⟩ := (Option.any_eq_true _ _).1 h
  obtain ⟨protocol, h⟩ := Bool.and_eq_true_iff.1 h
  obtain ⟨s, hs, h⟩ := (Option.any_eq_true _ _).1 h
  obtain ⟨unfinished, h⟩ := Bool.and_eq_true_iff.1 h
  obtain ⟨d, hd, h⟩ := (Option.any_eq_true _ _).1 h
  obtain ⟨finished, h⟩ := Bool.and_eq_true_iff.1 h
  refine ⟨c, s, d, ⟨.guarded (.init accepted_accepted) hc, ⟨_, .respond, of_decide_eq_true protocol, hs⟩, .init rfl,
    of_decide_eq_true unfinished, ⟨_, hd⟩, of_decide_eq_true finished⟩, h⟩

theorem sessionEnv_printable : Printable sessionEnv.date {} :=
  ⟨by decide, by decide, by decide, fun _ h => nomatch h⟩

/-- A request that asks for the connection to be closed. -/
theorem keep_alive_close : ∃ (c s d : Conn) (w : List UInt8), AcceptedHead w ∧ w <+: receivedBytes c.events ∧
    (Decided w sessionEnv.date {} s d ↔ PlainConnection w ∧ (ShouldClose w → overlapping s s = false)) := by
  have run : answers (ascii "GET / HTTP/1.1\r\nConnection: close\r\n\r\n") 6 93 (fun _ _ _ => true) = true := by
    decide +kernel
  obtain ⟨c, s, d, h, -⟩ := answers_answer run
  obtain ⟨w, ⟨accepted, received⟩, agrees⟩ := keep_alive h sessionEnv_printable
  exact ⟨c, s, d, w, accepted, received, agrees⟩

/-- A blank behind `close`: the client wants the connection to be closed, and it is kept. -/
theorem close_with_blank : ∃ (c s d : Conn) (w : List UInt8), Answer {} {} sessionEnv c s s d ∧
    Printable sessionEnv.date {} ∧ AcceptedHead w ∧
    w <+: receivedBytes c.events ∧ ¬ Decided w sessionEnv.date {} s d := by
  have run : answers (ascii "GET / HTTP/1.1\r\nConnection: close \r\n\r\n") 6 98 (fun c _ d => d.live &&
      decide (receivedBytes c.events = ascii "GET / HTTP/1.1\r\nConnection: close \r\n\r\n")) = true := by
    decide +kernel
  obtain ⟨c, s, d, h, check⟩ := answers_answer run
  obtain ⟨live, received⟩ := Bool.and_eq_true_iff.1 check
  have head : ((headRun (ascii "GET / HTTP/1.1\r\nConnection: close \r\n\r\n") {}).any fun r =>
      decide (r.1.ph = .headersDone)) = true := by
    decide +kernel
  have close : ShouldClose (ascii "GET / HTTP/1.1\r\nConnection: close \r\n\r\n") := by decide +kernel
  obtain ⟨r, hr, done⟩ := (Option.any_eq_true _ _).1 head
  refine ⟨c, s, d, _, h, sessionEnv_printable, ⟨r.1, r.2, hr, of_decide_eq_true done⟩, ?_, fun decided => ?_⟩
  · rw [of_decide_eq_true received]
  · exact absurd ((decided.close.2 close).symm.trans live) (by decide)

end Answers

end HttpServer.KeepAlive
