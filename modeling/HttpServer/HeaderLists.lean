import HttpServer.RequestUtil

set_option autoImplicit false

/-!
# request_util.c: the header list and the lookup of one header

`http_request_iterate_headers` walks over the tokens two by two and `http_request_header` searches them.
Both are compared with the list of headers that the tokens stand for.
-/
namespace HttpServer.HeaderLists
open RequestUtil

/-- The tokens of a request from its method on, as the parser leaves them. -/
structure RequestTokens where
  method : HshTokenS
  target : HshTokenS
  version : HshTokenS
  headers : List (HshTokenS × HshTokenS)
  headersDone : HshTokenS
  body : List HshTokenS
  method_type : method.type = .method
  target_type : target.type = .target
  version_type : version.type = .version
  headers_type : ∀ header ∈ headers, header.1.type = .headerKey ∧ header.2.type = .headerValue
  headersDone_type : headersDone.type = .headersDone
  body_type : ∀ token ∈ body, token.type = .body

/-- The keys and values in the order of the token array. -/
def flat (headers : List (HshTokenS × HshTokenS)) : List HshTokenS :=
  headers.flatMap fun header => [header.1, header.2]

def RequestTokens.array (t : RequestTokens) : List HshTokenS :=
  t.method :: t.target :: t.version :: (flat t.headers ++ t.headersDone :: t.body)

/-- `while (http_request_iterate_headers(request, &key, &val, &iter))`: the pairs that the calls give up to
    the one that returns 0, when at most `calls` of them are made. -/
def iterated (request : HttpRequestS) : ℕ → ℕ → Option (List (HttpStringT × HttpStringT))
  | 0, _ => none
  | calls + 1, iter =>
    match hsRequestIterateHeaders request iter with
    | none => none
    | some (none, _) => some []
    | some (some pair, iter) => (iterated request calls iter).map fun pairs => pair :: pairs

/-- The strings that a header stands for. -/
def headerStrings (request : HttpRequestS) (header : HshTokenS × HshTokenS) : HttpStringT × HttpStringT :=
  (tokenString request header.1, tokenString request header.2)

/-- The bytes of a token lie in the block of the buffer. -/
def InBlock (b : HshBufferS) (token : HshTokenS) : Prop :=
  b.buf ≠ 0 ∧ 0 ≤ token.index ∧ token.index + token.len ≤ b.capacity

/-- The text of the token is `key` up to the case of its letters. -/
def IsKey (b : HshBufferS) (key : List UInt8) (token : HshTokenS) : Prop :=
  token.len = key.length ∧ (slice b.data token.index key.length).map lower = key.map lower

instance (b : HshBufferS) (key : List UInt8) (token : HshTokenS) : Decidable (IsKey b key token) := by
  unfold IsKey
  infer_instance

section Iteration

variable {request : HttpRequestS} {headers : List (HshTokenS × HshTokenS)} {done : HshTokenS}
  {body : List HshTokenS}

theorem flat_cons (header : HshTokenS × HshTokenS) (headers : List (HshTokenS × HshTokenS)) :
    flat (header :: headers) = header.1 :: header.2 :: flat headers := by
  simp [flat]

theorem getHeaderKeyVal_pair {iter : ℕ} {header : HshTokenS × HshTokenS} {rest : List HshTokenS}
    (tokens : request.tokens.drop iter = header.1 :: header.2 :: rest) (key : header.1.type = .headerKey) :
    hsGetHeaderKeyVal request iter = some (some (headerStrings request header)) := by
  have first : request.tokens[iter]? = some header.1 := by
    rw [← Nat.add_zero iter, ← List.getElem?_drop, tokens]
    rfl
  have second : request.tokens[iter + 1]? = some header.2 := by
    rw [← List.getElem?_drop, tokens]
    rfl
  unfold hsGetHeaderKeyVal
  simp only [first, second, key]
  rfl

theorem getHeaderKeyVal_done {iter : ℕ} {rest : List HshTokenS}
    (tokens : request.tokens.drop iter = done :: rest) (type : done.type = .headersDone) :
    hsGetHeaderKeyVal request iter = some none := by
  have first : request.tokens[iter]? = some done := by
    rw [← Nat.add_zero iter, ← List.getElem?_drop, tokens]
    rfl
  unfold hsGetHeaderKeyVal
  simp only [first, type, if_true]

theorem iterated_rest {iter : ℕ} (started : iter ≠ 0)
    (types : ∀ header ∈ headers, header.1.type = .headerKey ∧ header.2.type = .headerValue)
    (done_type : done.type = .headersDone)
    (tokens : request.tokens.drop (iter + 1) = flat headers ++ done :: body) :
    iterated request (headers.length + 1) iter = some (headers.map (headerStrings request)) := by
  induction headers generalizing iter with
  | nil =>
    rw [iterated, hsRequestIterateHeaders, if_neg started, getHeaderKeyVal_done tokens done_type]
    rfl
  | cons header headers ih =>
    rw [flat_cons] at tokens
    have key := (types header List.mem_cons_self).1
    have next : request.tokens.drop (iter + 2 + 1) = flat headers ++ done :: body := by
      rw [show iter + 2 + 1 = iter + 1 + 2 by omega, ← List.drop_drop, tokens]
      rfl
    have rest := @ih (iter + 2) (by omega) (fun h mem => types h (List.mem_cons_of_mem _ mem)) next
    rw [List.length_cons, iterated, hsRequestIterateHeaders, if_neg started, getHeaderKeyVal_pair tokens key]
    simp only [Option.map_some, rest, List.map_cons]

theorem iterated_headers {t : RequestTokens} (tokens : request.tokens = t.array) (nonempty : t.headers ≠ []) :
    iterated request (t.headers.length + 1) 0 = some (t.headers.map (headerStrings request)) := by
  obtain ⟨header, headers, eq⟩ := List.exists_cons_of_ne_nil nonempty
  have types := t.headers_type
  rw [eq] at types
  have key := (types header List.mem_cons_self).1
  unfold RequestTokens.array at tokens
  rw [eq, flat_cons] at tokens
  have found : (request.tokens.findIdx? fun token => token.type = .headerKey) = some 3 := by
    rw [tokens]
    simp [List.findIdx?_cons, t.method_type, t.target_type, t.version_type, key]
  have pair := getHeaderKeyVal_pair
    (show request.tokens.drop 3 = header.1 :: header.2 :: (flat headers ++ t.headersDone :: t.body) by rw [tokens]; rfl) key
  have rest := iterated_rest (show (4 : ℕ) ≠ 0 by decide) (fun h mem => types h (List.mem_cons_of_mem _ mem))
    t.headersDone_type (by rw [tokens]; rfl)
  rw [eq, List.length_cons, iterated, hsRequestIterateHeaders, if_pos rfl, found]
  simp only [pair, Option.map_some, rest, List.map_cons]

end Iteration

section Lookup

variable {request : HttpRequestS} {b : HshBufferS} {key : List UInt8}

theorem hsCaseInsensitiveCmp_eq {index : ℤ} (block : b.buf ≠ 0) (nonneg : 0 ≤ index)
    (inside : index + key.length ≤ b.capacity) :
    hsCaseInsensitiveCmp b (b.buf + index) key =
      some (decide ((slice b.data index key.length).map lower = key.map lower)) := by
  induction key generalizing index with
  | nil => simp [hsCaseInsensitiveCmp, slice]
  | cons k key ih =>
    rw [List.length_cons] at inside
    push_cast at inside
    have byte : byteAt b (b.buf + index) = some (b.data index) := by
      unfold byteAt
      rw [if_pos ⟨block, by omega, by omega⟩, add_sub_cancel_left]
    have rest := @ih (index + 1) (by omega) (by omega)
    rw [← add_assoc] at rest
    rw [hsCaseInsensitiveCmp, byte]
    dsimp only
    rw [List.length_cons, slice, List.map_cons, List.map_cons]
    by_cases same : lower (b.data index) = lower k
    · rw [if_neg (not_not.2 same), rest]
      simp [same]
    · rw [if_pos same]
      simp [same]

theorem findHeader_skip {token : HshTokenS} {tokens : List HshTokenS} (type : token.type ≠ .headerKey) :
    findHeader request key (token :: tokens) = findHeader request key tokens := by
  rw [findHeader.eq_def]
  exact if_neg fun h => type h.1

theorem findHeader_none {tokens : List HshTokenS} (types : ∀ token ∈ tokens, token.type ≠ .headerKey) :
    findHeader request key tokens = some {} := by
  induction tokens with
  | nil => rfl
  | cons token tokens ih =>
    rw [findHeader_skip (types token List.mem_cons_self)]
    exact ih fun t mem => types t (List.mem_cons_of_mem _ mem)

/-- The value of the first header with the key, and an empty string when there is none. -/
def headerValue (request : HttpRequestS) (key : List UInt8) (headers : List (HshTokenS × HshTokenS)) :
    HttpStringT :=
  match headers.find? fun header => decide (IsKey request.buffer key header.1) with
  | some header => tokenString request header.2
  | none => {}

theorem findHeader_headers {headers : List (HshTokenS × HshTokenS)} {rest : List HshTokenS}
    (types : ∀ header ∈ headers, header.1.type = .headerKey ∧ header.2.type = .headerValue)
    (block : ∀ header ∈ headers, InBlock request.buffer header.1)
    (after : findHeader request key rest = some {}) :
    findHeader request key (flat headers ++ rest) = some (headerValue request key headers) := by
  induction headers with
  | nil => exact after
  | cons header headers ih =>
    have type := types header List.mem_cons_self
    have inside := block header List.mem_cons_self
    have tail := ih (fun h mem => types h (List.mem_cons_of_mem _ mem))
      fun h mem => block h (List.mem_cons_of_mem _ mem)
    have skip : findHeader request key (header.2 :: (flat headers ++ rest)) =
        some (headerValue request key headers) := by
      rw [findHeader_skip (by rw [type.2]; decide), tail]
    rw [flat_cons, List.cons_append, List.cons_append, findHeader.eq_def]
    dsimp only
    by_cases length : header.1.len = key.length
    · rw [if_pos ⟨type.1, length⟩,
        hsCaseInsensitiveCmp_eq inside.1 inside.2.1 (by rw [← length]; exact inside.2.2)]
      by_cases same : (slice request.buffer.data header.1.index key.length).map lower = key.map lower
      · have is : IsKey request.buffer key header.1 := ⟨length, same⟩
        simp [same, headerValue, is]
      · have not : ¬ IsKey request.buffer key header.1 := fun h => same h.2
        rw [decide_eq_false same]
        dsimp only
        rw [skip]
        simp [headerValue, not]
    · have not : ¬ IsKey request.buffer key header.1 := fun h => length h.1
      rw [if_neg fun h => length h.2, skip]
      simp [headerValue, not]

theorem hsRequestHeader_eq {t : RequestTokens} (tokens : request.tokens = t.array)
    (block : ∀ header ∈ t.headers, InBlock request.buffer header.1) :
    hsRequestHeader request key = some (headerValue request key t.headers) := by
  have after : findHeader request key (t.headersDone :: t.body) = some {} := by
    rw [findHeader_skip (by rw [t.headersDone_type]; decide)]
    exact findHeader_none fun token mem => by rw [t.body_type token mem]; decide
  rw [hsRequestHeader, tokens, RequestTokens.array, findHeader_skip (by rw [t.method_type]; decide),
    findHeader_skip (by rw [t.target_type]; decide), findHeader_skip (by rw [t.version_type]; decide)]
  exact findHeader_headers t.headers_type block after

end Lookup

/-- Iteration gives the headers in order, and a lookup the value of the first one with its key. -/
theorem headers_agree {request : HttpRequestS} {t : RequestTokens} (tokens : request.tokens = t.array)
    (nonempty : t.headers ≠ []) (block : ∀ header ∈ t.headers, InBlock request.buffer header.1) (key : List UInt8) :
    iterated request (t.headers.length + 1) 0 = some (t.headers.map (headerStrings request)) ∧
      hsRequestHeader request key = some
        (match t.headers.find? fun header => decide (IsKey request.buffer key header.1) with
          | some header => (headerStrings request header).2
          | none => {}) :=
  ⟨iterated_headers tokens nonempty, hsRequestHeader_eq tokens block⟩

/-- `GET / HTTP/1.1` with the headers `A: 1` and `a: 2`. -/
def twoHeaders : RequestTokens where
  method := { type := .method, len := 3, index := 0 }
  target := { type := .target, len := 1, index := 4 }
  version := { type := .version, len := 8, index := 6 }
  headers :=
    [({ type := .headerKey, len := 1, index := 16 }, { type := .headerValue, len := 1, index := 19 }),
      ({ type := .headerKey, len := 1, index := 22 }, { type := .headerValue, len := 1, index := 25 })]
  headersDone := { type := .headersDone }
  body := []
  method_type := rfl
  target_type := rfl
  version_type := rfl
  headers_type := by simp
  headersDone_type := rfl
  body_type := by simp

/-- Both headers have the key `a`, and the lookup returns the first value. -/
theorem headers_agree_two :
    let request : HttpRequestS :=
      { buffer := { buf := 4096, capacity := 1024, length := 30, data := fun i => if i < 20 then 65 else 97 }
        tokens := twoHeaders.array }
    iterated request 3 0 = some [(⟨4112, 1⟩, ⟨4115, 1⟩), (⟨4118, 1⟩, ⟨4121, 1⟩)] ∧
      hsRequestHeader request (ascii "a") = some ⟨4115, 1⟩ := by
  intro request
  have agree := @headers_agree request twoHeaders rfl (by simp [twoHeaders])
    (fun header mem => by
      obtain rfl | rfl : header = _ ∨ header = _ := by simpa [twoHeaders] using mem
      · exact ⟨by decide, by decide, by decide⟩
      · exact ⟨by decide, by decide, by decide⟩) (ascii "a")
  exact ⟨agree.1, agree.2⟩

end HttpServer.HeaderLists
