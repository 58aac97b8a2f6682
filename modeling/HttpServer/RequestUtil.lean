import HttpServer.Common

set_option autoImplicit false

/-!
# request_util.c: what a handler can ask about its request

The strings are addresses into the current buffer, whatever it holds. Reading a token past
`tokens.size`, or a byte outside the block of the buffer, is undefined and shows as `none`.
-/
namespace HttpServer.RequestUtil

def httpKeepAlive : BitVec 8 := 0x1
def httpFlgStreamed : BitVec 8 := 0x1
def httpAutomatic : BitVec 8 := 0x8
def httpChunkedResponse : BitVec 8 := 0x20

/-- `HTTP_SESSION_INIT` to `HTTP_SESSION_NOP` -/
inductive HttpSession where
  | init | read | write | nop
deriving DecidableEq, Repr

/-- `struct http_request_s`: `tokens` are the entries below `tokens.size`, and `chunkCb` says that
    the chunk callback is set. -/
structure HttpRequestS where
  buffer : HshBufferS := {}
  parser : HshParserS := {}
  tokens : List HshTokenS := []
  state : HttpSession := .init
  timeout : ℤ := 0
  bytesWritten : ℤ := 0
  flags : BitVec 8 := 0
  chunkCb : Bool := false

/-- `http_string_t`; `buf` is an address, 0 for `NULL`. -/
structure HttpStringT where
  buf : ℤ := 0
  len : ℤ := 0
deriving DecidableEq, Repr

/-- `&request->buffer.buf[token.index]` and `token.len` -/
def tokenString (request : HttpRequestS) (token : HshTokenS) : HttpStringT :=
  { buf := request.buffer.buf + token.index, len := token.len }

def byteAt (b : HshBufferS) (address : ℤ) : Option UInt8 :=
  if b.buf ≠ 0 ∧ b.buf ≤ address ∧ address < b.buf + b.capacity then some (b.data (address - b.buf))
  else none

/-- `c >= 'A' && c <= 'Z' ? c + 32 : c` -/
def lower (c : UInt8) : UInt8 := if 65 ≤ c ∧ c ≤ 90 then c + 32 else c

/-- `_hs_case_insensitive_cmp(a, key, len)`, which stops at the first difference. -/
def hsCaseInsensitiveCmp (b : HshBufferS) : ℤ → List UInt8 → Option Bool
  | _, [] => some true
  | address, k :: key =>
    match byteAt b address with
    | none => none
    | some c => if lower c ≠ lower k then some false else hsCaseInsensitiveCmp b (address + 1) key

def hsGetTokenString (request : HttpRequestS) (tokenType : HshTokenE) : HttpStringT :=
  match request.tokens.find? fun token => token.type = tokenType with
  | some token => tokenString request token
  | none => {}

def findHeader (request : HttpRequestS) (key : List UInt8) : List HshTokenS → Option HttpStringT
  | [] => some {}
  | token :: tokens =>
    if token.type = .headerKey ∧ token.len = key.length then
      match hsCaseInsensitiveCmp request.buffer (request.buffer.buf + token.index) key with
      | none => none
      | some true =>
        match tokens with
        | value :: _ => some (tokenString request value)
        | [] => none
      | some false => findHeader request key tokens
    else findHeader request key tokens

def hsRequestHeader (request : HttpRequestS) (key : List UInt8) : Option HttpStringT :=
  findHeader request key request.tokens

def hsRequestDetectKeepAliveFlag (request : HttpRequestS) : Option HttpRequestS :=
  let str := hsGetTokenString request .version
  if str.buf = 0 then some request
  else
    match byteAt request.buffer (str.buf + str.len - 1) with
    | none => none
    | some c =>
      match hsRequestHeader request (ascii "Connection") with
      | none => none
      | some str =>
        let close :=
          if str.len = 5 then hsCaseInsensitiveCmp request.buffer str.buf (ascii "close")
          else some (decide (str.len = 0 ∧ c ≠ 49))
        match close with
        | none => none
        | some true => some { request with flags := httpFlagClear request.flags httpKeepAlive }
        | some false => some { request with flags := httpFlagSet request.flags httpKeepAlive }

/-- `_hs_get_header_key_val`: the strings, unless the headers are done. -/
def hsGetHeaderKeyVal (request : HttpRequestS) (iter : ℕ) : Option (Option (HttpStringT × HttpStringT)) :=
  match request.tokens[iter]? with
  | none => none
  | some token =>
    if token.type = .headersDone then some none
    else
      match request.tokens[iter + 1]? with
      | none => none
      | some value => some (some (tokenString request token, tokenString request value))

/-- `hs_request_iterate_headers`: the next pair if there is one, and the iterator. -/
def hsRequestIterateHeaders (request : HttpRequestS) (iter : ℕ) :
    Option (Option (HttpStringT × HttpStringT) × ℕ) :=
  if iter = 0 then
    match request.tokens.findIdx? fun token => token.type = .headerKey with
    | some i => (hsGetHeaderKeyVal request i).map fun pair => (pair, i + 1)
    | none => some (none, request.tokens.length)
  else (hsGetHeaderKeyVal request (iter + 1)).map fun pair => (pair, iter + 2)

/-- `hs_request_set_keep_alive_flag`, for `HTTP_KEEP_ALIVE` and `HTTP_CLOSE` -/
def hsRequestSetKeepAliveFlag (request : HttpRequestS) (directive : ℤ) : HttpRequestS :=
  if directive = 1 then
    { request with
        flags := httpFlagSet (httpFlagClear request.flags httpAutomatic) httpKeepAlive }
  else if directive = 0 then
    { request with
        flags := httpFlagClear (httpFlagClear request.flags httpAutomatic) httpKeepAlive }
  else request

def hsRequestChunk (request : HttpRequestS) : Option HttpStringT :=
  request.tokens.getLast?.map (tokenString request)

end HttpServer.RequestUtil
