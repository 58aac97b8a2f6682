import HttpServer.HeldRequests

set_option autoImplicit false

/-!
# The token array of a connection

`_hs_token_array_init` and `_hs_token_array_push` with the block that they allocate. A connection pushes
onto one array as long as it lives.
-/
namespace HttpServer.TokenArray
open MachineInt ReadBuffer Respond Connection ConnectionSteps ConnectionInvariant HeldRequests

/-- `struct hs_token_array_s`: `buf i` is the entry at `buf + i`. Only entries below `capacity` may be accessed. -/
structure HsTokenArrayS where
  buf : ℤ → HshTokenS
  capacity : ℤ
  size : ℤ

/-- `_hs_token_array_init`, where `fresh capacity` are the entries of a new block of that capacity. -/
def hsTokenArrayInit (fresh : ℤ → ℤ → HshTokenS) (capacity : ℤ) : HsTokenArrayS := ⟨fresh capacity, capacity, 0⟩

def HsTokenArrayS.realloc (fresh : ℤ → ℤ → HshTokenS) (capacity : ℤ) (array : HsTokenArrayS) : HsTokenArrayS :=
  { array with
      buf := fun i => if i < array.capacity ∧ i < capacity then array.buf i else fresh capacity i
      capacity := capacity }

/-- The growth in `_hs_token_array_push` -/
def HsTokenArrayS.grow (fresh : ℤ → ℤ → HshTokenS) (array : HsTokenArrayS) : HsTokenArrayS :=
  if array.size = array.capacity then array.realloc fresh (wrap32 (array.capacity * 2)) else array

/-- `_hs_token_array_push`. A write outside of the block is undefined; after an `int` overflow of the capacity there is
    no block. -/
def hsTokenArrayPush (fresh : ℤ → ℤ → HshTokenS) (array : HsTokenArrayS) (a : HshTokenS) : Option HsTokenArrayS :=
  let array := array.grow fresh
  if 0 ≤ array.size ∧ array.size < array.capacity then
    some { array with buf := fun i => if i = array.size then a else array.buf i, size := wrap32 (array.size + 1) }
  else none

def pushAll (fresh : ℤ → ℤ → HshTokenS) (array : HsTokenArrayS) : List HshTokenS → Option HsTokenArrayS
  | [] => some array
  | a :: tokens => (hsTokenArrayPush fresh array a).bind fun array => pushAll fresh array tokens

/-- The array holds the list, in a block of at most twice its size once it has grown. -/
structure Holds (tokens : List HshTokenS) (array : HsTokenArrayS) : Prop where
  size_eq : array.size = tokens.length
  size_le : array.size ≤ array.capacity
  entries : ∀ i : ℕ, ∀ token ∈ tokens[i]?, array.buf i = token
  doubled : ∃ k : ℕ, array.capacity = 32 * 2 ^ k ∧ (k = 0 ∨ array.capacity < 2 * array.size)

section Pushes

variable {fresh : ℤ → ℤ → HshTokenS} {tokens : List HshTokenS} {array : HsTokenArrayS}

theorem holds_init : Holds [] (hsTokenArrayInit fresh 32) :=
  ⟨rfl, by norm_num [hsTokenArrayInit], by simp, 0, rfl, .inl rfl⟩

theorem holds_write {a : HshTokenS} (size : array.size = tokens.length) (few : tokens.length < 2 ^ 30)
    (entries : ∀ i : ℕ, ∀ token ∈ tokens[i]?, array.buf i = token) (room : array.size < array.capacity)
    (grown : ∃ k : ℕ, array.capacity = 32 * 2 ^ k ∧ (k = 0 ∨ array.capacity < 2 * (array.size + 1))) :
    Holds (tokens ++ [a])
      { array with buf := fun i => if i = array.size then a else array.buf i, size := wrap32 (array.size + 1) } := by
  have next : wrap32 (array.size + 1) = array.size + 1 := wrap32_eq (by omega) (by omega)
  rw [next]
  refine ⟨by simp [size], ?_, fun i token hi => ?_, grown⟩
  · dsimp only
    omega
  · rcases lt_trichotomy i tokens.length with lt | rfl | gt
    · have old : token ∈ tokens[i]? := by rwa [List.getElem?_append_left lt] at hi
      dsimp only
      rw [if_neg (by omega)]
      exact entries i token old
    · dsimp only
      rw [if_pos size.symm]
      simpa using hi
    · rw [List.getElem?_eq_none (by simp; omega)] at hi
      cases hi

theorem Holds.grow (h : Holds tokens array) (few : tokens.length < 2 ^ 30) :
    (array.grow fresh).size = tokens.length ∧ (∀ i : ℕ, ∀ token ∈ tokens[i]?, (array.grow fresh).buf i = token) ∧
      (array.grow fresh).size < (array.grow fresh).capacity ∧
      ∃ k : ℕ, (array.grow fresh).capacity = 32 * 2 ^ k ∧
        (k = 0 ∨ (array.grow fresh).capacity < 2 * ((array.grow fresh).size + 1)) := by
  obtain ⟨size, le, entries, k, capacity, grown⟩ := h
  unfold HsTokenArrayS.grow
  split
  case isTrue full =>
    have twice : wrap32 (array.capacity * 2) = array.capacity * 2 := wrap32_eq (by omega) (by omega)
    have pos : 0 < array.capacity := by rw [capacity]; positivity
    rw [twice]
    unfold HsTokenArrayS.realloc
    dsimp only
    refine ⟨size, fun i token hi => ?_, by omega, k + 1, by rw [capacity]; ring, .inr (by omega)⟩
    have inside : i < tokens.length := (List.getElem?_eq_some_iff.1 hi).1
    rw [if_pos (by omega)]
    exact entries i token hi
  case isFalse room =>
    exact ⟨size, entries, lt_of_le_of_ne le room, k, capacity, grown.imp_right fun lt => by omega⟩

theorem Holds.push (h : Holds tokens array) (a : HshTokenS) (few : tokens.length < 2 ^ 30) :
    ∃ array', hsTokenArrayPush fresh array a = some array' ∧ Holds (tokens ++ [a]) array' := by
  obtain ⟨size, entries, room, grown⟩ := @Holds.grow fresh tokens array h few
  exact ⟨_, if_pos ⟨by omega, room⟩, holds_write size few entries room grown⟩

/-- With `2 ^ 30` entries the capacity overflows. -/
theorem Holds.full (h : Holds tokens array) (many : tokens.length = 2 ^ 30) (a : HshTokenS) :
    hsTokenArrayPush fresh array a = none := by
  obtain ⟨size, le, -, k, capacity, grown⟩ := h
  have power : (32 : ℤ) * 2 ^ k = 2 ^ (k + 5) := by ring
  have lo : (2 : ℤ) ^ 30 ≤ 2 ^ (k + 5) := by omega
  have hi : (2 : ℤ) ^ (k + 5) < 2 ^ 31 := by
    rcases grown with rfl | lt
    · norm_num
    · omega
  have exponent : k + 5 = 30 := by
    have := (pow_le_pow_iff_right₀ (by norm_num)).1 lo
    have := (pow_lt_pow_iff_right₀ (by norm_num)).1 hi
    omega
  rw [power, exponent] at capacity
  have grows : array.grow fresh = array.realloc fresh (-2147483648) := by
    unfold HsTokenArrayS.grow
    rw [if_pos (by omega), show wrap32 (array.capacity * 2) = -2147483648 by rw [capacity]; decide]
  unfold hsTokenArrayPush
  dsimp only
  rw [grows]
  refine if_neg fun inside => ?_
  unfold HsTokenArrayS.realloc at inside
  dsimp only at inside
  omega

/-- The pushes are defined as long as there are no more than `2 ^ 30` entries. -/
theorem Holds.pushAll (h : Holds tokens array) (few : tokens.length ≤ 2 ^ 30) (more : List HshTokenS) :
    ((tokens ++ more).length ≤ 2 ^ 30 ↔ ∃ array', TokenArray.pushAll fresh array more = some array') ∧
      ∀ array', TokenArray.pushAll fresh array more = some array' → Holds (tokens ++ more) array' := by
  induction more generalizing tokens array with
  | nil =>
    rw [List.append_nil]
    exact ⟨⟨fun _ => ⟨array, rfl⟩, fun _ => few⟩, fun array' same => Option.some.inj same ▸ h⟩
  | cons a more ih =>
    have split : tokens ++ a :: more = (tokens ++ [a]) ++ more := by simp
    rw [TokenArray.pushAll, split]
    by_cases room : tokens.length < 2 ^ 30
    · obtain ⟨next, push, holds⟩ := @Holds.push fresh tokens array h a room
      rw [push, Option.bind_some]
      exact ih holds (by simp; omega)
    · have none := @Holds.full fresh tokens array h (by omega) a
      rw [none, Option.bind_none]
      refine ⟨⟨fun le => ?_, nofun⟩, nofun⟩
      simp only [List.length_append, List.length_singleton] at le
      omega

end Pushes

/-- The tokens that were pushed, for whatever request. -/
def pushed (events : List Event) : List HshTokenS :=
  events.filterMap fun
    | .push _ token => some token
    | _ => none

theorem pushed_append (events more : List Event) : pushed (events ++ more) = pushed events ++ pushed more :=
  List.filterMap_append

section Runs

variable {cfg : Config} {c c' : Conn} {l : Label} {fresh : ℤ → ℤ → HshTokenS}

theorem entered_tokens (env : ReadEnv) (c : Conn) : (entered cfg env c).request.tokens = c.request.tokens := by
  unfold entered initBuffer
  split <;> rfl

/-- What a step does to the tokens of a connection that goes on. -/
def Appends (c c' : Conn) : Prop :=
  ∃ more, c'.events = c.events ++ more ∧
    (c'.live = true → c.live = true ∧ c'.request.tokens = c.request.tokens ++ pushed more)

theorem appends_silent (more : List Event) (events : c'.events = c.events ++ more) (none : pushed more = [])
    (live : c'.live = true → c.live = true) (tokens : c'.request.tokens = c.request.tokens) : Appends c c' :=
  ⟨more, events, fun alive => ⟨live alive, by rw [tokens, none, List.append_nil]⟩⟩

theorem appends_dead (more : List Event) (events : c'.events = c.events ++ more) (dead : c'.live = false) : Appends c c' :=
  ⟨more, events, fun alive => absurd (dead.symm.trans alive) (by decide)⟩

/-- Only a token that the parser returned, or the empty piece behind a body, is pushed. -/
theorem move_appends (move : Move cfg c l c') : Appends c c' := by
  have same : ∀ {d : Conn}, d.events = c.events → d.live = c.live → d.request.tokens = c.request.tokens → Appends c d :=
    fun events live tokens => appends_silent [] (by rw [events, List.append_nil]) rfl (fun h => live ▸ h) tokens
  cases move with
  | wakeRead => exact same rfl rfl rfl
  | wakeWrite => exact same rfl rfl rfl
  | swallow => exact same rfl rfl rfl
  | tick => exact same rfl rfl rfl
  | expire => exact appends_dead [.terminate] rfl rfl
  | readSkip => exact same (by simp [popped]) (by simp [popped]) (entered_tokens _ _)
  | @readEof env =>
    exact appends_dead [.read (env.readCalls.map ReadCall.result), .terminate]
      (by simp [hsRequestTerminateConnection, filled, popped]) rfl
  | @readMore env =>
    exact appends_silent [.read (env.readCalls.map ReadCall.result)] (by simp [filled, popped]) rfl
      (by simp [filled, popped]) (entered_tokens _ _)
  | execNone => exact same rfl rfl rfl
  | @execErr _ _ _ _ _ _ request memused hstack hr type hresp =>
    exact appends_silent [.parseErr, .response request, .watch .epollout]
      (by simp [hsRequestBeginWrite, answered, parsed, popped]) rfl id (hsRequestRespond_responded hresp).tokens_eq
  | execLine => exact ⟨[.push c.serial _], rfl, fun live => ⟨live, rfl⟩⟩
  | execHead =>
    exact ⟨[.push c.serial _, .invoke c.serial .requestHandler _], List.append_assoc c.events [_] [_], fun live => ⟨live, rfl⟩⟩
  | execSmall =>
    exact ⟨[.push c.serial _, .invoke c.serial .requestHandler _], List.append_assoc c.events [_] [_], fun live => ⟨live, rfl⟩⟩
  | execFinal =>
    exact ⟨[.push c.serial _, .invoke c.serial .chunkCb _], List.append_assoc c.events [_] [_], fun live => ⟨live, rfl⟩⟩
  | execPiece =>
    exact ⟨[.push c.serial _, .invoke c.serial .chunkCb _], List.append_assoc c.events [_] [_], fun live => ⟨live, rfl⟩⟩
  | @writeMore call => exact appends_silent [.write call.bytes] rfl rfl id rfl
  | @writeErr call =>
    exact appends_dead [.write call.bytes, .terminate]
      (by simp [hsRequestTerminateConnection, finished, written, popped]) rfl
  | @writeClose call =>
    exact appends_dead [.write call.bytes, .responded c.serial, .terminate]
      (by simp [hsRequestTerminateConnection, finished, written, popped]) rfl
  | @writeNext call =>
    exact appends_silent [.write call.bytes, .responded c.serial, .watch .epollin]
      (by simp [hsRequestBeginRead, finished, written, popped]) rfl id rfl
  | @writeChunk call =>
    exact appends_silent [.write call.bytes, .invoke c.serial .chunkCb _] (List.append_assoc c.events [_] [_])
      rfl id rfl
  | @respond _ _ _ request _ _ live hcall hf =>
    exact appends_silent [.response request, .watch .epollout] (List.append_assoc c.events [_] [_]) rfl id
      (responds_responded hcall hf).tokens_eq
  | readChunk => exact appends_silent [.watch .epollin] rfl rfl id rfl
  | freeBuffer => exact same rfl rfl rfl
  | @connection directive =>
    obtain ⟨flags, hflags⟩ := @setKeepAlive_flags c.request directive
    exact same rfl rfl (by rw [hflags])
  | callbackReturn => exact same rfl rfl rfl
  | @finalChunk serial =>
    exact ⟨[.push serial _, .invoke serial .chunkCb _], List.append_assoc c.events [_] [_], fun live => ⟨live, rfl⟩⟩

theorem tokens_pushed (run : Runs.Reached (Connection.step cfg) Accepted (fun _ _ => True) c) (live : c.live = true) :
    c.request.tokens = pushed c.events := by
  have keep : c.live = true → c.request.tokens = pushed c.events := by
    refine run.invariant (I := fun c => c.live = true → c.request.tokens = pushed c.events) (fun c h _ => ?_)
      fun c l c' tokens _ hs live => ?_
    · obtain ⟨memused, rfl | ⟨respond, request, memused', hresp, rfl⟩⟩ := accepted_cases h
      · rfl
      · exact (hsRequestRespond_responded hresp).tokens_eq
    · obtain ⟨more, events, appended⟩ := move_appends (step_move hs)
      obtain ⟨before, after⟩ := appended live
      rw [after, tokens before, events, pushed_append]
  exact keep live

/-- In every run the array of a connection is every token that was pushed since it was accepted, of earlier requests too:
    the pushes stay inside the block up to `2 ^ 30` tokens, and the block is never more than twice too large. -/
theorem array_reached (run : Runs.Reached (Connection.step cfg) Accepted (fun _ _ => True) c) (live : c.live = true) :
    c.request.tokens = pushed c.events ∧
      ((pushed c.events).length ≤ 2 ^ 30 ↔ ∃ array, pushAll fresh (hsTokenArrayInit fresh 32) (pushed c.events) = some array) ∧
      ∀ array, pushAll fresh (hsTokenArrayInit fresh 32) (pushed c.events) = some array → Holds c.request.tokens array := by
  have tokens := tokens_pushed run live
  obtain ⟨defined, holds⟩ := @Holds.pushAll fresh _ _ (@holds_init fresh) (by decide) (pushed c.events)
  rw [List.nil_append] at defined holds
  exact ⟨tokens, defined, fun array all => tokens ▸ holds array all⟩

/-- The second request on a connection finds the tokens of the first one before its own. -/
theorem array_reached_twice : ∃ c, Runs.Reached (Connection.step {}) Accepted (fun _ _ => True) c ∧
    c.request.tokens.length = 12 ∧ ∃ array, Holds c.request.tokens array := by
  have run : ((Runs.exec (Connection.step {}) (handled ++ [.call (.respond {} sessionEnv), .write ⟨98, false⟩,
      reads (ascii "GET / HTTP/1.1\r\nA: b\r\n\r\n")] ++ execs 6) accepted).any fun c =>
        decide (c.live = true ∧ c.request.tokens.length = 12)) = true := by
    decide +kernel
  obtain ⟨c, hc, hs⟩ := (Option.any_eq_true _ _).1 run
  obtain ⟨live, twelve⟩ := of_decide_eq_true hs
  obtain ⟨tokens, defined, holds⟩ := @array_reached _ c (fun _ _ => {}) (session_reached hc) live
  obtain ⟨array, all⟩ := defined.1 (by rw [← tokens, twelve]; decide)
  exact ⟨c, session_reached hc, twelve, array, holds array all⟩

end Runs

end HttpServer.TokenArray
