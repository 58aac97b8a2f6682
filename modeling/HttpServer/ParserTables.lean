import HttpServer.Common

set_option autoImplicit false

/-!
# The machine compiled from parser.rl

The arrays are the ones in httpserver.h, and `transition` is the lookup code that
`%% write exec` generates around them. No key is above 127, so comparing bytes as
unsigned numbers finds the same key as the comparison of `char`.
-/
namespace HttpServer.ParserTables

def hshHttpActions : List ℕ :=
  [0, 1, 2, 1, 6, 1, 10, 1, 13, 1, 14, 1, 15, 1, 16, 1, 17, 1, 18, 2, 0, 10, 2, 1, 10, 2, 4,
   10, 2, 5, 14, 2, 5, 16, 2, 5, 17, 2, 7, 10, 2, 8, 10, 2, 10, 11, 2, 12, 13, 2, 13, 14, 3, 3,
   9, 10, 3, 4, 10, 6, 3, 7, 4, 10, 3, 9, 3, 10, 3, 13, 5, 14, 3, 13, 14, 12, 3, 14, 12, 13, 4,
   5, 14, 12, 13, 4, 13, 5, 14, 12, 4, 14, 12, 13, 15]

def hshHttpKeyOffsets : List ℕ :=
  [0, 0, 4, 9, 10, 11, 12, 13, 14, 15, 16, 17, 18, 20, 21, 22, 39, 53, 55, 58, 60, 61, 79, 94,
   110, 126, 142, 158, 174, 190, 205, 221, 237, 253, 269, 285, 301, 315, 317, 322, 324, 328,
   344, 360, 376, 392, 408, 424, 440, 455, 471, 487, 503, 519, 535, 551, 567, 583, 597, 599,
   603, 606, 609, 612, 615, 618, 621, 622, 623, 624, 631, 632, 632, 633, 634, 635, 642, 643,
   643, 644, 652, 661, 669, 677, 686, 688, 697, 698, 699, 699, 699, 713, 713, 713, 721, 729,
   729, 729]

def hshHttpTransKeys : List ℕ :=
  [65, 90, 97, 122, 32, 65, 90, 97, 122, 32, 32, 72, 84, 84, 80, 47, 49, 46, 48, 49, 13, 10, 9,
   32, 34, 44, 47, 67, 84, 99, 116, 123, 125, 40, 41, 58, 64, 91, 93, 9, 32, 34, 44, 47, 58,
   123, 125, 40, 41, 59, 64, 91, 93, 9, 32, 9, 13, 32, 10, 13, 10, 9, 13, 32, 34, 44, 47, 67,
   84, 99, 116, 123, 125, 40, 41, 58, 64, 91, 93, 9, 10, 32, 34, 44, 47, 58, 123, 125, 40, 41,
   59, 64, 91, 93, 9, 32, 34, 44, 47, 58, 79, 111, 123, 125, 40, 41, 59, 64, 91, 93, 9, 32, 34,
   44, 47, 58, 78, 110, 123, 125, 40, 41, 59, 64, 91, 93, 9, 32, 34, 44, 47, 58, 84, 116, 123,
   125, 40, 41, 59, 64, 91, 93, 9, 32, 34, 44, 47, 58, 69, 101, 123, 125, 40, 41, 59, 64, 91,
   93, 9, 32, 34, 44, 47, 58, 78, 110, 123, 125, 40, 41, 59, 64, 91, 93, 9, 32, 34, 44, 47, 58,
   84, 116, 123, 125, 40, 41, 59, 64, 91, 93, 9, 32, 34, 44, 45, 47, 58, 123, 125, 40, 41, 59,
   64, 91, 93, 9, 32, 34, 44, 47, 58, 76, 108, 123, 125, 40, 41, 59, 64, 91, 93, 9, 32, 34, 44,
   47, 58, 69, 101, 123, 125, 40, 41, 59, 64, 91, 93, 9, 32, 34, 44, 47, 58, 78, 110, 123, 125,
   40, 41, 59, 64, 91, 93, 9, 32, 34, 44, 47, 58, 71, 103, 123, 125, 40, 41, 59, 64, 91, 93, 9,
   32, 34, 44, 47, 58, 84, 116, 123, 125, 40, 41, 59, 64, 91, 93, 9, 32, 34, 44, 47, 58, 72,
   104, 123, 125, 40, 41, 59, 64, 91, 93, 9, 32, 34, 44, 47, 58, 123, 125, 40, 41, 59, 64, 91,
   93, 9, 32, 9, 13, 32, 48, 57, 10, 13, 10, 13, 48, 57, 9, 32, 34, 44, 47, 58, 82, 114, 123,
   125, 40, 41, 59, 64, 91, 93, 9, 32, 34, 44, 47, 58, 65, 97, 123, 125, 40, 41, 59, 64, 91,
   93, 9, 32, 34, 44, 47, 58, 78, 110, 123, 125, 40, 41, 59, 64, 91, 93, 9, 32, 34, 44, 47, 58,
   83, 115, 123, 125, 40, 41, 59, 64, 91, 93, 9, 32, 34, 44, 47, 58, 70, 102, 123, 125, 40, 41,
   59, 64, 91, 93, 9, 32, 34, 44, 47, 58, 69, 101, 123, 125, 40, 41, 59, 64, 91, 93, 9, 32, 34,
   44, 47, 58, 82, 114, 123, 125, 40, 41, 59, 64, 91, 93, 9, 32, 34, 44, 45, 47, 58, 123, 125,
   40, 41, 59, 64, 91, 93, 9, 32, 34, 44, 47, 58, 69, 101, 123, 125, 40, 41, 59, 64, 91, 93, 9,
   32, 34, 44, 47, 58, 78, 110, 123, 125, 40, 41, 59, 64, 91, 93, 9, 32, 34, 44, 47, 58, 67,
   99, 123, 125, 40, 41, 59, 64, 91, 93, 9, 32, 34, 44, 47, 58, 79, 111, 123, 125, 40, 41, 59,
   64, 91, 93, 9, 32, 34, 44, 47, 58, 68, 100, 123, 125, 40, 41, 59, 64, 91, 93, 9, 32, 34, 44,
   47, 58, 73, 105, 123, 125, 40, 41, 59, 64, 91, 93, 9, 32, 34, 44, 47, 58, 78, 110, 123, 125,
   40, 41, 59, 64, 91, 93, 9, 32, 34, 44, 47, 58, 71, 103, 123, 125, 40, 41, 59, 64, 91, 93, 9,
   32, 34, 44, 47, 58, 123, 125, 40, 41, 59, 64, 91, 93, 9, 32, 9, 13, 32, 99, 10, 13, 104, 10,
   13, 117, 10, 13, 110, 10, 13, 107, 10, 13, 101, 10, 13, 100, 13, 10, 48, 13, 48, 57, 65, 70,
   97, 102, 10, 13, 10, 48, 13, 48, 57, 65, 70, 97, 102, 10, 48, 13, 48, 49, 57, 65, 70, 97,
   102, 10, 13, 48, 49, 57, 65, 70, 97, 102, 13, 48, 49, 57, 65, 70, 97, 102, 13, 48, 49, 57,
   65, 70, 97, 102, 10, 13, 48, 49, 57, 65, 70, 97, 102, 13, 48, 10, 13, 48, 49, 57, 65, 70,
   97, 102, 13, 10, 9, 32, 34, 44, 47, 58, 123, 125, 40, 41, 59, 64, 91, 93, 13, 48, 49, 57,
   65, 70, 97, 102, 13, 48, 49, 57, 65, 70, 97, 102, 0]

def hshHttpSingleLengths : List ℕ :=
  [0, 0, 1, 1, 1, 1, 1, 1, 1, 1, 1, 1, 0, 1, 1, 11, 8, 2, 3, 2, 1, 12, 9, 10, 10, 10, 10, 10,
   10, 9, 10, 10, 10, 10, 10, 10, 8, 2, 3, 2, 2, 10, 10, 10, 10, 10, 10, 10, 9, 10, 10, 10, 10,
   10, 10, 10, 10, 8, 2, 4, 3, 3, 3, 3, 3, 3, 1, 1, 1, 1, 1, 0, 1, 1, 1, 1, 1, 0, 1, 2, 3, 2,
   2, 3, 2, 3, 1, 1, 0, 0, 8, 0, 0, 2, 2, 0, 0, 0]

def hshHttpRangeLengths : List ℕ :=
  [0, 2, 2, 0, 0, 0, 0, 0, 0, 0, 0, 0, 1, 0, 0, 3, 3, 0, 0, 0, 0, 3, 3, 3, 3, 3, 3, 3, 3, 3, 3,
   3, 3, 3, 3, 3, 3, 0, 1, 0, 1, 3, 3, 3, 3, 3, 3, 3, 3, 3, 3, 3, 3, 3, 3, 3, 3, 3, 0, 0, 0, 0,
   0, 0, 0, 0, 0, 0, 0, 3, 0, 0, 0, 0, 0, 3, 0, 0, 0, 3, 3, 3, 3, 3, 0, 3, 0, 0, 0, 0, 3, 0, 0,
   3, 3, 0, 0, 0]

def hshHttpIndexOffsets : List ℕ :=
  [0, 0, 3, 7, 9, 11, 13, 15, 17, 19, 21, 23, 25, 27, 29, 31, 46, 58, 61, 65, 68, 70, 86, 99,
   113, 127, 141, 155, 169, 183, 196, 210, 224, 238, 252, 266, 280, 292, 295, 300, 303, 307,
   321, 335, 349, 363, 377, 391, 405, 418, 432, 446, 460, 474, 488, 502, 516, 530, 542, 545,
   550, 554, 558, 562, 566, 570, 574, 576, 578, 580, 585, 587, 588, 590, 592, 594, 599, 601,
   602, 604, 610, 617, 623, 629, 636, 639, 646, 648, 650, 651, 652, 664, 665, 666, 672, 678,
   679, 680]

def hshHttpIndicies : List ℕ :=
  [1, 1, 0, 2, 3, 3, 0, 0, 4, 6, 5, 7, 0, 8, 0, 9, 0, 10, 0, 11, 0, 12, 0, 13, 0, 14, 0, 15, 0,
   16, 0, 0, 0, 0, 0, 0, 18, 19, 18, 19, 0, 0, 0, 0, 0, 17, 0, 0, 0, 0, 0, 21, 0, 0, 0, 0, 0,
   20, 22, 22, 0, 24, 25, 24, 23, 0, 27, 26, 28, 0, 0, 30, 0, 0, 0, 0, 31, 32, 31, 32, 0, 0, 0,
   0, 0, 29, 0, 33, 0, 0, 0, 0, 21, 0, 0, 0, 0, 0, 20, 0, 0, 0, 0, 0, 21, 34, 34, 0, 0, 0, 0,
   0, 20, 0, 0, 0, 0, 0, 21, 35, 35, 0, 0, 0, 0, 0, 20, 0, 0, 0, 0, 0, 21, 36, 36, 0, 0, 0, 0,
   0, 20, 0, 0, 0, 0, 0, 21, 37, 37, 0, 0, 0, 0, 0, 20, 0, 0, 0, 0, 0, 21, 38, 38, 0, 0, 0, 0,
   0, 20, 0, 0, 0, 0, 0, 21, 39, 39, 0, 0, 0, 0, 0, 20, 0, 0, 0, 0, 40, 0, 21, 0, 0, 0, 0, 0,
   20, 0, 0, 0, 0, 0, 21, 41, 41, 0, 0, 0, 0, 0, 20, 0, 0, 0, 0, 0, 21, 42, 42, 0, 0, 0, 0, 0,
   20, 0, 0, 0, 0, 0, 21, 43, 43, 0, 0, 0, 0, 0, 20, 0, 0, 0, 0, 0, 21, 44, 44, 0, 0, 0, 0, 0,
   20, 0, 0, 0, 0, 0, 21, 45, 45, 0, 0, 0, 0, 0, 20, 0, 0, 0, 0, 0, 21, 46, 46, 0, 0, 0, 0, 0,
   20, 0, 0, 0, 0, 0, 47, 0, 0, 0, 0, 0, 20, 48, 48, 0, 49, 25, 49, 50, 23, 28, 27, 26, 0, 27,
   51, 26, 0, 0, 0, 0, 0, 21, 52, 52, 0, 0, 0, 0, 0, 20, 0, 0, 0, 0, 0, 21, 53, 53, 0, 0, 0, 0,
   0, 20, 0, 0, 0, 0, 0, 21, 54, 54, 0, 0, 0, 0, 0, 20, 0, 0, 0, 0, 0, 21, 55, 55, 0, 0, 0, 0,
   0, 20, 0, 0, 0, 0, 0, 21, 56, 56, 0, 0, 0, 0, 0, 20, 0, 0, 0, 0, 0, 21, 57, 57, 0, 0, 0, 0,
   0, 20, 0, 0, 0, 0, 0, 21, 58, 58, 0, 0, 0, 0, 0, 20, 0, 0, 0, 0, 59, 0, 21, 0, 0, 0, 0, 0,
   20, 0, 0, 0, 0, 0, 21, 60, 60, 0, 0, 0, 0, 0, 20, 0, 0, 0, 0, 0, 21, 61, 61, 0, 0, 0, 0, 0,
   20, 0, 0, 0, 0, 0, 21, 62, 62, 0, 0, 0, 0, 0, 20, 0, 0, 0, 0, 0, 21, 63, 63, 0, 0, 0, 0, 0,
   20, 0, 0, 0, 0, 0, 21, 64, 64, 0, 0, 0, 0, 0, 20, 0, 0, 0, 0, 0, 21, 65, 65, 0, 0, 0, 0, 0,
   20, 0, 0, 0, 0, 0, 21, 66, 66, 0, 0, 0, 0, 0, 20, 0, 0, 0, 0, 0, 21, 67, 67, 0, 0, 0, 0, 0,
   20, 0, 0, 0, 0, 0, 68, 0, 0, 0, 0, 0, 20, 69, 69, 0, 70, 25, 70, 71, 23, 0, 27, 72, 26, 0,
   27, 73, 26, 0, 27, 74, 26, 0, 27, 75, 26, 0, 27, 76, 26, 0, 27, 77, 26, 78, 0, 79, 0, 81,
   80, 82, 83, 83, 83, 0, 84, 0, 85, 86, 0, 87, 0, 89, 88, 90, 91, 91, 91, 0, 92, 0, 93, 95,
   94, 96, 97, 98, 98, 98, 94, 99, 96, 97, 98, 98, 98, 94, 101, 102, 103, 103, 103, 100, 104,
   97, 98, 98, 98, 94, 105, 96, 97, 98, 98, 98, 94, 106, 95, 94, 107, 96, 97, 98, 98, 98, 94,
   108, 0, 109, 0, 110, 111, 0, 0, 0, 0, 0, 21, 0, 0, 0, 0, 0, 20, 112, 0, 101, 102, 103, 103,
   103, 100, 96, 97, 98, 98, 98, 94, 0, 113, 114, 0]

def hshHttpTransTargs : List ℕ :=
  [0, 2, 3, 2, 4, 4, 5, 6, 7, 8, 9, 10, 11, 12, 13, 14, 15, 16, 23, 41, 16, 17, 18, 19, 18, 39,
   19, 20, 21, 16, 22, 23, 41, 90, 24, 25, 26, 27, 28, 29, 30, 31, 32, 33, 34, 35, 36, 37, 38,
   38, 40, 40, 42, 43, 44, 45, 46, 47, 48, 49, 50, 51, 52, 53, 54, 55, 56, 57, 58, 59, 59, 60,
   61, 62, 63, 64, 65, 19, 67, 68, 69, 72, 70, 69, 71, 91, 73, 92, 75, 86, 76, 75, 77, 78, 79,
   84, 80, 82, 79, 81, 79, 80, 82, 79, 83, 93, 85, 94, 87, 95, 96, 97, 91, 96, 97]

def hshHttpTransActions : List ℕ :=
  [17, 19, 3, 5, 22, 5, 3, 1, 0, 0, 0, 0, 0, 0, 0, 3, 0, 64, 64, 64, 5, 3, 0, 25, 25, 56, 5, 3,
   5, 52, 52, 52, 52, 43, 5, 5, 5, 5, 5, 5, 5, 5, 5, 5, 5, 5, 5, 3, 0, 25, 60, 37, 5, 5, 5, 5,
   5, 5, 5, 5, 5, 5, 5, 5, 5, 5, 5, 5, 3, 0, 25, 25, 5, 5, 5, 5, 5, 40, 0, 0, 46, 0, 0, 7, 0,
   28, 0, 11, 46, 0, 0, 7, 0, 28, 76, 9, 76, 49, 72, 76, 80, 80, 68, 85, 76, 90, 76, 90, 0, 11,
   31, 34, 9, 13, 15]

def hshHttpStart : ℕ := 1
def hshHttpError : ℕ := 0
def hshHttpEnChunkEnd : ℕ := 66
def hshHttpEnChunkedBody : ℕ := 74
def hshHttpEnSmallBody : ℕ := 88
def hshHttpEnLargeBody : ℕ := 89

/-- The actions of parser.rl in the order of the generated `switch`. -/
inductive Action where
  | method | target | version | headerKey | headerValue | body | emitToken
  | contentLengthDigit | transferEncoding | resetCount | incCount | doneHeaders
  | chunkStart | chunkSize | chunkRead | endStream | smallBodyRead | largeBodyRead | error
deriving DecidableEq, Repr

def Action.ofCase : ℕ → Action
  | 0 => .method | 1 => .target | 2 => .version | 3 => .headerKey | 4 => .headerValue
  | 5 => .body | 6 => .emitToken | 7 => .contentLengthDigit | 8 => .transferEncoding
  | 9 => .resetCount | 10 => .incCount | 11 => .doneHeaders | 12 => .chunkStart
  | 13 => .chunkSize | 14 => .chunkRead | 15 => .endStream | 16 => .smallBodyRead
  | 17 => .largeBodyRead | _ => .error

def entry (table : List ℕ) (k : ℕ) : ℕ := table.getD k 0

/-- The binary search over the single keys. `lower` and `upper` count keys from `keys`; `upper` is
    exclusive. -/
def matchSingle (keys c : ℕ) : ℕ → ℕ → ℕ → Option ℕ
  | 0, _, _ => none
  | fuel + 1, lower, upper =>
    if upper ≤ lower then none
    else
      let mid := lower + (upper - 1 - lower) / 2
      if c < entry hshHttpTransKeys (keys + mid) then matchSingle keys c fuel lower mid
      else if entry hshHttpTransKeys (keys + mid) < c then matchSingle keys c fuel (mid + 1) upper
      else some mid

/-- The binary search over the key ranges, counted in pairs. -/
def matchRange (keys c : ℕ) : ℕ → ℕ → ℕ → Option ℕ
  | 0, _, _ => none
  | fuel + 1, lower, upper =>
    if upper ≤ lower then none
    else
      let mid := lower + (upper - 1 - lower) / 2
      if c < entry hshHttpTransKeys (keys + 2 * mid) then matchRange keys c fuel lower mid
      else if entry hshHttpTransKeys (keys + 2 * mid + 1) < c then
        matchRange keys c fuel (mid + 1) upper
      else some mid

/-- `_trans` after the `_match` label. -/
def transition (cs c : ℕ) : ℕ :=
  let keys := entry hshHttpKeyOffsets cs
  let trans := entry hshHttpIndexOffsets cs
  let singles := entry hshHttpSingleLengths cs
  let ranges := entry hshHttpRangeLengths cs
  match matchSingle keys c singles 0 singles with
  | some i => entry hshHttpIndicies (trans + i)
  | none =>
    match matchRange (keys + singles) c ranges 0 ranges with
    | some i => entry hshHttpIndicies (trans + singles + i)
    | none => entry hshHttpIndicies (trans + singles + ranges)

def transTarg (cs c : ℕ) : ℕ := entry hshHttpTransTargs (transition cs c)

/-- The actions listed at an offset of `_hsh_http_actions`: their number, then their cases. -/
def actionsAt (offset : ℕ) : List Action :=
  if offset = 0 then []
  else ((hshHttpActions.drop (offset + 1)).take (entry hshHttpActions offset)).map Action.ofCase

def transActions (cs c : ℕ) : List Action :=
  actionsAt (entry hshHttpTransActions (transition cs c))

end HttpServer.ParserTables
