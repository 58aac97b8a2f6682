import Mathlib

set_option autoImplicit false

/-!
# Streams of messages

A reader takes one message from the front of a stream. When what it finds does not depend on what
follows, a stream of messages is read back as these messages, wherever it is cut.
-/
namespace Messages

section Streams

variable {α β : Type*} {read : List β → Option (α × List β)} {x : α} {text part rest : List β}

/-- What a reader finds does not depend on what follows. -/
def Extends (read : List β → Option (α × List β)) : Prop :=
  ∀ bytes more x rest, read bytes = some (x, rest) → read (bytes ++ more) = some (x, rest ++ more)

/-- The reader finds this message in just this text. -/
def Reads (read : List β → Option (α × List β)) (x : α) (text : List β) : Prop :=
  text ≠ [] ∧ read text = some (x, [])

theorem Reads.front (ext : Extends read) (h : Reads read x text) (rest : List β) :
    read (text ++ rest) = some (x, rest) := ext text rest x [] h.2

theorem Reads.cut (ext : Extends read) (h : Reads read x text) (front : part <+: text) (proper : part ≠ text) :
    read part = none := by
  obtain ⟨more, rfl⟩ := front
  cases early : read part with
  | none => rfl
  | some r =>
    have whole := ext part more r.1 r.2 early
    rw [h.2] at whole
    have nothing : r.2 ++ more = [] := (Prod.mk.inj (Option.some.inj whole)).2.symm
    rw [(List.append_eq_nil_iff.1 nothing).2, List.append_nil] at proper
    exact absurd rfl proper

/-- At most so many messages from the front of a stream, and what is left of it. -/
def readMany (read : List β → Option (α × List β)) : ℕ → List β → List α × List β
  | 0, bytes => ([], bytes)
  | n + 1, bytes =>
    match read bytes with
    | none => ([], bytes)
    | some r => (r.1 :: (readMany read n r.2).1, (readMany read n r.2).2)

/-- All messages of a stream, and what is left of it. -/
def readAll (read : List β → Option (α × List β)) (bytes : List β) : List α × List β :=
  readMany read bytes.length bytes

theorem readMany_messages (ext : Extends read) {xs : List α} {texts : List (List β)}
    (all : List.Forall₂ (Reads read) xs texts) (early : read part = none) {n : ℕ} (enough : xs.length ≤ n) :
    readMany read n (texts.flatten ++ part) = (xs, part) := by
  induction all generalizing n with
  | nil =>
    cases n with
    | zero => rfl
    | succ n =>
      change (match read part with | none => _ | some r => _) = _
      rw [early]
      rfl
  | @cons x text xs texts first _ ih =>
    cases n with
    | zero => exact absurd enough (Nat.not_succ_le_zero _)
    | succ n =>
      rw [List.flatten_cons, List.append_assoc]
      change (match read (text ++ (texts.flatten ++ part)) with | none => _ | some r => _) = _
      rw [first.front ext]
      dsimp only
      rw [ih (Nat.succ_le_succ_iff.1 enough)]

theorem forall₂_length_le {xs : List α} {texts : List (List β)} (all : List.Forall₂ (Reads read) xs texts) :
    xs.length ≤ texts.flatten.length := by
  induction all with
  | nil => exact le_refl 0
  | cons first _ ih =>
    have some_byte := List.length_pos_of_ne_nil first.1
    rw [List.flatten_cons, List.length_append, List.length_cons]
    omega

theorem readAll_messages (ext : Extends read) {xs : List α} {texts : List (List β)}
    (all : List.Forall₂ (Reads read) xs texts) (early : read part = none) :
    readAll read (texts.flatten ++ part) = (xs, part) := by
  have le := forall₂_length_le all
  refine readMany_messages ext all early ?_
  rw [List.length_append]
  omega

end Streams

section Lines

variable {lines : List (List UInt8)} {line text rest key value : List UInt8}

/-- The lines up to an empty one, behind the lines and the part of a line that were read before. -/
def readLines (lines : List (List UInt8)) (line : List UInt8) :
    List UInt8 → Option (List (List UInt8) × List UInt8)
  | 13 :: 10 :: rest => if line = [] then some (lines, rest) else readLines (lines ++ [line]) [] rest
  | c :: rest => readLines lines (line ++ [c]) rest
  | [] => none

theorem readLines_extends (lines : List (List UInt8)) (line : List UInt8) : Extends (readLines lines line) := by
  intro bytes more found rest h
  fun_induction readLines lines line bytes with
  | case1 lines bytes =>
    cases h
    rfl
  | case2 lines line bytes busy ih =>
    rw [List.cons_append, List.cons_append, readLines, if_neg busy]
    exact ih h
  | case3 lines line c bytes other ih =>
    cases bytes with
    | nil => cases h
    | cons d bytes =>
      have next := ih h
      rw [List.cons_append, readLines]
      · exact next
      · intro bytes' hc hd
        exact other bytes hc (by rw [List.cons_append] at hd; rw [(List.cons.inj hd).1])
  | case4 => cases h

theorem readLines_line (clean : (13 : UInt8) ∉ text) : readLines lines line (text ++ 13 :: 10 :: rest) =
    if line ++ text = [] then some (lines, rest) else readLines (lines ++ [line ++ text]) [] rest := by
  induction text generalizing line with
  | nil => rw [List.nil_append, List.append_nil, readLines]
  | cons c text ih =>
    have other : c ≠ 13 := fun h => clean (by simp [h])
    rw [List.cons_append, readLines]
    · rw [ih fun h => clean (List.mem_cons_of_mem _ h), List.append_assoc]
      rfl
    · exact fun _ h _ => absurd h other

theorem readLines_block {texts : List (List UInt8)} (clean : ∀ text ∈ texts, (13 : UInt8) ∉ text)
    (some_text : ∀ text ∈ texts, text ≠ []) :
    readLines lines [] (texts.flatMap (fun text => text ++ [13, 10]) ++ 13 :: 10 :: rest) = some (lines ++ texts, rest) := by
  induction texts generalizing lines with
  | nil =>
    rw [List.flatMap_nil, List.nil_append, List.append_nil, readLines, if_pos rfl]
  | cons text texts ih =>
    have split : (text :: texts).flatMap (fun text => text ++ [13, 10]) ++ 13 :: 10 :: rest =
        text ++ 13 :: 10 :: (texts.flatMap (fun text => text ++ [13, 10]) ++ 13 :: 10 :: rest) := by simp
    rw [split, readLines_line (clean text (by simp)), List.nil_append, if_neg (some_text text (by simp)),
      ih (fun t h => clean t (by simp [h])) fun t h => some_text t (by simp [h]), List.append_assoc]
    rfl

/-- `key: value` -/
def splitField : List UInt8 → Option (List UInt8 × List UInt8)
  | 58 :: 32 :: value => some ([], value)
  | c :: line => (splitField line).map fun r => (c :: r.1, r.2)
  | [] => none

theorem splitField_eq (clean : (58 : UInt8) ∉ key) : splitField (key ++ 58 :: 32 :: value) = some (key, value) := by
  induction key with
  | nil => rw [List.nil_append, splitField]
  | cons c key ih =>
    have other : c ≠ 58 := fun h => clean (by simp [h])
    rw [List.cons_append, splitField]
    · rw [ih fun h => clean (List.mem_cons_of_mem _ h)]
      rfl
    · exact fun _ h _ => absurd h other

theorem splitField_map {fields : List (List UInt8 × List UInt8)} (clean : ∀ field ∈ fields, (58 : UInt8) ∉ field.1) :
    (fields.map fun field => field.1 ++ 58 :: 32 :: field.2).mapM splitField = some fields := by
  induction fields with
  | nil => rfl
  | cons field fields ih =>
    rw [List.map_cons, List.mapM_cons, splitField_eq (clean field (by simp)), ih fun f h => clean f (by simp [h])]
    rfl

def digit (c : UInt8) : Option ℕ := if 48 ≤ c ∧ c ≤ 57 then some (c.toNat - 48) else none

def number (s : List UInt8) : Option ℕ :=
  if s = [] then none else s.foldlM (fun n c => (digit c).map fun d => 10 * n + d) 0

theorem digit_eq {d : ℕ} (lt : d < 10) : digit (48 + d).toUInt8 = some d := by
  interval_cases d <;> decide

theorem number_digits {ds : List ℕ} (some_digit : ds ≠ []) (small : ∀ d ∈ ds, d < 10) :
    number (ds.map fun d => (48 + d).toUInt8).reverse = some (Nat.ofDigits 10 ds) := by
  have fold : ∀ ds : List ℕ, (∀ d ∈ ds, d < 10) → (ds.map fun d => (48 + d).toUInt8).reverse.foldlM
      (fun n c => (digit c).map fun d => 10 * n + d) 0 = some (Nat.ofDigits 10 ds) := by
    intro ds small
    induction ds with
    | nil => rfl
    | cons d ds ih =>
      rw [List.map_cons, List.reverse_cons, List.foldlM_append, ih fun d h => small d (by simp [h])]
      change (some (Nat.ofDigits 10 ds)).bind
        (fun n => ((digit (48 + d).toUInt8).map fun d => 10 * n + d).bind some) = _
      rw [digit_eq (small d (by simp)), Nat.ofDigits_cons]
      change some (10 * Nat.ofDigits 10 ds + d) = _
      rw [add_comm]
  unfold number
  rw [if_neg (by simpa using some_digit), fold ds small]

end Lines

end Messages
