import HttpServer.Respond

set_option autoImplicit false

/-!
# What a print leaves in the buffer of a response

A text that fits with its NUL is added at the end. One that fits exactly loses its last byte to the
NUL, and one that makes the buffer grow is counted twice.
-/
namespace HttpServer.PrintedText
open MachineInt PrintBuffer Respond

section Slices

variable {data data' : ℤ → UInt8} {pos : ℤ} {text : List UInt8}

theorem write_before (data : ℤ → UInt8) (text : List UInt8) {i : ℤ} (h : i < pos) : write data pos text i = data i :=
  if_neg (by omega)

theorem slice_write (data : ℤ → UInt8) (pos : ℤ) (text : List UInt8) :
    slice (write data pos text) pos text.length = text := by
  apply List.ext_getElem
  · rw [slice_length]
  · intro i h1 h2
    rw [slice_getElem]
    unfold write
    rw [if_pos (by omega)]
    simp [h2]

theorem slice_write_take (data : ℤ → UInt8) (pos : ℤ) {n : ℕ} (h : n ≤ text.length) :
    slice (write data pos text) pos n = text.take n := by
  obtain ⟨m, hm⟩ := Nat.exists_eq_add_of_le h
  have whole := slice_write data pos text
  rw [hm, slice_add] at whole
  conv_rhs => rw [← whole]
  exact (List.take_left' (slice_length _ _ _)).symm

theorem slice_extend {n : ℕ} (size : ℤ) (nonneg : 0 ≤ size) (same : ∀ i, 0 ≤ i → i < size → data' i = data i) :
    slice data' 0 (size + n).toNat = slice data 0 size.toNat ++ slice data' size n := by
  rw [show (size + n).toNat = size.toNat + n by omega, slice_add, zero_add, Int.toNat_of_nonneg nonneg]
  congr 1
  exact slice_congr fun i lo hi => same i lo (by omega)

theorem slice_const {n : ℕ} {a : ℤ} {b : UInt8} (h : ∀ i, a ≤ i → i < a + n → data i = b) :
    slice data a n = List.replicate n b := by
  induction n generalizing a with
  | zero => rfl
  | succ n ih =>
    rw [slice, List.replicate_succ, h a (le_refl a) (by omega), ih fun i lo hi => h i (by omega) (by omega)]

end Slices

section Outcome

def content (s : Printing) : List UInt8 := slice s.ctx.data 0 s.ctx.size.toNat

/-- The sizes are `int`s. -/
structure Ranged (s : Printing) : Prop where
  capacity_pos : 0 < s.ctx.capacity
  capacity_lt : s.ctx.capacity < 2147483648
  size_ge : -2147483648 ≤ s.ctx.size
  size_lt : s.ctx.size < 2147483648

/-- Fresh memory that holds NULs only. -/
def Zeroed (blks : ℕ → NewBlock) : Prop := ∀ n i, (blks n).junk i = 0

/-- What `_grwprintf` does with a text. -/
inductive Outcome (text : List UInt8) (s t : Printing) : Prop
  | plain (room : s.ctx.size + text.length < s.ctx.capacity) (capacity_eq : t.ctx.capacity = s.ctx.capacity)
      (size_eq : t.ctx.size = s.ctx.size + text.length) (content_eq : content t = content s ++ text)
  | full (exact : s.ctx.size + text.length = s.ctx.capacity) (capacity_eq : t.ctx.capacity = s.ctx.capacity)
      (size_eq : t.ctx.size = s.ctx.size + text.length)
      (content_eq : content t = content s ++ text.dropLast ++ [0])
  | grown (beyond : s.ctx.capacity < s.ctx.size + text.length) (enough : s.ctx.size + text.length ≤ t.ctx.capacity)
      (size_eq : t.ctx.size = wrap32 (s.ctx.size + 2 * text.length))
      (content_eq : 0 ≤ t.ctx.size → ∃ printed rest, content t = content s ++ printed ++ rest ∧
        printed.length = text.length ∧ rest.length = text.length ∧
        (s.ctx.size + text.length < t.ctx.capacity → printed = text) ∧
        (Zeroed s.blks → rest = List.replicate text.length 0))
  | failed (long : 2147483648 ≤ text.length) (capacity_eq : t.ctx.capacity = s.ctx.capacity)
      (size_eq : t.ctx.size = s.ctx.size - 1) (content_eq : content t = (content s).dropLast)
  | wrapped (long : 2147483648 ≤ s.ctx.size + text.length)
      (size_eq : t.ctx.size = wrap32 (s.ctx.size + text.length)) (negative : t.ctx.size < 0)

variable {s t : Printing} {text : List UInt8}

theorem vsnprintf_cases {ctx ctx' : GrwprintfT} {bytes : ℤ} (pos : 0 < ctx.capacity) (lt : ctx.capacity < 2147483648)
    (ge : -2147483648 ≤ ctx.size) (lt' : ctx.size < 2147483648) (h : vsnprintf ctx text = some (ctx', bytes)) :
    bytes = (if text.length < 2147483648 then (text.length : ℤ) else -1) ∧ 0 ≤ ctx.size ∧ ctx.size ≤ ctx.capacity ∧
      ctx' = { ctx with
        data :=
          if ctx.size = ctx.capacity then ctx.data
          else write ctx.data ctx.size (text.take (ctx.capacity - ctx.size - 1).toNat ++ [0]) } := by
  unfold vsnprintf at h
  dsimp only at h
  have low := wrap32_emod (ctx.capacity - ctx.size)
  have bounds := wrap32_bounds (ctx.capacity - ctx.size)
  split at h
  · rename_i empty
    cases h
    unfold sizeT at empty
    have same : ctx.size = ctx.capacity := by
      norm_num at empty
      omega
    refine ⟨rfl, by omega, by omega, ?_⟩
    rw [if_pos same]
  · split at h
    · rename_i inside
      cases h
      obtain ⟨nonneg, fits⟩ := inside
      rw [List.length_append, List.length_singleton] at fits
      have n : sizeT (wrap32 (ctx.capacity - ctx.size)) = ctx.capacity - ctx.size := by
        rw [wrap32_eq (by omega) (by omega)]
        exact Int.emod_eq_of_lt (by omega) (by norm_num; omega)
      refine ⟨rfl, nonneg, by omega, ?_⟩
      rw [if_neg (by omega), n]
    · cases h

theorem growCapacity_spec {needed capacity capacity' : ℤ} {fuel : ℕ}
    (h : growCapacity needed fuel capacity = some capacity') :
    needed ≤ capacity' ∧ (capacity' = capacity ∨ capacity' < 2147483648) := by
  induction fuel generalizing capacity with
  | zero => cases h
  | succ fuel ih =>
    rw [growCapacity] at h
    split at h
    · obtain ⟨le, rest⟩ := ih h
      refine ⟨le, .inr ?_⟩
      rcases rest with rfl | lt
      · exact (wrap32_bounds _).2
      · exact lt
    · rename_i enough
      cases h
      exact ⟨not_lt.1 enough, .inl rfl⟩

theorem content_write {data : ℤ → UInt8} {size n : ℤ} {src : List UInt8} (size_eq : t.ctx.size = size + n)
    (nonneg : 0 ≤ size) (n_nonneg : 0 ≤ n) (same : ∀ i, 0 ≤ i → i < size → data i = s.ctx.data i)
    (s_size : s.ctx.size = size) (data_eq : t.ctx.data = write data size src) :
    content t = content s ++ slice (write data size src) size n.toNat := by
  unfold content
  rw [size_eq, s_size, data_eq, ← Int.toNat_of_nonneg n_nonneg]
  refine slice_extend size nonneg fun i lo hi => ?_
  rw [write_before _ _ hi]
  exact same i lo hi

theorem slice_dropLast {data data' : ℤ → UInt8} {size : ℤ} (nonneg : 0 ≤ size)
    (same : ∀ i, 0 ≤ i → i < size → data' i = data i) :
    slice data' 0 (size - 1).toNat = (slice data 0 size.toNat).dropLast := by
  obtain ⟨n, rfl⟩ := Int.eq_ofNat_of_zero_le nonneg
  cases n with
  | zero => rfl
  | succ n =>
    rw [show ((n + 1 : ℕ) : ℤ).toNat = n + 1 by omega, slice_succ_right, List.dropLast_concat,
      show (((n + 1 : ℕ) : ℤ) - 1).toNat = n by omega]
    exact slice_congr fun i lo hi => same i lo (by push_cast; omega)

theorem take_dropLast {n : ℕ} (h : n = text.length - 1) : text.take n = text.dropLast := by
  rw [h, List.dropLast_eq_take]

theorem grown_content {data data₁ : ℤ → UInt8} {size : ℤ} (capacity : ℤ) (nonneg : 0 ≤ size) (kept : ∀ i, 0 ≤ i → i < size → data₁ i = data i) :
    let data₂ := write data₁ size (text.take (capacity - size - 1).toNat ++ [0])
    slice data₂ 0 (size + (2 * text.length : ℕ)).toNat =
        slice data 0 size.toNat ++ slice data₂ size text.length ++ slice data₂ (size + text.length) text.length ∧
      (size + text.length < capacity → slice data₂ size text.length = text) ∧
      ((∀ i, size + text.length ≤ i → data₁ i = 0) →
        slice data₂ (size + text.length) text.length = List.replicate text.length 0) := by
  intro data₂
  refine ⟨?_, fun room => ?_, fun fresh => slice_const fun i lo hi => ?_⟩
  · rw [@slice_extend data _ _ size nonneg fun i lo hi => ?_, two_mul, slice_add, List.append_assoc]
    rw [← kept i lo hi]
    exact write_before _ _ hi
  · have front : text.take (capacity - size - 1).toNat = text := List.take_of_length_le (by omega)
    change slice (write data₁ size (text.take (capacity - size - 1).toNat ++ [0])) size text.length = text
    rw [front, slice_write_take _ _ (by rw [List.length_append]; omega), List.take_left]
  · change write data₁ size (text.take (capacity - size - 1).toNat ++ [0]) i = 0
    unfold write
    split
    · rename_i inside
      rw [List.length_append, List.length_take, List.length_singleton] at inside
      rw [List.getD_eq_getElem?_getD, List.getElem?_append_right (by rw [List.length_take]; omega), List.length_take,
        show (i - size).toNat - min (capacity - size - 1).toNat text.length = 0 by omega]
      rfl
    · exact fresh i lo

theorem Printing.printf_outcome (ok : Ranged s) (some_text : text ≠ []) (h : s.printf text = some t) :
    Outcome text s t ∧ Ranged t := by
  obtain ⟨⟨ctx', memused'⟩, hr, rfl⟩ := Option.map_eq_some_iff.1 h
  obtain ⟨pos, lt, ge, lt'⟩ := ok
  have len_pos : 0 < text.length := List.length_pos_iff.2 some_text
  unfold grwprintf at hr
  split at hr
  · cases hr
  rename_i ctx bytes first
  obtain ⟨hbytes, nonneg, le, rfl⟩ := vsnprintf_cases pos lt ge lt' first
  change (if wrap32 (bytes + s.ctx.size) > s.ctx.capacity then _ else _ : Option (GrwprintfT × ℤ)) = _ at hr
  have bounds := wrap32_bounds (bytes + s.ctx.size)
  have low := wrap32_emod (bytes + s.ctx.size)
  -- the first call keeps what is before the text
  have kept : ∀ i, i < s.ctx.size → (if s.ctx.size = s.ctx.capacity then s.ctx.data
      else write s.ctx.data s.ctx.size (text.take (s.ctx.capacity - s.ctx.size - 1).toNat ++ [0])) i =
      s.ctx.data i := by
    intro i hi
    split
    · rfl
    · exact write_before _ _ hi
  by_cases long : 2147483648 ≤ text.length
  · rw [if_neg (by omega)] at hbytes
    subst hbytes
    have size : wrap32 (s.ctx.size + -1) = s.ctx.size - 1 := by
      rw [wrap32_eq (by omega) (by omega)]
      ring
    rw [if_neg (by omega)] at hr
    cases hr
    refine ⟨.failed long rfl size ?_, ⟨pos, lt, ?_, ?_⟩⟩
    · unfold content
      dsimp only
      rw [size]
      exact slice_dropLast nonneg fun i _ hi => kept i hi
    · change -2147483648 ≤ wrap32 (s.ctx.size + -1)
      omega
    · change wrap32 (s.ctx.size + -1) < 2147483648
      omega
  rw [if_pos (by omega)] at hbytes
  subst hbytes
  have range := wrap32_bounds (s.ctx.size + text.length)
  by_cases more : 2147483648 ≤ s.ctx.size + text.length
  · rw [if_neg (by omega)] at hr
    cases hr
    refine ⟨.wrapped more rfl ?_, ⟨pos, lt, range.1, range.2⟩⟩
    change wrap32 (s.ctx.size + text.length) < 0
    rw [add_comm] at low bounds
    omega
  have sum : wrap32 (text.length + s.ctx.size) = s.ctx.size + text.length := by
    rw [wrap32_eq (by omega) (by omega)]
    ring
  rw [sum] at hr
  split at hr
  · rename_i beyond
    split at hr
    · cases hr
    rename_i capacity grows
    dsimp only at hr
    split at hr
    · cases hr
    rename_i positive
    split at hr
    · cases hr
    rename_i ctx₂ bytes₂ second
    obtain ⟨enough, same⟩ := growCapacity_spec grows
    have lt₂ : capacity < 2147483648 := same.elim (fun heq => by rw [heq]; exact lt) id
    revert second
    generalize hctx : GrwprintfT.realloc _ _ _ = ctx₁
    intro second
    have capacity₁ : ctx₁.capacity = capacity := by rw [← hctx]; rfl
    have size₁ : ctx₁.size = s.ctx.size := by rw [← hctx]; rfl
    obtain ⟨hbytes, -, le₂, rfl⟩ := vsnprintf_cases (by omega) (by omega) (by omega) (by omega) second
    rw [if_pos (by omega)] at hbytes
    subst hbytes
    cases hr
    have size : wrap32 (ctx₁.size + wrap32 (text.length + text.length)) = wrap32 (s.ctx.size + 2 * text.length) := by
      unfold wrap32
      rw [size₁, Int.add_bmod_bmod, two_mul]
    have range := wrap32_bounds (s.ctx.size + 2 * text.length)
    have low := wrap32_emod (s.ctx.size + 2 * text.length)
    refine ⟨.grown beyond (enough.trans_eq capacity₁.symm) size fun nonneg₂ => ?_, ⟨?_, ?_, ?_, ?_⟩⟩
    · change 0 ≤ wrap32 (ctx₁.size + wrap32 (text.length + text.length)) at nonneg₂
      rw [size] at nonneg₂
      have size₂ : wrap32 (s.ctx.size + 2 * text.length) = s.ctx.size + (2 * text.length : ℕ) := by
        push_cast
        omega
      have kept₁ : ∀ i, 0 ≤ i → i < s.ctx.size → ctx₁.data i = s.ctx.data i := by
        intro i lo hi
        rw [← hctx]
        unfold GrwprintfT.realloc
        dsimp only
        rw [if_pos (by omega), kept i hi]
      obtain ⟨whole, front, back⟩ := @grown_content text _ _ _ capacity nonneg kept₁
      have data₂ : (if ctx₁.size = ctx₁.capacity then ctx₁.data
          else write ctx₁.data ctx₁.size (text.take (ctx₁.capacity - ctx₁.size - 1).toNat ++ [0])) =
          write ctx₁.data s.ctx.size (text.take (capacity - s.ctx.size - 1).toNat ++ [0]) := by
        rw [if_neg (by omega), capacity₁, size₁]
      refine ⟨_, _, ?_, slice_length _ _ _, slice_length _ _ _, fun room => front ?_, fun zeroed => back ?_⟩
      · change slice (if ctx₁.size = ctx₁.capacity then ctx₁.data else _) 0
          (wrap32 (ctx₁.size + wrap32 (text.length + text.length))).toNat = _
        rw [size, size₂, data₂]
        exact whole
      · rw [← capacity₁]
        exact room
      · intro i lo
        rw [← hctx]
        unfold GrwprintfT.realloc
        dsimp only
        rw [if_neg (by omega)]
        exact zeroed 0 i
    · exact (not_le.1 positive).trans_eq capacity₁.symm
    · exact capacity₁.trans_lt lt₂
    · exact (wrap32_bounds _).1
    · exact (wrap32_bounds _).2
  · rename_i fits
    cases hr
    have size : wrap32 (s.ctx.size + text.length) = s.ctx.size + text.length := by
      rw [wrap32_eq (by omega) (by omega)]
    refine ⟨?_, ⟨pos, lt, range.1, range.2⟩⟩
    by_cases exact : s.ctx.size + text.length = s.ctx.capacity
    · refine .full exact rfl size ?_
      rw [content_write (t := _) (n := text.length) size nonneg (by omega) (fun _ _ _ => rfl) rfl (if_neg (by omega)),
        Int.toNat_natCast, List.append_assoc]
      congr 1
      have front : text.take (s.ctx.capacity - s.ctx.size - 1).toNat = text.dropLast := take_dropLast (by omega)
      have whole := slice_write s.ctx.data s.ctx.size (text.dropLast ++ [0])
      rw [List.length_append, List.length_dropLast, List.length_singleton, Nat.sub_add_cancel len_pos] at whole
      rw [front]
      exact whole
    · refine .plain (by omega) rfl size ?_
      rw [content_write (t := _) (n := text.length) size nonneg (by omega) (fun _ _ _ => rfl) rfl (if_neg (by omega)),
        Int.toNat_natCast]
      congr 1
      have front : text.take (s.ctx.capacity - s.ctx.size - 1).toNat = text := List.take_of_length_le (by omega)
      rw [front, slice_write_take _ _ (by rw [List.length_append]; omega), List.take_left]

theorem Printing.memcpy_outcome {src : List UInt8} {n : ℤ} (ok : Ranged s) (h : s.memcpy src n = some t) :
    0 ≤ s.ctx.size ∧ 0 ≤ n ∧ n ≤ src.length ∧ t.ctx.size = s.ctx.size + n ∧
      t.ctx.capacity = max s.ctx.capacity (s.ctx.size + n) ∧
      (s.ctx.size ≤ s.ctx.capacity → content t = content s ++ src.take n.toNat) ∧ Ranged t := by
  obtain ⟨⟨ctx', memused'⟩, hr, rfl⟩ := Option.map_eq_some_iff.1 h
  obtain ⟨pos, lt, ge, lt'⟩ := ok
  unfold grwmemcpy at hr
  have bounds := wrap32_bounds (s.ctx.size + n)
  have low := wrap32_emod (s.ctx.size + n)
  -- the block in which the bytes are put, and what it has of the old one
  have put : ∀ (ctx₁ : GrwprintfT) memused blks, ctx₁.size = s.ctx.size →
      ctx₁.capacity = max s.ctx.capacity (s.ctx.size + n) → ctx₁.capacity < 2147483648 →
      (s.ctx.size ≤ s.ctx.capacity → ∀ i, 0 ≤ i → i < s.ctx.size → ctx₁.data i = s.ctx.data i) →
      0 ≤ n ∧ n ≤ src.length ∧ 0 ≤ ctx₁.size ∧ ctx₁.size + n ≤ ctx₁.capacity →
      let t : Printing := ⟨{ ctx₁ with
        data := write ctx₁.data ctx₁.size (src.take n.toNat), size := wrap32 (ctx₁.size + n) }, memused, blks⟩
      0 ≤ s.ctx.size ∧ 0 ≤ n ∧ n ≤ src.length ∧ t.ctx.size = s.ctx.size + n ∧
        t.ctx.capacity = max s.ctx.capacity (s.ctx.size + n) ∧
        (s.ctx.size ≤ s.ctx.capacity → content t = content s ++ src.take n.toNat) ∧ Ranged t := by
    rintro ctx₁ memused blks hsize hcap lt₁ kept ⟨n_nonneg, n_le, nonneg, inside⟩ t
    have size : t.ctx.size = s.ctx.size + n := by
      change wrap32 (ctx₁.size + n) = _
      rw [hsize]
      exact wrap32_eq (by omega) (by omega)
    have length : (src.take n.toNat).length = n.toNat := by
      rw [List.length_take]
      omega
    refine ⟨by omega, n_nonneg, n_le, size, hcap, fun le => ?_, ⟨?_, lt₁, by omega, by omega⟩⟩
    · have whole := slice_write ctx₁.data s.ctx.size (src.take n.toNat)
      rw [length] at whole
      rw [content_write (t := t) (s := s) size (by omega) n_nonneg (kept le) rfl (by rw [← hsize]), whole]
    · change 0 < ctx₁.capacity
      omega
  by_cases grows : wrap32 (s.ctx.size + n) > s.ctx.capacity
  · simp only [grows, if_true] at hr
    split at hr
    swap
    · cases hr
    rename_i fits
    cases hr
    have inside : s.ctx.size + n ≤ wrap32 (s.ctx.size + n) := fits.2.2.2
    have nonneg : 0 ≤ s.ctx.size := fits.2.2.1
    have sum : wrap32 (s.ctx.size + n) = s.ctx.size + n := by omega
    refine put (s.ctx.realloc (s.blks 0) (wrap32 (s.ctx.size + n))) _ _ rfl ?_ bounds.2 (fun le i lo hi => ?_) fits
    · change wrap32 (s.ctx.size + n) = _
      omega
    · unfold GrwprintfT.realloc
      exact if_pos (by omega)
  · simp only [grows, if_false] at hr
    split at hr
    swap
    · cases hr
    rename_i fits
    cases hr
    have inside : s.ctx.size + n ≤ s.ctx.capacity := fits.2.2.2
    exact put s.ctx _ _ rfl (by omega) lt (fun _ _ _ _ => rfl) fits

theorem Printing.printf_room (ok : Ranged s) (nonneg : 0 ≤ s.ctx.size)
    (room : s.ctx.size + text.length < s.ctx.capacity) : ∃ t, s.printf text = some t := by
  have lt := ok.capacity_lt
  have n : sizeT (wrap32 (s.ctx.capacity - s.ctx.size)) = s.ctx.capacity - s.ctx.size := by
    rw [wrap32_eq (by omega) (by omega)]
    exact Int.emod_eq_of_lt (by omega) (by norm_num; omega)
  have first : vsnprintf s.ctx text = some ({ s.ctx with
      data := write s.ctx.data s.ctx.size (text.take (s.ctx.capacity - s.ctx.size - 1).toNat ++ [0]) },
      (text.length : ℤ)) := by
    unfold vsnprintf
    dsimp only
    rw [n, if_neg (by omega), if_pos ⟨nonneg, by simp; omega⟩, if_pos (by omega)]
  unfold Printing.printf grwprintf
  rw [first]
  dsimp only
  rw [if_neg (by rw [wrap32_eq (by omega) (by omega)]; omega)]
  exact ⟨_, rfl⟩

theorem Printing.memcpy_room {src : List UInt8} {n : ℤ} (ok : Ranged s) (nonneg : 0 ≤ s.ctx.size) (n_nonneg : 0 ≤ n)
    (n_le : n ≤ src.length) (total : s.ctx.size + n < 2147483648) : ∃ t, s.memcpy src n = some t := by
  have pos := ok.capacity_pos
  have sum : wrap32 (s.ctx.size + n) = s.ctx.size + n := wrap32_eq (by omega) (by omega)
  unfold Printing.memcpy grwmemcpy
  by_cases grows : wrap32 (s.ctx.size + n) > s.ctx.capacity
  · simp only [grows, if_true]
    rw [if_pos ⟨n_nonneg, n_le, nonneg, by change s.ctx.size + n ≤ wrap32 (s.ctx.size + n); omega⟩]
    exact ⟨_, rfl⟩
  · simp only [grows, if_false]
    rw [if_pos ⟨n_nonneg, n_le, nonneg, by omega⟩]
    exact ⟨_, rfl⟩

theorem Printing.init_ranged (blks : ℕ → NewBlock) (memused : ℤ) : Ranged (.init blks memused) := by
  refine ⟨?_, ?_, ?_, ?_⟩ <;> norm_num [Printing.init, grwprintfInit, httpResponseBufSize]

end Outcome

section Pieces

variable {s t : Printing} {pieces : List (List UInt8)}

/-- Some calls of `_grwprintf`. -/
def prints (pieces : List (List UInt8)) (s : Printing) : Option Printing :=
  pieces.foldlM (fun (s : Printing) text => s.printf text) s

theorem prints_cons (text : List UInt8) (pieces : List (List UInt8)) (s : Printing) :
    prints (text :: pieces) s = (s.printf text).bind (prints pieces) := rfl

theorem prints_append (pieces pieces' : List (List UInt8)) (s : Printing) :
    prints (pieces ++ pieces') s = (prints pieces s).bind (prints pieces') := by
  unfold prints
  exact List.foldlM_append

theorem prints_room (ok : Ranged s) (nonneg : 0 ≤ s.ctx.size) (some_text : ∀ text ∈ pieces, text ≠ [])
    (room : s.ctx.size + pieces.flatten.length < s.ctx.capacity) :
    ∃ t, prints pieces s = some t ∧ Ranged t ∧ t.ctx.capacity = s.ctx.capacity ∧
      t.ctx.size = s.ctx.size + pieces.flatten.length ∧ content t = content s ++ pieces.flatten := by
  induction pieces generalizing s with
  | nil => exact ⟨s, rfl, ok, rfl, by simp, by simp⟩
  | cons text pieces ih =>
    rw [List.flatten_cons, List.length_append] at room
    have nonempty := some_text text List.mem_cons_self
    have pos := List.length_pos_iff.2 nonempty
    obtain ⟨u, hu⟩ := @Printing.printf_room s text ok nonneg (by push_cast at room; omega)
    obtain ⟨outcome, ok'⟩ := Printing.printf_outcome ok nonempty hu
    push_cast at room
    cases outcome with
    | plain _ capacity_eq size_eq content_eq =>
      obtain ⟨t, ht, ranged, hcap, hsize, hcontent⟩ := ih ok' (by omega)
        (fun text h => some_text text (List.mem_cons_of_mem _ h)) (by omega)
      refine ⟨t, ?_, ranged, hcap.trans capacity_eq, ?_, ?_⟩
      · rw [prints_cons, hu]
        exact ht
      · rw [hsize, size_eq, List.flatten_cons, List.length_append]
        push_cast
        ring
      · rw [hcontent, content_eq, List.flatten_cons, List.append_assoc]
    | full exact => omega
    | grown beyond => omega
    | failed long => have := ok.capacity_lt; omega
    | wrapped long => have := ok.capacity_lt; omega

/-- Nothing is printed at a negative size, or behind the block. -/
theorem Printing.printf_inside {text : List UInt8} (ok : Ranged s) (h : s.printf text = some t) :
    0 ≤ s.ctx.size ∧ s.ctx.size ≤ s.ctx.capacity := by
  obtain ⟨r, hr, -⟩ := Option.map_eq_some_iff.1 h
  unfold grwprintf at hr
  split at hr
  · cases hr
  rename_i ctx bytes first
  obtain ⟨-, nonneg, le, -⟩ := vsnprintf_cases ok.capacity_pos ok.capacity_lt ok.size_ge ok.size_lt first
  exact ⟨nonneg, le⟩

theorem prints_inside (ok : Ranged s) (some_piece : pieces ≠ []) (h : prints pieces s = some t) :
    0 ≤ s.ctx.size ∧ s.ctx.size ≤ s.ctx.capacity := by
  cases pieces with
  | nil => exact absurd rfl some_piece
  | cons text pieces =>
    rw [prints_cons] at h
    obtain ⟨u, hu, -⟩ := Option.bind_eq_some_iff.1 h
    exact Printing.printf_inside ok hu

theorem prints_ranged (ok : Ranged s) (some_text : ∀ text ∈ pieces, text ≠ []) (h : prints pieces s = some t) :
    Ranged t := by
  induction pieces generalizing s with
  | nil =>
    cases h
    exact ok
  | cons text pieces ih =>
    rw [prints_cons] at h
    obtain ⟨u, hu, h⟩ := Option.bind_eq_some_iff.1 h
    have ok' := (Printing.printf_outcome ok (some_text text List.mem_cons_self) hu).2
    exact ih ok' (fun text h => some_text text (List.mem_cons_of_mem _ h)) h

theorem wrap32_add (x y : ℤ) : wrap32 (wrap32 x + y) = wrap32 (x + y) := Int.bmod_add_bmod

/-- What was counted of some texts: all their bytes, and some twice. -/
structure Counted (pieces : List (List UInt8)) (s t : Printing) (extra : ℕ) : Prop where
  le : extra ≤ pieces.flatten.length
  size_eq : t.ctx.size = wrap32 (s.ctx.size + pieces.flatten.length + extra)
  fits : extra = 0 → s.ctx.size + pieces.flatten.length < 2147483648 → pieces ≠ [] →
    t.ctx.capacity = s.ctx.capacity ∧ t.ctx.size ≤ t.ctx.capacity ∧
      (t.ctx.size = t.ctx.capacity → content t = content s ++ pieces.flatten.dropLast ++ [0])

/-- Texts that do not fit: some bytes are counted twice, or the last one is the NUL. -/
theorem prints_counted (ok : Ranged s) (some_text : ∀ text ∈ pieces, text ≠ [])
    (short : ∀ text ∈ pieces, text.length < 2147483648) (h : prints pieces s = some t) :
    Ranged t ∧ ∃ extra, Counted pieces s t extra := by
  induction pieces generalizing s with
  | nil =>
    cases h
    refine ⟨ok, 0, le_refl _, ?_, fun _ _ h => absurd rfl h⟩
    simp [wrap32_eq ok.size_ge ok.size_lt]
  | cons text pieces ih =>
    rw [prints_cons] at h
    obtain ⟨u, hu, h⟩ := Option.bind_eq_some_iff.1 h
    have nonempty := some_text text List.mem_cons_self
    have len_pos := List.length_pos_iff.2 nonempty
    obtain ⟨outcome, ok'⟩ := Printing.printf_outcome ok nonempty hu
    obtain ⟨ranged, extra, le, size, fits⟩ := ih ok' (fun text h => some_text text (List.mem_cons_of_mem _ h))
      (fun text h => short text (List.mem_cons_of_mem _ h)) h
    refine ⟨ranged, ?_⟩
    have flat : (text :: pieces).flatten.length = text.length + pieces.flatten.length := by simp
    cases outcome with
    | plain room capacity_eq size_eq content_eq =>
      refine ⟨extra, by omega, ?_, fun none total _ => ?_⟩
      · rw [size, size_eq, flat]
        push_cast
        ring_nf
      rw [flat] at total
      push_cast at total
      cases pieces with
      | nil =>
        cases h
        exact ⟨capacity_eq, by omega, fun full => by omega⟩
      | cons next pieces =>
        obtain ⟨capacity, le', last⟩ := fits none (by omega) (List.cons_ne_nil _ _)
        refine ⟨capacity.trans capacity_eq, le', fun full => ?_⟩
        have rest : (next :: pieces).flatten ≠ [] := by
          have := some_text next (by simp)
          simp [this]
        rw [last full, content_eq, show (text :: next :: pieces).flatten = text ++ (next :: pieces).flatten from rfl,
          List.dropLast_append_of_ne_nil rest]
        simp only [List.append_assoc]
    | full exact capacity_eq size_eq content_eq =>
      refine ⟨extra, by omega, ?_, fun none total _ => ?_⟩
      · rw [size, size_eq, flat]
        push_cast
        ring_nf
      rw [flat] at total
      push_cast at total
      cases pieces with
      | nil =>
        cases h
        refine ⟨capacity_eq, by omega, fun _ => ?_⟩
        simpa using content_eq
      | cons next pieces =>
        -- the next text makes the buffer grow
        obtain ⟨capacity, le', -⟩ := fits none (by omega) (List.cons_ne_nil _ _)
        have longer : 0 < (next :: pieces).flatten.length := by
          have := List.length_pos_iff.2 (some_text next (by simp))
          simp
          omega
        have nonneg := ok.size_ge
        have pos := ok.capacity_pos
        rw [none, Nat.cast_zero, add_zero, wrap32_eq (by omega) (by omega)] at size
        omega
    | grown beyond enough size_eq content_eq =>
      refine ⟨text.length + extra, by omega, ?_, fun none => by omega⟩
      rw [size, size_eq, flat, add_assoc, wrap32_add]
      push_cast
      ring_nf
    | failed long => exact absurd (short text List.mem_cons_self) (not_lt.2 long)
    | wrapped long size_eq negative =>
      cases pieces with
      | nil =>
        cases h
        refine ⟨0, Nat.zero_le _, ?_, fun _ total => ?_⟩
        · simpa using size_eq
        · simp at total
          omega
      | cons next pieces =>
        have := (prints_inside ok' (List.cons_ne_nil _ _) h).1
        omega

end Pieces

end HttpServer.PrintedText
