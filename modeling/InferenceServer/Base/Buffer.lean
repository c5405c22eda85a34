import Mathlib.Algebra.Order.Ring.Int
import Mathlib.Data.List.Induction

/-!
# Flat buffers read as rows

Library `Base`. A batch is one flat sequence whose row `i` is the window of `n`
elements at offset `i * n`. The lemmas say how rows see concatenation, truncation
and row-by-row maps. Extents are `std::size_t` products, so they wrap at 64 bits.
-/

namespace InferenceServer.Base

universe u v

variable {α : Type u} {β : Type v}

/-- Product of two `std::size_t` values. -/
def sizeMul (a b : Nat) : Nat := a * b % 2 ^ 64

/-- A product that fits 64 bits is the ordinary one. -/
theorem sizeMul_of_lt {a b : Nat} (h : a * b < 2 ^ 64) : sizeMul a b = a * b :=
  Nat.mod_eq_of_lt h

/-- When the extent of all rows wraps, the offset of some row is far beyond any buffer. -/
theorem exists_sizeMul_ge {rows elems : Nat} (h : 2 ^ 64 ≤ rows * elems) (he : elems < 2 ^ 64) :
    ∃ i < rows, 2 ^ 63 ≤ sizeMul i elems := by
  by_cases hsmall : elems ≤ 2 ^ 63
  · -- the last row before the wrap
    have hpos : 0 < elems := by
      apply Nat.pos_of_ne_zero
      rintro rfl
      omega
    have hsplit := Nat.div_add_mod' (2 ^ 64 - 1) elems
    have hmod := Nat.mod_lt (2 ^ 64 - 1) hpos
    have hlt : (2 ^ 64 - 1) / elems * elems < 2 ^ 64 := by omega
    refine ⟨(2 ^ 64 - 1) / elems, ?_, ?_⟩
    · apply Nat.lt_of_mul_lt_mul_right (a := elems)
      omega
    · rw [sizeMul_of_lt hlt]
      omega
  · have hrows : 1 < rows := by
      apply Nat.lt_of_mul_lt_mul_right (a := elems)
      omega
    refine ⟨1, hrows, ?_⟩
    rw [sizeMul_of_lt (by omega)]
    omega

/-- Sum and difference of two `std::size_t` or `std::uint64_t` values. -/
def sizeAdd (a b : Nat) : Nat := (a + b) % 2 ^ 64
def sizeSub (a b : Nat) : Nat := (a + (2 ^ 64 - b % 2 ^ 64)) % 2 ^ 64

/-- A counter that wraps counts modulo `2 ^ 64`. -/
theorem sizeAdd_mod (a b : Nat) : sizeAdd (a % 2 ^ 64) b = (a + b) % 2 ^ 64 := by
  rw [sizeAdd]
  omega

theorem sizeSub_mod {a b : Nat} (h : b ≤ a) : sizeSub (a % 2 ^ 64) b = (a - b) % 2 ^ 64 := by
  rw [sizeSub]
  omega

/-- The half-open window `[start, stop)` of a sequence. -/
def slice (xs : List α) (start stop : Nat) : List α := (xs.drop start).take (stop - start)

/-- Row `i` of a flat sequence with `n` elements in each row. -/
def row (n : Nat) (xs : List α) (i : Nat) : List α := (xs.drop (i * n)).take n

/-- A row is the window between two consecutive multiples of the row length. -/
theorem slice_eq_row (n : Nat) (xs : List α) (i : Nat) :
    slice xs (i * n) ((i + 1) * n) = row n xs i := by
  rw [slice, row, Nat.succ_mul, Nat.add_sub_cancel_left]

/-- A window inside the first `k` elements only reads those. -/
theorem take_drop_congr {xs ys : List α} {k start n : Nat} (h : start + n ≤ k)
    (heq : xs.take k = ys.take k) : (xs.drop start).take n = (ys.drop start).take n := by
  have hwindow : ∀ zs : List α, (zs.drop start).take n = ((zs.take k).drop start).take n := by
    intro zs
    rw [List.drop_take, List.take_take, Nat.min_eq_left (by omega)]
  rw [hwindow xs, hwindow ys, heq]

/-- Rows inside the sequence are full. -/
theorem length_row {n k : Nat} {xs : List α} {i : Nat} (h : k * n ≤ xs.length) (hi : i < k) :
    (row n xs i).length = n := by
  have hle : (i + 1) * n ≤ k * n := Nat.mul_le_mul_right n hi
  rw [Nat.succ_mul] at hle
  rw [row, List.length_take, List.length_drop]
  omega

/-- Two sequences of `k` rows with the same rows are equal. -/
theorem ext_rows {n k : Nat} {xs ys : List α} (hx : xs.length = k * n) (hy : ys.length = k * n)
    (h : ∀ i < k, row n xs i = row n ys i) : xs = ys := by
  apply List.ext_getElem?
  intro j
  by_cases hj : j < k * n
  · have hn : 0 < n := Nat.pos_of_mul_pos_left (Nat.zero_lt_of_lt hj)
    have hread : ∀ zs : List α, zs[j]? = (row n zs (j / n))[j % n]? := by
      intro zs
      rw [row, List.getElem?_take_of_lt (Nat.mod_lt j hn), List.getElem?_drop,
        Nat.div_add_mod' j n]
    have hi : j / n < k := Nat.div_lt_of_lt_mul (by rwa [Nat.mul_comm])
    rw [hread xs, hread ys, h _ hi]
  · rw [List.getElem?_eq_none (by omega), List.getElem?_eq_none (by omega)]

/-- Elements appended after `k` full rows do not change those rows. -/
theorem row_append {n k : Nat} {xs ys : List α} {i : Nat} (h : k * n ≤ xs.length)
    (hi : i < k) : row n (xs ++ ys) i = row n xs i := by
  have hle : (i + 1) * n ≤ k * n := Nat.mul_le_mul_right n hi
  rw [Nat.succ_mul] at hle
  rw [row, row, List.drop_append_of_le_length (by omega),
    List.take_append_of_le_length (by rw [List.length_drop]; omega)]

/-- Truncating to `k` rows keeps each of them. -/
theorem row_take {n k : Nat} {xs : List α} {i : Nat} (hi : i < k) :
    row n (xs.take (k * n)) i = row n xs i := by
  have hle : (i + 1) * n ≤ k * n := Nat.mul_le_mul_right n hi
  rw [Nat.succ_mul] at hle
  rw [row, row, List.drop_take, List.take_take, Nat.min_eq_left (by omega)]

/-- Concatenating rows of one length and reading row `i` gives back the `i`th of them. -/
theorem row_flatten {n : Nat} {rs : List (List α)} (h : ∀ r ∈ rs, r.length = n) {i : Nat}
    {r : List α} (hr : rs[i]? = some r) : row n rs.flatten i = r := by
  induction rs generalizing i with
  | nil => simp at hr
  | cons a rs ih =>
    have ha : a.length = n := h a (by simp)
    cases i with
    | zero =>
      have he : a = r := by simpa using hr
      subst he
      rw [row, Nat.zero_mul, List.drop_zero, List.flatten_cons, List.take_left' ha]
    | succ i =>
      have hd : (a ++ rs.flatten).drop ((i + 1) * n) = rs.flatten.drop (i * n) := by
        rw [Nat.succ_mul, Nat.add_comm, ← List.drop_drop, List.drop_left' ha]
      rw [row, List.flatten_cons, hd]
      exact ih (fun x hx ↦ h x (by simp [hx])) (by simpa using hr)

/-- Rows of one length add up to a length that is a multiple of it. -/
theorem length_flatten_rows {n : Nat} {rs : List (List α)} (h : ∀ r ∈ rs, r.length = n) :
    rs.flatten.length = rs.length * n := by
  induction rs with
  | nil => simp
  | cons a rs ih =>
    rw [List.flatten_cons, List.length_append, ih fun x hx ↦ h x (by simp [hx]),
      h a (by simp), List.length_cons, Nat.succ_mul, Nat.add_comm]

/-- Copying `xs` over the start of a buffer. -/
def overwrite (buf xs : List α) : List α := xs ++ buf.drop xs.length

/-- Copying `xs` into a buffer from position `start` on. -/
def splice (buf : List α) (start : Nat) (xs : List α) : List α :=
  buf.take start ++ (xs ++ buf.drop (start + xs.length))

/-- A copy inside the buffer keeps its length. -/
theorem length_splice {buf xs : List α} {start : Nat} (h : start + xs.length ≤ buf.length) :
    (splice buf start xs).length = buf.length := by
  rw [splice, List.length_append, List.length_append, List.length_take, List.length_drop]
  omega

/-- After a copy inside the buffer, a position holds the copied element or what it held before. -/
theorem getElem?_splice {buf xs : List α} {start : Nat} (h : start + xs.length ≤ buf.length)
    (p : Nat) :
    (splice buf start xs)[p]? =
      if start ≤ p ∧ p < start + xs.length then xs[p - start]? else buf[p]? := by
  have htake : (buf.take start).length = start := by
    rw [List.length_take]
    omega
  rw [splice]
  by_cases hlow : p < start
  · rw [List.getElem?_append_left (by omega), List.getElem?_take_of_lt hlow, if_neg (by omega)]
  · rw [List.getElem?_append_right (by omega), htake]
    by_cases hhigh : p < start + xs.length
    · rw [List.getElem?_append_left (by omega), if_pos ⟨by omega, hhigh⟩]
    · rw [List.getElem?_append_right (by omega), List.getElem?_drop, if_neg (by omega)]
      congr 1
      omega

/-- A copy that fits keeps the buffer's length. -/
theorem length_overwrite {buf xs : List α} (h : xs.length ≤ buf.length) :
    (overwrite buf xs).length = buf.length := by
  rw [overwrite, List.length_append, List.length_drop]
  omega

/-- A copy of the buffer's length replaces all of it. -/
theorem overwrite_of_length_eq {buf xs : List α} (h : buf.length = xs.length) :
    overwrite buf xs = xs := by
  rw [overwrite, List.drop_of_length_le (Nat.le_of_eq h), List.append_nil]

/-- The front of a buffer is what was copied there. -/
theorem take_overwrite {buf xs : List α} {n : Nat} (h : n ≤ xs.length) :
    (overwrite buf xs).take n = xs.take n :=
  List.take_append_of_le_length h

/-- Position `p` holds the copied element, or what it held before. -/
theorem getElem?_overwrite (buf xs : List α) (p : Nat) :
    (overwrite buf xs)[p]? = xs[p]?.or buf[p]? := by
  rw [overwrite]
  by_cases h : p < xs.length
  · rw [List.getElem?_append_left h, List.getElem?_eq_getElem h, Option.some_or]
  · rw [List.getElem?_append_right (by omega), List.getElem?_drop,
      List.getElem?_eq_none (by omega : xs.length ≤ p), Option.none_or]
    congr 1
    omega

/-- The element that the last of several copies wrote to position `p`, if one did. -/
def lastWrite (ws : List (List α)) (p : Nat) : Option α :=
  ws.foldl (fun last w ↦ w[p]?.or last) none

/-- One more copy writes what it covers. -/
theorem lastWrite_snoc (ws : List (List α)) (w : List α) (p : Nat) :
    lastWrite (ws ++ [w]) p = w[p]?.or (lastWrite ws p) := by
  rw [lastWrite, List.foldl_append, List.foldl_cons, List.foldl_nil, lastWrite]

/-- After several copies a position holds what the last of them wrote there. -/
theorem getElem?_foldl_overwrite (ws : List (List α)) (buf : List α) (p : Nat) :
    (ws.foldl overwrite buf)[p]? = (lastWrite ws p).or buf[p]? := by
  induction ws using List.reverseRecOn with
  | nil => simp [lastWrite]
  | append_singleton ws w ih =>
    rw [List.foldl_append, List.foldl_cons, List.foldl_nil, getElem?_overwrite, ih,
      lastWrite_snoc, Option.or_assoc]

/-- A window holds `x` everywhere exactly when each of its positions does. -/
theorem take_drop_eq_replicate_iff {buf : List α} {a n : Nat} {x : α} :
    (buf.drop a).take n = List.replicate n x ↔
      ∀ p, a ≤ p → p < a + n → buf[p]? = some x := by
  constructor
  · intro heq p hp hlt
    have hget : ((buf.drop a).take n)[p - a]? = (List.replicate n x)[p - a]? := by rw [heq]
    rw [List.getElem?_take_of_lt (by omega), List.getElem?_drop, List.getElem?_replicate,
      if_pos (by omega)] at hget
    have hpos : a + (p - a) = p := by omega
    rw [hpos] at hget
    exact hget
  · intro hall
    apply List.ext_getElem?
    intro i
    rw [List.getElem?_replicate]
    by_cases hi : i < n
    · rw [if_pos hi, List.getElem?_take_of_lt hi, List.getElem?_drop]
      exact hall (a + i) (by omega) (by omega)
    · rw [if_neg hi]
      apply List.getElem?_eq_none
      rw [List.length_take]
      omega

/-- The flat sequence whose row `i` is `f` of row `i`, for the first `k` rows. -/
def mapRows (f : List α → List β) (n k : Nat) (xs : List α) : List β :=
  ((List.range k).map fun i ↦ f (row n xs i)).flatten

/-- A row-by-row map to rows of length `m` has `k * m` elements. -/
theorem length_mapRows {f : List α → List β} {m n k : Nat} {xs : List α}
    (hf : ∀ i < k, (f (row n xs i)).length = m) : (mapRows f n k xs).length = k * m := by
  rw [mapRows, length_flatten_rows (n := m), List.length_map, List.length_range]
  intro r hr
  obtain ⟨i, hi, rfl⟩ := List.mem_map.mp hr
  exact hf i (List.mem_range.mp hi)

/-- Row `i` of a row-by-row map is the image of row `i`. -/
theorem row_mapRows {f : List α → List β} {m n k : Nat} {xs : List α}
    (hf : ∀ i < k, (f (row n xs i)).length = m) {i : Nat} (hi : i < k) :
    row m (mapRows f n k xs) i = f (row n xs i) := by
  rw [mapRows]
  apply row_flatten
  · intro r hr
    obtain ⟨j, hj, rfl⟩ := List.mem_map.mp hr
    exact hf j (List.mem_range.mp hj)
  · simp [hi]

end InferenceServer.Base
