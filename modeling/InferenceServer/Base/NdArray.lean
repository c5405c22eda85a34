import InferenceServer.Base.Buffer

/-!
# Arrays with several axes

Library `Base`. An array is its shape and the element at each index; flattening lists the
elements with the last axis running fastest. A permutation of the axes permutes indices, and the
position of an index in the flat sequence is read off axis by axis.
-/

namespace InferenceServer.Base

universe u v w

/-- An array; only indices inside the shape matter. -/
structure NdArray (α : Type u) where
  shape : List Nat
  get : List Nat → α

namespace NdArray

variable {α : Type u} {β : Type v} {γ : Type w}

/-- The indices of a shape, the last axis running fastest. -/
def indices : List Nat → List (List Nat)
  | [] => [[]]
  | n :: ns => ((List.range n).map fun i ↦ (indices ns).map (i :: ·)).flatten

/-- A vector. -/
def ofList [Zero α] (xs : List α) : NdArray α := ⟨[xs.length], fun idx ↦ xs.getD (idx.headD 0) 0⟩

/-- An operation on every element. -/
def map (f : α → β) (a : NdArray α) : NdArray β := ⟨a.shape, fun idx ↦ f (a.get idx)⟩

/-- An operation with a vector that is broadcast along the last axis. -/
def broadcastLast (f : α → β → γ) (a : NdArray α) (v : NdArray β) : NdArray γ :=
  ⟨a.shape, fun idx ↦ f (a.get idx) (v.get [idx.getLastD 0])⟩

/-- Axis `i` of the result is axis `axes[i]`. -/
def transpose (axes : List Nat) (a : NdArray α) : NdArray α :=
  ⟨axes.map fun axis ↦ a.shape.getD axis 0,
    fun idx ↦ a.get ((List.range axes.length).map fun axis ↦ idx.getD (axes.idxOf axis) 0)⟩

/-- The elements as one flat sequence. -/
def ravel (a : NdArray α) : List α := (indices a.shape).map a.get

theorem length_indices (ns : List Nat) : (indices ns).length = ns.prod := by
  induction ns with
  | nil => rfl
  | cons n ns ih =>
    have hrows : ∀ r ∈ (List.range n).map fun i ↦ (indices ns).map (i :: ·),
        r.length = ns.prod := by
      intro r hr
      obtain ⟨i, -, rfl⟩ := List.mem_map.mp hr
      rw [List.length_map, ih]
    rw [indices, length_flatten_rows hrows, List.length_map, List.length_range, List.prod_cons]

/-- The indices that start with `i` are a row of all of them. -/
theorem row_indices {n i : Nat} (hi : i < n) (ns : List Nat) :
    row ns.prod (indices (n :: ns)) i = (indices ns).map (i :: ·) := by
  rw [indices]
  apply row_flatten
  · intro r hr
    obtain ⟨i, -, rfl⟩ := List.mem_map.mp hr
    rw [List.length_map, length_indices]
  · rw [List.getElem?_map, List.getElem?_range hi]
    rfl

/-- The flat position of an index, axis by axis. -/
theorem getElem?_indices {n i r : Nat} {ns : List Nat} (hi : i < n) (hr : r < ns.prod) :
    (indices (n :: ns))[i * ns.prod + r]? = (indices ns)[r]?.map (i :: ·) := by
  have hrow := congrArg (·[r]?) (row_indices hi ns)
  rw [row, List.getElem?_take_of_lt hr, List.getElem?_drop, List.getElem?_map] at hrow
  exact hrow

/-- The index at a flat position. -/
theorem exists_getElem?_indices {n j : Nat} {ns : List Nat} (hj : j < n * ns.prod) :
    ∃ rest, (indices ns)[j % ns.prod]? = some rest ∧
      (indices (n :: ns))[j]? = some (j / ns.prod :: rest) := by
  have hpos : 0 < ns.prod := Nat.pos_of_mul_pos_left (Nat.zero_lt_of_lt hj)
  have hi : j / ns.prod < n := Nat.div_lt_of_lt_mul (by rwa [Nat.mul_comm])
  have hr := Nat.mod_lt j hpos
  have hlt : j % ns.prod < (indices ns).length := by rwa [length_indices]
  have hget := getElem?_indices hi hr
  rw [Nat.div_add_mod' j ns.prod, List.getElem?_eq_getElem hlt] at hget
  exact ⟨_, List.getElem?_eq_getElem hlt, hget⟩

@[simp] theorem length_ravel (a : NdArray α) : a.ravel.length = a.shape.prod := by
  rw [ravel, List.length_map, length_indices]

end NdArray
end InferenceServer.Base
