import Mathlib.Algebra.Order.Ring.Int
import Mathlib.Data.List.Basic
import Mathlib.Data.List.Perm.Subperm

/-!
# A system of many components

Library `Base`. The components stand in a list; a step changes the entry at one place. The
lemmas say what that does to a property of all of them and to the number of those with a
property.
-/

namespace InferenceServer.Base

variable {α : Type} {xs : List α} {i : Nat} {a b : α}

/-- A property of all components is kept when the changed one has it. -/
theorem forall_mem_set {P : α → Prop} (h : ∀ x ∈ xs, P x) (hb : P b) : ∀ x ∈ xs.set i b, P x := by
  intro x hx
  rcases List.mem_or_eq_of_mem_set hx with hx | rfl
  · exact h x hx
  · exact hb

/-- A property of all components is kept when the added one has it. -/
theorem forall_mem_snoc {P : α → Prop} (h : ∀ x ∈ xs, P x) (hb : P b) : ∀ x ∈ xs ++ [b], P x := by
  intro x hx
  rcases List.mem_append.mp hx with hx | hx
  · exact h x hx
  · cases List.mem_singleton.mp hx
    exact hb

/-- What all components have after a change they had before, if the changed one had it. -/
theorem forall_mem_of_set {P : α → Prop} (hi : xs[i]? = some a) (h : ∀ x ∈ xs.set i b, P x)
    (hab : P b → P a) : ∀ x ∈ xs, P x := by
  obtain ⟨hlt, -⟩ := List.getElem?_eq_some_iff.mp hi
  intro x hx
  obtain ⟨j, hj⟩ := List.mem_iff_getElem?.mp hx
  by_cases hij : i = j
  · subst hij
    rw [hi, Option.some.injEq] at hj
    exact hj ▸ hab (h b (List.mem_set hlt b))
  · rw [← List.getElem?_set_ne hij (a := b)] at hj
    exact h x (List.mem_of_getElem? hj)

/-- After a change each place holds what it held before, or the changed component. -/
theorem getElem?_set_cases {j : Nat} {x : α} (h : (xs.set i b)[j]? = some x) :
    (j = i ∧ x = b) ∨ (j ≠ i ∧ xs[j]? = some x) := by
  rw [List.getElem?_set] at h
  split at h
  · next hij =>
    split at h
    · cases h
      exact .inl ⟨hij.symm, rfl⟩
    · cases h
  · next hij => exact .inr ⟨fun hji ↦ hij hji.symm, h⟩

/-- A place keeps its component when others follow. -/
theorem getElem?_of_prefix {ys : List α} (h : xs <+: ys) (hi : xs[i]? = some a) :
    ys[i]? = some a := by
  obtain ⟨zs, rfl⟩ := h
  rw [List.getElem?_append_left (List.getElem?_eq_some_iff.mp hi).1]
  exact hi

/-- A log that may have got one entry more. -/
theorem prefix_noted (xs : List α) (a : α) (noted : Bool) :
    xs <+: if noted then xs ++ [a] else xs := by
  cases noted with
  | true => exact List.prefix_append _ _
  | false => exact List.prefix_refl _

/-- After an arrival each place holds what it held before, or the new component. -/
theorem getElem?_snoc_cases {x : α} (h : (xs ++ [b])[i]? = some x) :
    xs[i]? = some x ∨ (i = xs.length ∧ x = b) := by
  rw [List.getElem?_append] at h
  split at h
  · exact .inl h
  · next hlt =>
    rw [List.getElem?_singleton] at h
    split at h
    · cases h
      exact .inr ⟨by omega, rfl⟩
    · cases h

/-- The count moves as the changed component starts or stops to count. -/
theorem countP_set_eq {p : α → Bool} (h : xs[i]? = some a) :
    ((xs.set i b).countP p : Int) = xs.countP p + ((p b).toNat - (p a).toNat) := by
  obtain ⟨hi, ha⟩ := List.getElem?_eq_some_iff.mp h
  have hle : (p a).toNat ≤ xs.countP p := by
    cases hpa : p a with
    | false => exact Nat.zero_le _
    | true => exact List.countP_pos_iff.mpr ⟨a, List.mem_of_getElem? h, hpa⟩
  have hite (c : Bool) : (if c = true then 1 else 0) = c.toNat := by cases c <;> rfl
  rw [List.countP_set hi, ha, hite, hite]
  omega

/-- Counting components is counting their places. -/
theorem countP_eq_length_places (xs : List α) (p : α → Bool) :
    xs.countP p = ((List.range xs.length).filter fun i ↦ xs[i]?.any p).length := by
  have hplaces : (List.range xs.length).map (xs[·]?) = xs.map some := by
    apply List.ext_getElem
    · rw [List.length_map, List.length_map, List.length_range]
    · intro i hi hi'
      rw [List.length_map] at hi'
      rw [List.getElem_map, List.getElem_map, List.getElem_range, List.getElem?_eq_getElem hi']
  have hmap := congrArg (List.countP fun x ↦ x.any p) hplaces
  rw [List.countP_map, List.countP_map] at hmap
  exact hmap.symm.trans List.countP_eq_length_filter

/-- Components of a kind are no more than the places where they can be. -/
theorem countP_le_length {p : α → Bool} {is : List Nat}
    (h : ∀ i x, xs[i]? = some x → p x = true → i ∈ is) : xs.countP p ≤ is.length := by
  have hsub : ((List.range xs.length).filter fun i ↦ xs[i]?.any p) ⊆ is := by
    intro i hi
    obtain ⟨-, hany⟩ := List.mem_filter.mp hi
    cases hx : xs[i]? with
    | none =>
      rw [hx] at hany
      cases hany
    | some x =>
      rw [hx] at hany
      exact h i x hx hany
  rw [countP_eq_length_places]
  exact (List.subperm_of_subset (List.nodup_range.filter _) hsub).length_le

/-- What is read off the components is unchanged when the changed one reads the same. -/
theorem filterMap_set_eq {β : Type} {f : α → Option β} (h : xs[i]? = some a) (hf : f b = f a) :
    (xs.set i b).filterMap f = xs.filterMap f := by
  induction xs generalizing i with
  | nil => rfl
  | cons x xs ih =>
    cases i with
    | zero =>
      cases h
      rw [List.set_cons_zero, List.filterMap_cons, List.filterMap_cons, hf]
    | succ i =>
      rw [List.getElem?_cons_succ] at h
      rw [List.set_cons_succ, List.filterMap_cons, List.filterMap_cons, ih h]

/-- What is read off the components, when one of them changes. -/
theorem filterMap_set_perm {β : Type} {f : α → Option β} (h : xs[i]? = some a) :
    ((f a).toList ++ (xs.set i b).filterMap f).Perm ((f b).toList ++ xs.filterMap f) := by
  have hcons (x : α) (ys : List α) : (x :: ys).filterMap f = (f x).toList ++ ys.filterMap f := by
    rw [List.filterMap_cons]
    cases f x <;> rfl
  induction xs generalizing i with
  | nil => cases h
  | cons x xs ih =>
    cases i with
    | zero =>
      cases h
      rw [List.set_cons_zero, hcons, hcons]
      exact List.perm_append_comm_assoc _ _ _
    | succ i =>
      rw [List.getElem?_cons_succ] at h
      rw [List.set_cons_succ, hcons, hcons]
      exact (List.perm_append_comm_assoc _ _ _).trans
        (((ih h).append_left _).trans (List.perm_append_comm_assoc _ _ _))

/-- What the components weigh together, when one of them changes. -/
theorem sum_map_set {f : α → Nat} (h : xs[i]? = some a) :
    ((xs.set i b).map f).sum + f a = (xs.map f).sum + f b := by
  induction xs generalizing i with
  | nil => cases h
  | cons x xs ih =>
    cases i with
    | zero =>
      cases h
      simp only [List.set_cons_zero, List.map_cons, List.sum_cons]
      omega
    | succ i =>
      rw [List.getElem?_cons_succ] at h
      have hrest := ih h
      simp only [List.set_cons_succ, List.map_cons, List.sum_cons]
      omega

/-- What all components count together is there for one of them. -/
theorem countP_eq_zero_apply {p : α → Bool} (h : xs.countP p = 0) {x : α} (hx : x ∈ xs) :
    p x = false :=
  Bool.eq_false_iff.mpr (List.countP_eq_zero.mp h x hx)

end InferenceServer.Base
