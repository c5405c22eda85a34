import Mathlib.Data.List.Basic

/-!
# A cell with write-back

Library `Base`. A cell whose latest values may not have reached the medium yet: `put` sets it and
`sync` makes the value it has permanent. A loss of power leaves the permanent value or one of
those put since. `Follows` numbers the values by the puts that led to them.
-/

namespace InferenceServer.Base

/-- The value on the medium, and those put since, the latest one last. -/
structure Writeback (α : Type) where
  permanent : α
  pending : List α := []

namespace Writeback

variable {α : Type} {w : Writeback α} {a : α} {n : Nat} {R R' : Nat → α → Prop}

/-- What a loss of power can leave. -/
def survivors (w : Writeback α) : List α := w.permanent :: w.pending

def put (w : Writeback α) (a : α) : Writeback α := { w with pending := w.pending ++ [a] }

/-- The latest value. -/
def current (w : Writeback α) : α := w.pending.getLastD w.permanent

def sync (w : Writeback α) : Writeback α := { permanent := w.current }

/-- How many of `n` puts a loss of power cannot undo. -/
def settled (w : Writeback α) (n : Nat) : Nat := n - w.pending.length

/-- `R k a` tells that `a` is the value after `k` puts; the cell has the last values of `n`. -/
structure Follows (R : Nat → α → Prop) (n : Nat) (w : Writeback α) : Prop where
  bound : w.pending.length ≤ n
  values : ∀ j a, w.survivors[j]? = some a → R (w.settled n + j) a

theorem Follows.start (h : R 0 a) : Follows R 0 { permanent := a } where
  bound := Nat.le_refl 0
  values j b hj := by
    cases j with
    | zero =>
      cases hj
      exact h
    | succ j => cases hj

theorem settled_put (h : w.pending.length ≤ n) (a : α) :
    (w.put a).settled (n + 1) = w.settled n := by
  simp only [settled, put, List.length_append, List.length_singleton]
  omega

theorem settled_le (w : Writeback α) (n : Nat) : w.settled n ≤ n := Nat.sub_le _ _

theorem Follows.mono (h : Follows R n w) (hR : ∀ k ≤ n, ∀ a ∈ w.survivors, R k a → R' k a) :
    Follows R' n w where
  bound := h.bound
  values j a hj := by
    have hlt : j < w.survivors.length := (List.getElem?_eq_some_iff.mp hj).1
    have hbound := h.bound
    rw [survivors, List.length_cons] at hlt
    apply hR _ _ a (List.mem_of_getElem? hj) (h.values j a hj)
    unfold settled
    omega

theorem Follows.put (h : Follows R n w) (ha : R (n + 1) a) : Follows R (n + 1) (w.put a) where
  bound := by
    rw [Writeback.put, List.length_append, List.length_singleton]
    exact Nat.succ_le_succ h.bound
  values j b hj := by
    have hbound := h.bound
    rw [settled_put hbound]
    change (w.permanent :: (w.pending ++ [a]))[j]? = some b at hj
    rw [← List.cons_append, List.getElem?_append] at hj
    split at hj
    · exact h.values j b hj
    · next hlt =>
      rw [List.getElem?_singleton] at hj
      split at hj
      · next hlast =>
        cases hj
        rw [List.length_cons] at hlt hlast
        rwa [show w.settled n + j = n + 1 by unfold settled; omega]
      · cases hj

/-- The latest value comes from all puts. -/
theorem Follows.current (h : Follows R n w) : R n w.current := by
  have hlast : w.survivors[w.pending.length]? = some w.current := by
    rw [survivors, Writeback.current, List.getLastD_eq_getLast?, List.getLast?_eq_getElem?]
    cases w.pending with
    | nil => rfl
    | cons b bs => simp
  have hR := h.values _ _ hlast
  rwa [settled, Nat.sub_add_cancel h.bound] at hR

theorem Follows.sync (h : Follows R n w) : Follows R n w.sync where
  bound := Nat.zero_le n
  values j a hj := by
    cases j with
    | zero =>
      cases hj
      exact h.current
    | succ j => cases hj

/-- A survivor is the value after some of the puts, the settled ones among them. -/
theorem Follows.survivor (h : Follows R n w) (ha : a ∈ w.survivors) :
    ∃ k, w.settled n ≤ k ∧ k ≤ n ∧ R k a := by
  obtain ⟨j, hj⟩ := List.mem_iff_getElem?.mp ha
  have hlt : j < w.survivors.length := (List.getElem?_eq_some_iff.mp hj).1
  have hbound := h.bound
  rw [survivors, List.length_cons] at hlt
  refine ⟨w.settled n + j, Nat.le_add_right _ _, ?_, h.values j a hj⟩
  unfold settled
  omega

end Writeback
end InferenceServer.Base
