import Mathlib.Data.List.AList

/-!
# A map from keys to stacks

Library `Base`. Each key has a stack, empty until something is pushed. `items` lists all
elements under their keys; the lemmas say how it changes, up to order, when one stack does.
-/

namespace InferenceServer.Base

/-- A map from keys to stacks, with the top of a stack at the end of its list. -/
abbrev Stacks (κ α : Type) := AList fun _ : κ ↦ List α

namespace Stacks

variable {κ α : Type} [DecidableEq κ] {m : Stacks κ α} {k : κ}

/-- The stack of a key. -/
def get (m : Stacks κ α) (k : κ) : List α := (m.lookup k).getD []

/-- Replace the stack of a key. -/
def put (m : Stacks κ α) (k : κ) (xs : List α) : Stacks κ α := m.insert k xs

/-- The stacks of the other keys. -/
def without (m : Stacks κ α) (k : κ) : Stacks κ α := m.erase k

omit [DecidableEq κ] in
private theorem nodupKeys_clear (m : Stacks κ α) :
    (m.entries.map fun e ↦ (⟨e.1, []⟩ : Sigma fun _ : κ ↦ List α)).NodupKeys := by
  have hkeys : (m.entries.map fun e ↦ (⟨e.1, []⟩ : Sigma fun _ : κ ↦ List α)).keys =
      m.entries.keys := by
    rw [List.keys, List.map_map]
    rfl
  rw [List.nodupKeys_iff_pairwise, ← List.pairwise_map (R := (· ≠ ·))]
  change List.Nodup (List.keys _)
  rw [hkeys]
  exact m.nodupKeys

/-- Empty all stacks. -/
def clear (m : Stacks κ α) : Stacks κ α :=
  ⟨m.entries.map fun e ↦ ⟨e.1, []⟩, nodupKeys_clear m⟩

/-- All elements, each with its key. -/
def items (m : Stacks κ α) : List (κ × α) := m.entries.flatMap fun e ↦ e.2.map fun a ↦ (e.1, a)

@[simp] theorem get_put (m : Stacks κ α) (k : κ) (xs : List α) : (m.put k xs).get k = xs := by
  rw [get, put, AList.lookup_insert, Option.getD_some]

omit [DecidableEq κ] in
@[simp] theorem items_clear (m : Stacks κ α) : m.clear.items = [] := by
  rw [items, clear, List.flatMap_eq_nil_iff]
  intro e he
  obtain ⟨e', -, rfl⟩ := List.mem_map.mp he
  rfl

/-- An element is listed under the key of its stack. -/
theorem mem_items {a : α} : (k, a) ∈ m.items ↔ a ∈ m.get k := by
  simp only [items, List.mem_flatMap, List.mem_map, Prod.mk.injEq]
  constructor
  · rintro ⟨⟨k', xs⟩, he, x, hx, rfl, rfl⟩
    rw [get, AList.mem_lookup_iff.mpr he]
    exact hx
  · intro ha
    cases hl : m.lookup k with
    | none =>
      rw [get, hl] at ha
      cases ha
    | some xs =>
      rw [get, hl] at ha
      exact ⟨⟨k, xs⟩, AList.mem_lookup_iff.mp hl, a, ha, rfl, rfl⟩

/-- After a replacement: the new stack and what the other keys have. -/
theorem items_put (m : Stacks κ α) (k : κ) (xs : List α) :
    (m.put k xs).items = xs.map (fun a ↦ (k, a)) ++ (m.without k).items := by
  rw [items, put, AList.entries_insert, List.flatMap_cons]
  rfl

/-- The elements are those of one stack and those of the other keys. -/
theorem items_perm (m : Stacks κ α) (k : κ) :
    m.items.Perm ((m.get k).map (fun a ↦ (k, a)) ++ (m.without k).items) := by
  by_cases hk : k ∈ m.entries.keys
  · obtain ⟨xs, l₁, l₂, -, hl, herase⟩ := List.exists_of_kerase hk
    have hmem : (⟨k, xs⟩ : Sigma fun _ : κ ↦ List α) ∈ m.entries := by
      rw [hl]
      exact List.mem_append_right _ List.mem_cons_self
    have hget : m.get k = xs := by
      rw [get, AList.mem_lookup_iff.mpr hmem]
      rfl
    have hrest : (m.without k).entries = l₁ ++ l₂ := herase
    rw [items, items, hl, hget, hrest, List.flatMap_append, List.flatMap_append,
      List.flatMap_cons, ← List.append_assoc]
    exact (List.perm_append_comm.append_right _).trans (by rw [List.append_assoc])
  · have hget : m.get k = [] := by
      rw [get, AList.lookup_eq_none.mpr hk]
      rfl
    have hrest : (m.without k).entries = m.entries := List.kerase_of_notMem_keys hk
    rw [items, items, hget, hrest]
    exact .refl _

/-- Reading a stack through `operator[]` adds no element. -/
theorem items_touch (m : Stacks κ α) (k : κ) : (m.put k (m.get k)).items.Perm m.items := by
  rw [items_put]
  exact (items_perm m k).symm

/-- A push adds its element. -/
theorem items_push (m : Stacks κ α) (k : κ) (a : α) :
    (m.put k (m.get k ++ [a])).items.Perm ((k, a) :: m.items) := by
  rw [items_put, List.map_append, List.append_assoc]
  refine List.perm_middle.trans ?_
  exact (items_perm m k).symm.cons _

/-- A pop removes the top. -/
theorem items_pop {xs : List α} {a : α} (h : m.get k = xs ++ [a]) :
    m.items.Perm ((k, a) :: (m.put k xs).items) := by
  refine (items_perm m k).trans ?_
  rw [h, items_put, List.map_append, List.append_assoc]
  exact List.perm_middle

end Stacks
end InferenceServer.Base
