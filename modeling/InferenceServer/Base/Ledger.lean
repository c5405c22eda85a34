import Mathlib.Algebra.BigOperators.Group.Multiset.Basic
import Mathlib.Data.Multiset.UnionInter
import InferenceServer.Base.Run

/-!
# A ledger of lent resources

Library `Base`. Resources are made, lent, given back, kept for reuse and discarded. The ledger
has the resources in each state as multisets; its books balance when what is lent, kept and gone
is what was made. When something new is made only if nothing of its kind is kept, and nothing is
discarded, the number made is the peak of the number lent, kind by kind.
-/

namespace InferenceServer.Base

universe u v w

/-- Where the resources made so far are. -/
@[ext]
structure Ledger (α : Type u) where
  lent : Multiset α
  kept : Multiset α
  gone : Multiset α
  made : Multiset α

namespace Ledger

variable {α : Type u} {κ : Type v} {γ : Type w} {L M : Ledger α} {a : α}

/-- Nothing was made yet. -/
def empty : Ledger α := ⟨0, 0, 0, 0⟩

/-- One movement of the books. A new resource has a key that none in circulation has, and a kind of
which none is kept. -/
inductive Step (key : α → κ) (kind : α → γ) (L M : Ledger α) : Prop where
  | idle (h : M = L)
  | reuse (a : α) (hkept : L.kept = a ::ₘ M.kept) (hlent : M.lent = a ::ₘ L.lent)
    (hgone : M.gone = L.gone) (hmade : M.made = L.made)
  | make (a : α) (hkey : key a ∉ (L.lent + L.kept).map key) (hkind : kind a ∉ L.kept.map kind)
    (hlent : M.lent = a ::ₘ L.lent) (hkept : M.kept = L.kept) (hgone : M.gone = L.gone)
    (hmade : M.made = a ::ₘ L.made)
  | giveBack (a : α) (hlent : L.lent = a ::ₘ M.lent) (hkept : M.kept = a ::ₘ L.kept)
    (hgone : M.gone = L.gone) (hmade : M.made = L.made)
  | discard (hlent : M.lent = L.lent) (hkept : M.kept = 0) (hgone : M.gone = L.gone + L.kept)
    (hmade : M.made = L.made)

/-- Every resource made is in exactly one place, and those in circulation have distinct keys. -/
structure Balanced (key : α → κ) (L : Ledger α) : Prop where
  total : L.lent + L.kept + L.gone = L.made
  distinct : ((L.lent + L.kept).map key).Nodup

theorem balanced_empty (key : α → κ) : Balanced key (empty : Ledger α) := ⟨rfl, Multiset.nodup_zero⟩

/-- Moving a resource between the borrowers and the store. -/
private theorem Balanced.of_move {key : α → κ} (h : Balanced key L)
    (hsum : M.lent + M.kept = L.lent + L.kept) (hgone : M.gone = L.gone)
    (hmade : M.made = L.made) : Balanced key M := by
  refine ⟨?_, ?_⟩
  · rw [hsum, hgone, hmade, h.total]
  · rw [hsum]
    exact h.distinct

theorem Balanced.step {key : α → κ} {kind : α → γ} (h : Balanced key L)
    (hs : Step key kind L M) : Balanced key M := by
  cases hs with
  | idle heq => exact heq ▸ h
  | reuse a hkept hlent hgone hmade =>
    refine h.of_move ?_ hgone hmade
    rw [hlent, hkept, Multiset.cons_add, Multiset.add_cons]
  | giveBack a hlent hkept hgone hmade =>
    refine h.of_move ?_ hgone hmade
    rw [hlent, hkept, Multiset.cons_add, Multiset.add_cons]
  | make a hkey _ hlent hkept hgone hmade =>
    refine ⟨?_, ?_⟩
    · rw [hlent, hkept, hgone, hmade, Multiset.cons_add, Multiset.cons_add, h.total]
    · rw [hlent, hkept, Multiset.cons_add, Multiset.map_cons]
      exact Multiset.nodup_cons.mpr ⟨hkey, h.distinct⟩
  | discard hlent hkept hgone hmade =>
    refine ⟨?_, ?_⟩
    · rw [hlent, hkept, hgone, hmade, add_zero, add_comm L.gone, ← add_assoc, h.total]
    · rw [hlent, hkept, add_zero]
      have hdistinct := h.distinct
      rw [Multiset.map_add] at hdistinct
      exact (Multiset.nodup_add.mp hdistinct).1

/-! ### The peak -/

section Peak

variable [DecidableEq γ] {kind : α → γ} {g : γ}

/-- How many of a kind are lent, and how many were made. -/
def lentOf (kind : α → γ) (g : γ) (L : Ledger α) : Nat := (L.lent.map kind).count g
def madeOf (kind : α → γ) (g : γ) (L : Ledger α) : Nat := (L.made.map kind).count g

theorem Balanced.lentOf_le {key : α → κ} (h : Balanced key L) :
    L.lentOf kind g ≤ L.madeOf kind g := by
  rw [madeOf, ← h.total, Multiset.map_add, Multiset.map_add, Multiset.count_add,
    Multiset.count_add, lentOf]
  omega

/-- A movement that discards nothing makes a new resource only at a new peak. -/
theorem Step.madeOf_eq {key : α → κ} (hb : Balanced key L) (hs : Step key kind L M)
    (hgone : M.gone = 0) : M.madeOf kind g = max (L.madeOf kind g) (M.lentOf kind g) := by
  have hle : M.lentOf kind g ≤ M.madeOf kind g := (hb.step hs).lentOf_le
  have hsame (hmade : M.made = L.made) :
      M.madeOf kind g = max (L.madeOf kind g) (M.lentOf kind g) := by
    rw [madeOf, hmade] at hle
    rw [madeOf, hmade, madeOf, Nat.max_eq_left hle]
  cases hs with
  | idle heq => exact hsame (by rw [heq])
  | reuse a hkept hlent hg hmade => exact hsame hmade
  | giveBack a hlent hkept hg hmade => exact hsame hmade
  | discard hlent hkept hg hmade => exact hsame hmade
  | make a hkey hkind hlent hkept hg hmade =>
    by_cases hag : kind a = g
    · -- nothing of the kind is kept or gone, so all that was made is lent
      subst hag
      have hall : M.lentOf kind (kind a) = M.madeOf kind (kind a) := by
        have hnone : (L.kept.map kind).count (kind a) = 0 := Multiset.count_eq_zero.mpr hkind
        have htotal := hb.total
        rw [← hg, hgone, add_zero] at htotal
        rw [lentOf, madeOf, hmade, ← htotal, hlent, Multiset.map_cons, Multiset.map_cons,
          Multiset.count_cons_self, Multiset.count_cons_self, Multiset.map_add,
          Multiset.count_add, hnone, add_zero]
      have hgrow : L.madeOf kind (kind a) ≤ M.madeOf kind (kind a) := by
        rw [madeOf, madeOf, hmade]
        exact Multiset.count_le_of_le _ (Multiset.map_le_map (Multiset.le_cons_self _ _))
      rw [hall, Nat.max_eq_right hgrow]
    · have hother : M.madeOf kind g = L.madeOf kind g := by
        rw [madeOf, hmade, Multiset.map_cons, Multiset.count_cons_of_ne (Ne.symm hag), madeOf]
      rw [hother] at hle
      rw [hother, Nat.max_eq_left hle]

/-- A system whose steps move the books of a ledger and discard nothing has made, of each kind, the
most it ever lent. `I` is what the states of the run satisfy and `Q` what its events do. -/
theorem madeOf_eq_peak {σ : Type*} {ε : Type*} {step : σ → ε → Option σ} {books : σ → Ledger α}
    {key : α → κ} {I : σ → Prop} {Q : ε → Prop} {s₀ s : σ} {es : List ε}
    (hi : ∀ s e t, I s → step s e = some t → I t) (hb : ∀ s, I s → Balanced key (books s))
    (hs : ∀ s e t, Q e → I s → step s e = some t →
      Step key kind (books s) (books t) ∧ (books t).gone = (books s).gone)
    (h₀ : books s₀ = empty) (hi₀ : I s₀) (h : exec step s₀ es = some s) (hq : ∀ e ∈ es, Q e) :
    (books s).madeOf kind g = peak step (fun s ↦ (books s).lentOf kind g) s₀ es := by
  suffices hboth : (books s).gone = 0 ∧
      (books s).madeOf kind g = peak step (fun s ↦ (books s).lentOf kind g) s₀ es from hboth.2
  induction es using List.reverseRecOn generalizing s with
  | nil =>
    cases h
    rw [peak, h₀]
    exact ⟨rfl, rfl⟩
  | append_singleton es e ih =>
    obtain ⟨m, hm, ht⟩ := exec_snoc_eq_some.mp h
    obtain ⟨hgone, hmade⟩ := ih hm fun e' he' ↦ hq e' (List.mem_append_left _ he')
    have him : I m := exec_preserves hi hm hi₀
    obtain ⟨hmove, hsame⟩ := hs m e s (hq e (List.mem_append_right _ List.mem_cons_self)) him ht
    refine ⟨hsame.trans hgone, ?_⟩
    rw [peak_snoc hm ht, ← hmade]
    exact hmove.madeOf_eq (hb m him) (hsame.trans hgone)

end Peak

end Ledger
end InferenceServer.Base
