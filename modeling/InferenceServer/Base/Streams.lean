import Mathlib.Data.List.Basic

/-!
# Work queued on streams

Library `Base`. A stream is a first-in first-out queue of operations on one memory. Queueing an
operation does nothing yet; it takes effect when it completes, which the head of any stream may
do at any time. As long as one stream only has work in flight, the memory that work leads to
does not depend on when it completes.
-/

namespace InferenceServer.Base

/-- The operations that have not completed, stream by stream, and the memory they work on. -/
structure Streams (ω μ : Type) where
  queues : List (List ω)
  memory : μ

namespace Streams

variable {ω μ : Type} {run : ω → μ → μ} {s : Streams ω μ} {k : Nat} {m : μ}

/-- What is queued on stream `k`. -/
def queue (s : Streams ω μ) (k : Nat) : List ω := s.queues[k]?.getD []

/-- Everything in flight. -/
def pending (s : Streams ω μ) : List ω := s.queues.flatten

/-- The head of stream `k` completes, if there is one. -/
def advance (run : ω → μ → μ) (s : Streams ω μ) (k : Nat) : Streams ω μ :=
  match s.queue k with
  | [] => s
  | op :: rest => ⟨s.queues.set k rest, run op s.memory⟩

/-- Heads complete on the streams `ks`, one after the other. -/
def progress (run : ω → μ → μ) (s : Streams ω μ) (ks : List Nat) : Streams ω μ :=
  ks.foldl (advance run) s

/-- One more operation on stream `k`. -/
def enqueue (s : Streams ω μ) (k : Nat) (op : ω) : Streams ω μ :=
  { s with queues := s.queues.set k (s.queue k ++ [op]) }

/-- Everything on stream `k` completes. -/
def drain (run : ω → μ → μ) (s : Streams ω μ) (k : Nat) : Streams ω μ :=
  ⟨s.queues.set k [], (s.queue k).foldl (fun m op ↦ run op m) s.memory⟩

/-- Nothing is in flight. -/
def Quiet (s : Streams ω μ) : Prop := ∀ j, s.queue j = []

/-- Only stream `k` has work in flight, and that work leads to the memory `m`. -/
structure Settles (run : ω → μ → μ) (k : Nat) (m : μ) (s : Streams ω μ) : Prop where
  others : ∀ j, j ≠ k → s.queue j = []
  settled : (s.queue k).foldl (fun m op ↦ run op m) s.memory = m

/-! ### Queues -/

theorem queue_set (qs : List (List ω)) (m : μ) (q : List ω) (j : Nat) :
    (⟨qs.set k q, m⟩ : Streams ω μ).queue j =
      if j = k ∧ k < qs.length then q else (⟨qs, m⟩ : Streams ω μ).queue j := by
  unfold queue
  by_cases hj : j = k
  · subst hj
    by_cases hlt : j < qs.length
    · simp [hlt]
    · simp [hlt]
  · simp [hj, Ne.symm hj]

/-- A stream with something on it is one of the streams. -/
theorem lt_of_queue_ne_nil (h : s.queue k ≠ []) : k < s.queues.length := by
  by_contra hge
  apply h
  rw [queue, List.getElem?_eq_none (Nat.not_lt.mp hge), Option.getD_none]

theorem mem_pending {op : ω} : op ∈ s.pending ↔ ∃ j, op ∈ s.queue j := by
  rw [pending, List.mem_flatten]
  constructor
  · rintro ⟨q, hq, hop⟩
    obtain ⟨j, hj⟩ := List.mem_iff_getElem?.mp hq
    refine ⟨j, ?_⟩
    rw [queue, hj]
    exact hop
  · rintro ⟨j, hop⟩
    have hlt := lt_of_queue_ne_nil (List.ne_nil_of_mem hop)
    refine ⟨s.queues[j], List.getElem_mem hlt, ?_⟩
    rwa [queue, List.getElem?_eq_getElem hlt] at hop

/-- Quiet streams have nothing in flight. -/
theorem Quiet.pending_eq (h : s.Quiet) : s.pending = [] := by
  rw [List.eq_nil_iff_forall_not_mem]
  intro op hop
  obtain ⟨j, hj⟩ := mem_pending.mp hop
  rw [h j] at hj
  exact List.not_mem_nil hj

/-- With nothing in flight nothing completes. -/
theorem Quiet.progress (h : s.Quiet) (ks : List Nat) : s.progress run ks = s := by
  induction ks with
  | nil => rfl
  | cons j ks ih =>
    have hstep : s.advance run j = s := by rw [advance, h j]
    rw [Streams.progress, List.foldl_cons, hstep]
    exact ih

@[simp] theorem length_enqueue (op : ω) : (s.enqueue k op).queues.length = s.queues.length :=
  List.length_set

@[simp] theorem length_drain : (s.drain run k).queues.length = s.queues.length :=
  List.length_set

theorem length_advance : (s.advance run k).queues.length = s.queues.length := by
  unfold advance
  split
  · rfl
  · exact List.length_set

@[simp] theorem length_progress (ks : List Nat) :
    (s.progress run ks).queues.length = s.queues.length := by
  induction ks generalizing s with
  | nil => rfl
  | cons j ks ih =>
    rw [progress, List.foldl_cons]
    exact ih.trans length_advance

theorem mem_pending_enqueue (op : ω) (hk : k < s.queues.length) :
    op ∈ (s.enqueue k op).pending := by
  refine mem_pending.mpr ⟨k, ?_⟩
  rw [enqueue, queue_set, if_pos ⟨rfl, hk⟩]
  exact List.mem_concat_self

/-- What is in flight stays in flight while more is queued. -/
theorem pending_subset_enqueue (op : ω) : s.pending ⊆ (s.enqueue k op).pending := by
  intro x hx
  obtain ⟨j, hj⟩ := mem_pending.mp hx
  refine mem_pending.mpr ⟨j, ?_⟩
  rw [enqueue, queue_set]
  split
  · next h =>
    rw [h.1] at hj
    exact List.mem_append_left _ hj
  · exact hj

/-! ### Settling -/

theorem Quiet.settles (h : s.Quiet) (run : ω → μ → μ) (k : Nat) : s.Settles run k s.memory where
  others := fun j _ ↦ h j
  settled := by rw [h k, List.foldl_nil]

theorem Settles.advance (h : s.Settles run k m) (j : Nat) : (s.advance run j).Settles run k m := by
  unfold Streams.advance
  split
  · exact h
  · next op rest hq =>
    have hj : j = k := by
      by_contra hne
      rw [h.others j hne] at hq
      cases hq
    subst hj
    have hlt : j < s.queues.length := lt_of_queue_ne_nil (by rw [hq]; exact List.cons_ne_nil _ _)
    constructor
    · intro i hi
      rw [queue_set, if_neg (fun hc ↦ hi hc.1)]
      exact h.others i hi
    · have hset := h.settled
      rw [hq, List.foldl_cons] at hset
      rw [queue_set, if_pos ⟨rfl, hlt⟩]
      exact hset

/-- Whatever completes meanwhile, the work still leads to the same memory. -/
theorem Settles.progress (h : s.Settles run k m) (ks : List Nat) :
    (s.progress run ks).Settles run k m := by
  induction ks generalizing s with
  | nil => exact h
  | cons j ks ih =>
    rw [Streams.progress, List.foldl_cons]
    exact ih (h.advance j)

theorem Settles.enqueue (h : s.Settles run k m) (hk : k < s.queues.length) (op : ω) :
    (s.enqueue k op).Settles run k (run op m) where
  others := by
    intro j hj
    rw [Streams.enqueue, queue_set, if_neg (fun hc ↦ hj hc.1)]
    exact h.others j hj
  settled := by
    rw [Streams.enqueue, queue_set, if_pos ⟨rfl, hk⟩, List.foldl_append]
    change run op ((s.queue k).foldl _ s.memory) = _
    rw [h.settled]

/-- Once the only busy stream is drained nothing is in flight and the work is done. -/
theorem Settles.drain (h : s.Settles run k m) :
    (s.drain run k).Quiet ∧ (s.drain run k).memory = m := by
  refine ⟨?_, h.settled⟩
  intro j
  rw [Streams.drain, queue_set]
  split
  · rfl
  · next hn =>
    by_cases hj : j = k
    · subst hj
      have hge : ¬j < s.queues.length := fun hlt ↦ hn ⟨rfl, hlt⟩
      by_contra hne
      exact hge (lt_of_queue_ne_nil hne)
    · exact h.others j hj

end Streams
end InferenceServer.Base
