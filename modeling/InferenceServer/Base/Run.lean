import Mathlib.Data.List.Induction

/-!
# Partial step functions and their runs

Library `Base`. A system is a partial step function: `step s e = none` when the
event `e` is not enabled in `s`. A run is the finite list of its events, so a
result can speak of how a state was reached as well as of the state.
-/

namespace InferenceServer.Base

universe u v

variable {σ : Type u} {ε : Type v} {step : σ → ε → Option σ}

/-- The state after the events `es`, in order, when each of them was enabled. -/
def exec (step : σ → ε → Option σ) : σ → List ε → Option σ
  | s, [] => some s
  | s, e :: es => (step s e).bind fun t ↦ exec step t es

/-- The empty run stays where it is. -/
@[simp] theorem exec_nil (s : σ) : exec step s [] = some s := rfl

/-- A run begins with one enabled event. -/
theorem exec_cons_eq_some {s t : σ} {e : ε} {es : List ε} :
    exec step s (e :: es) = some t ↔ ∃ m, step s e = some m ∧ exec step m es = some t := by
  simp only [exec, Option.bind_eq_some_iff]

/-- The second part of a run starts where the first part ends. -/
theorem exec_append (s : σ) (es fs : List ε) :
    exec step s (es ++ fs) = (exec step s es).bind fun m ↦ exec step m fs := by
  induction es generalizing s with
  | nil => rfl
  | cons e es ih =>
    rw [List.cons_append, exec, exec, Option.bind_assoc]
    exact congrArg _ (funext ih)

/-- Runs compose. -/
theorem exec_append_eq_some {s t : σ} {es fs : List ε} :
    exec step s (es ++ fs) = some t ↔
      ∃ m, exec step s es = some m ∧ exec step m fs = some t := by
  rw [exec_append, Option.bind_eq_some_iff]

/-- A run ends with one enabled event. -/
theorem exec_snoc_eq_some {s t : σ} {es : List ε} {e : ε} :
    exec step s (es ++ [e]) = some t ↔ ∃ m, exec step s es = some m ∧ step m e = some t := by
  simp only [exec_append_eq_some, exec_cons_eq_some, exec_nil, Option.some.injEq,
    exists_eq_right]

/-- Induction over a run: a property of the events so far and the state they reach
holds of every run when it holds of the empty one and every enabled event keeps it. -/
theorem exec_induction {P : List ε → σ → Prop} {s₀ : σ} (h₀ : P [] s₀)
    (hs : ∀ es s e t, exec step s₀ es = some s → P es s → step s e = some t →
      P (es ++ [e]) t) {es : List ε} {s : σ} (h : exec step s₀ es = some s) : P es s := by
  induction es using List.reverseRecOn generalizing s with
  | nil =>
    cases h
    exact h₀
  | append_singleton es e ih =>
    obtain ⟨m, hm, he⟩ := exec_snoc_eq_some.mp h
    exact hs es m e s hm (ih hm) he

/-- A property of states that every enabled event keeps is kept by every run. -/
theorem exec_preserves {P : σ → Prop} (hs : ∀ s e t, P s → step s e = some t → P t)
    {s t : σ} {es : List ε} (h : exec step s es = some t) (hp : P s) : P t :=
  exec_induction (P := fun _ s ↦ P s) hp (fun _ s e t _ h ht ↦ hs s e t h ht) h

/-- Two systems that answer every event in step run alike. -/
theorem exec_lockstep {σ' : Type*} {step' : σ' → ε → Option σ'} {Rel : σ → σ' → Prop}
    (hs : ∀ s s' e t, Rel s s' → step s e = some t → ∃ t', step' s' e = some t' ∧ Rel t t')
    {s t : σ} {s' : σ'} {es : List ε} (h : exec step s es = some t) (hrel : Rel s s') :
    ∃ t', exec step' s' es = some t' ∧ Rel t t' := by
  induction es generalizing s s' with
  | nil =>
    cases h
    exact ⟨s', rfl, hrel⟩
  | cons e es ih =>
    obtain ⟨m, hm, ht⟩ := exec_cons_eq_some.mp h
    obtain ⟨m', hm', hrel'⟩ := hs s s' e m hrel hm
    obtain ⟨t', ht', hend⟩ := ih ht hrel'
    exact ⟨t', exec_cons_eq_some.mpr ⟨m', hm', ht'⟩, hend⟩

/-- Every step of the run meets the condition `C`. -/
def Along (step : σ → ε → Option σ) (C : σ → ε → Prop) : σ → List ε → Prop
  | _, [] => True
  | s, e :: es => C s e ∧ ∀ t, step s e = some t → Along step C t es

instance decidableAlong {C : σ → ε → Prop} [∀ s e, Decidable (C s e)] :
    (s : σ) → (es : List ε) → Decidable (Along step C s es)
  | _, [] => .isTrue trivial
  | s, e :: es =>
    match h : step s e with
    | none => decidable_of_iff (C s e) (by simp [Along, h])
    | some t =>
      have : Decidable (Along step C t es) := decidableAlong t es
      decidable_of_iff (C s e ∧ Along step C t es) (by simp [Along, h])

/-- Events that meet the condition in every state make such a run. -/
theorem along_of_forall {C : σ → ε → Prop} {es : List ε} (h : ∀ e ∈ es, ∀ s, C s e) (s : σ) :
    Along step C s es := by
  induction es generalizing s with
  | nil => trivial
  | cons e es ih =>
    refine ⟨h e List.mem_cons_self s, ?_⟩
    intro t _
    exact ih (fun x hx ↦ h x (List.mem_cons_of_mem e hx)) t

/-- Such runs compose. -/
theorem along_append {C : σ → ε → Prop} {s : σ} {es fs : List ε} (h : Along step C s es)
    (hf : ∀ m, exec step s es = some m → Along step C m fs) : Along step C s (es ++ fs) := by
  induction es generalizing s with
  | nil => exact hf s rfl
  | cons e es ih =>
    refine ⟨h.1, ?_⟩
    intro t ht
    apply ih (h.2 t ht)
    intro m hm
    exact hf m (exec_cons_eq_some.mpr ⟨t, ht, hm⟩)

/-- One more step has to meet the condition where the run ended. -/
theorem along_snoc {C : σ → ε → Prop} {s m : σ} {es : List ε} (h : exec step s es = some m)
    (e : ε) : Along step C s (es ++ [e]) ↔ Along step C s es ∧ C m e := by
  induction es generalizing s with
  | nil =>
    cases h
    exact ⟨fun hc ↦ ⟨trivial, hc.1⟩, fun hc ↦ ⟨hc.2, fun _ _ ↦ trivial⟩⟩
  | cons e' es ih =>
    obtain ⟨t, ht, hm⟩ := exec_cons_eq_some.mp h
    constructor
    · rintro ⟨hfirst, hrest⟩
      obtain ⟨hes, he⟩ := (ih hm).mp (hrest t ht)
      refine ⟨⟨hfirst, ?_⟩, he⟩
      intro t' ht'
      cases ht.symm.trans ht'
      exact hes
    · rintro ⟨⟨hfirst, hrest⟩, he⟩
      refine ⟨hfirst, ?_⟩
      intro t' ht'
      cases ht.symm.trans ht'
      exact (ih hm).mpr ⟨hrest t ht, he⟩

/-- A property that the steps meeting a condition keep is kept by a run whose steps meet it. -/
theorem exec_preserves_along {P : σ → Prop} {C : σ → ε → Prop}
    (hs : ∀ s e t, C s e → P s → step s e = some t → P t) {s t : σ} {es : List ε}
    (h : exec step s es = some t) (hc : Along step C s es) (hp : P s) : P t := by
  induction es generalizing s with
  | nil =>
    cases h
    exact hp
  | cons e es ih =>
    obtain ⟨m, hm, ht⟩ := exec_cons_eq_some.mp h
    exact ih ht (hc.2 m hm) (hs s e m hc.1 hp hm)

/-- What the steps of a run show, in order. -/
def marks {μ : Type*} (step : σ → ε → Option σ) (mark : σ → ε → Option μ) : σ → List ε → List μ
  | _, [] => []
  | s, e :: es => (mark s e).toList ++ ((step s e).elim [] fun t ↦ marks step mark t es)

/-- One more step shows at the end. -/
theorem marks_snoc {μ : Type*} {mark : σ → ε → Option μ} {s m : σ} {es : List ε}
    (h : exec step s es = some m) (e : ε) :
    marks step mark s (es ++ [e]) = marks step mark s es ++ (mark m e).toList := by
  induction es generalizing s with
  | nil =>
    cases h
    have hnil : (step m e).elim [] (fun t ↦ marks step mark t []) = [] := by
      cases step m e <;> rfl
    rw [List.nil_append, marks, marks, List.nil_append, hnil, List.append_nil]
  | cons e' es ih =>
    obtain ⟨t, ht, hm⟩ := exec_cons_eq_some.mp h
    rw [List.cons_append, marks, marks, ht, Option.elim_some, Option.elim_some, ih hm,
      List.append_assoc]

/-- The largest value of `f` along the run. -/
def peak (step : σ → ε → Option σ) (f : σ → Nat) : σ → List ε → Nat
  | s, [] => f s
  | s, e :: es => max (f s) ((step s e).elim 0 fun t ↦ peak step f t es)

theorem le_peak (f : σ → Nat) (s : σ) (es : List ε) : f s ≤ peak step f s es := by
  cases es with
  | nil => exact Nat.le_refl _
  | cons e es => exact Nat.le_max_left _ _

/-- The peak of a run is that of its two parts. -/
theorem peak_append {f : σ → Nat} {s m : σ} {es : List ε} (h : exec step s es = some m)
    (fs : List ε) :
    peak step f s (es ++ fs) = max (peak step f s es) (peak step f m fs) := by
  induction es generalizing s with
  | nil =>
    cases h
    rw [List.nil_append, peak, Nat.max_eq_right (le_peak f m fs)]
  | cons e es ih =>
    obtain ⟨n, hn, hm⟩ := exec_cons_eq_some.mp h
    rw [List.cons_append, peak, peak, hn, Option.elim_some, Option.elim_some, ih hm, Nat.max_assoc]

/-- One more step can raise it. -/
theorem peak_snoc {f : σ → Nat} {s m t : σ} {es : List ε} {e : ε} (h : exec step s es = some m)
    (ht : step m e = some t) : peak step f s (es ++ [e]) = max (peak step f s es) (f t) := by
  have hlast : f m ≤ peak step f s es := by
    have hsplit := peak_append (f := f) h []
    rw [List.append_nil, peak] at hsplit
    omega
  rw [peak_append h, peak, ht, Option.elim_some, peak, ← Nat.max_assoc, Nat.max_eq_left hlast]

/-- When the marked events lower a measure and no event raises it, a run has at most as
many marked events as the measure it starts with. `I` is what the states of the run
satisfy and `Q` what its events do. -/
theorem exec_countP_le {I : σ → Prop} {Q : ε → Prop} {μ : σ → Nat} {p : ε → Bool}
    (hi : ∀ s e t, Q e → I s → step s e = some t → I t)
    (hμ : ∀ s e t, Q e → I s → step s e = some t → μ t + (if p e then 1 else 0) ≤ μ s)
    {s t : σ} {es : List ε} (h : exec step s es = some t) (hq : ∀ e ∈ es, Q e) (hs : I s) :
    μ t + es.countP p ≤ μ s := by
  induction es generalizing s with
  | nil =>
    cases h
    simp
  | cons e es ih =>
    obtain ⟨m, hm, ht⟩ := exec_cons_eq_some.mp h
    have he := hq e (by simp)
    have hrest := ih ht (fun x hx ↦ hq x (by simp [hx])) (hi s e m he hs hm)
    have hone := hμ s e m he hs hm
    rw [List.countP_cons]
    omega

/-- The same when some events raise the measure, each by at most `c`. -/
theorem exec_countP_le_add {I : σ → Prop} {μ : σ → Nat} {p q : ε → Bool} {c : Nat}
    (hi : ∀ s e t, I s → step s e = some t → I t)
    (hμ : ∀ s e t, I s → step s e = some t →
      μ t + (if p e then 1 else 0) ≤ μ s + (if q e then c else 0))
    {s t : σ} {es : List ε} (h : exec step s es = some t) (hs : I s) :
    μ t + es.countP p ≤ μ s + c * es.countP q := by
  induction es generalizing s with
  | nil =>
    cases h
    simp
  | cons e es ih =>
    obtain ⟨m, hm, hrest⟩ := exec_cons_eq_some.mp h
    have hone := hμ s e m hs hm
    have htail := ih hrest (hi s e m hs hm)
    have hgain : c * (if q e then 1 else 0) = if q e then c else 0 := by split <;> simp
    rw [List.countP_cons, List.countP_cons, Nat.mul_add, hgain]
    omega

/-- The same until something is done for good: as long as it is not, every step counts. -/
theorem exec_countP_le_until {I D : σ → Prop} {μ : σ → Nat} {p : ε → Bool}
    (hi : ∀ s e t, I s → step s e = some t → I t)
    (hd : ∀ s e t, I s → D s → step s e = some t → D t)
    (hμ : ∀ s e t, I s → ¬ D s → step s e = some t → μ t + (if p e then 1 else 0) ≤ μ s)
    {s t : σ} {es : List ε} (h : exec step s es = some t) (hs : I s) (ht : ¬ D t) :
    μ t + es.countP p ≤ μ s := by
  induction es generalizing s with
  | nil =>
    cases h
    simp
  | cons e es ih =>
    obtain ⟨m, hm, hrest⟩ := exec_cons_eq_some.mp h
    have him : I m := hi s e m hs hm
    have hnot : ¬ D s := by
      intro hds
      have hend := exec_preserves (P := fun u ↦ I u ∧ D u)
        (fun u f v hu hv ↦ ⟨hi u f v hu.1 hv, hd u f v hu.1 hu.2 hv⟩) h ⟨hs, hds⟩
      exact ht hend.2
    have hone := hμ s e m hs hnot hm
    have htail := ih hrest him
    rw [List.countP_cons]
    omega

end InferenceServer.Base
