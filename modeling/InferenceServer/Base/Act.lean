import Mathlib.Data.List.Basic

/-!
# Stateful code that can throw

Library `Base`. An action reads and writes a state, may throw, and may leave the behaviour
the language defines. What was written before a throw stays written. `Spec P x Q E` says
that from a state in `P` the action is defined, and ends in `Q` or throws into `E`; `Ensures`
says the same of the outcomes that are defined. The rules follow the shape of the code.
-/

namespace InferenceServer.Base

/-- Code over a state `σ` that may throw an `ε`; no outcome means undefined behaviour. -/
abbrev Act (ε σ α : Type) := ExceptT ε (StateT σ Option) α

namespace Act

variable {ε σ α β : Type}

/-- What the action does from a state: its result, or what it throws, and the state after. -/
def outcome (x : Act ε σ α) (s : σ) : Option (Except ε α × σ) := StateT.run (ExceptT.run x) s

/-- The result, when the action returns one. -/
def value (x : Act ε σ α) (s : σ) : Option α :=
  match x.outcome s with
  | some (.ok a, _) => some a
  | _ => none

/-- Behaviour the language does not define. -/
def undefined : Act ε σ α := ExceptT.mk fun _ ↦ none

/-- A statement under a condition. -/
def runIf (c : Prop) [Decidable c] (x : Act ε σ Unit) : Act ε σ Unit := if c then x else pure ()

/-- A check: throws when the condition holds. -/
def throwIf (c : Prop) [Decidable c] (e : ε) : Act ε σ Unit := runIf c (throw e)

/-- An action on a part of the state. -/
def onPart {τ : Type} (part : τ → σ) (put : τ → σ → τ) (x : Act ε σ α) : Act ε τ α :=
  ExceptT.mk fun t ↦ (x.outcome (part t)).map fun r ↦ (r.1, put t r.2)

/-- Clean-up that runs on every way out, as destructors do. -/
def ensuring (x : Act ε σ α) (cleanUp : σ → σ) : Act ε σ α :=
  ExceptT.mk fun s ↦ (x.outcome s).map fun r ↦ (r.1, cleanUp r.2)

@[simp] theorem outcome_get (s : σ) : (get : Act ε σ σ).outcome s = some (.ok s, s) := rfl

@[simp] theorem outcome_modify (f : σ → σ) (s : σ) :
    (modify f : Act ε σ PUnit).outcome s = some (.ok ⟨⟩, f s) := rfl

theorem outcome_onPart {τ : Type} (part : τ → σ) (put : τ → σ → τ) (x : Act ε σ α) (t : τ) :
    (x.onPart part put).outcome t = (x.outcome (part t)).map fun r ↦ (r.1, put t r.2) := rfl

theorem outcome_ensuring (x : Act ε σ α) (cleanUp : σ → σ) (s : σ) :
    (x.ensuring cleanUp).outcome s = (x.outcome s).map fun r ↦ (r.1, cleanUp r.2) := rfl

/-- An action returns a value exactly when its outcome is one. -/
theorem value_eq_some {x : Act ε σ α} {s : σ} {a : α} :
    x.value s = some a ↔ ∃ t, x.outcome s = some (.ok a, t) := by
  unfold value
  split
  · next b t h => simp [h]
  · next h =>
    constructor
    · intro hc
      cases hc
    · rintro ⟨t, ht⟩
      exact absurd ht (h a t)

/-- A sequence goes on after a result and ends with a throw. -/
theorem outcome_bind (x : Act ε σ α) (f : α → Act ε σ β) (s : σ) :
    (x >>= f).outcome s =
      (x.outcome s).bind fun r ↦
        match r with
        | (.ok a, t) => (f a).outcome t
        | (.error e, t) => some (.error e, t) := by
  change (StateT.run (ExceptT.run x) s).bind (fun r ↦ ExceptT.bindCont f r.1 r.2) = _
  unfold outcome
  congr 1
  funext r
  obtain ⟨r, t⟩ := r
  cases r <;> rfl

/-- A handler sees the throw, and the state as it was left. -/
theorem outcome_tryCatch (x : Act ε σ α) (f : ε → Act ε σ α) (s : σ) :
    (tryCatch x f).outcome s =
      (x.outcome s).bind fun r ↦
        match r with
        | (.ok a, t) => some (.ok a, t)
        | (.error e, t) => (f e).outcome t := by
  change (StateT.run (ExceptT.run x) s).bind _ = _
  unfold outcome
  congr 1
  funext r
  obtain ⟨r, t⟩ := r
  cases r <;> rfl

/-- After a result the sequence is its continuation. -/
theorem outcome_bind_ok {x : Act ε σ α} {f : α → Act ε σ β} {s t : σ} {a : α}
    (h : x.outcome s = some (.ok a, t)) : (x >>= f).outcome s = (f a).outcome t := by
  rw [outcome_bind, h]
  rfl

/-- A throw ends the sequence. -/
theorem outcome_bind_error {x : Act ε σ α} {f : α → Act ε σ β} {s t : σ} {e : ε}
    (h : x.outcome s = some (.error e, t)) : (x >>= f).outcome s = some (.error e, t) := by
  rw [outcome_bind, h]
  rfl

/-- A loop whose body never throws is undefined when its body is, at some element. -/
theorem outcome_foldlM_undefined {f : β → α → Act ε σ β} {xs : List α} {x : α} (hx : x ∈ xs)
    (hundefined : ∀ b s, (f b x).outcome s = none)
    (hthrow : ∀ b y s e t, (f b y).outcome s ≠ some (.error e, t)) (b : β) (s : σ) :
    (xs.foldlM f b).outcome s = none := by
  induction xs generalizing b s with
  | nil => cases hx
  | cons y ys ih =>
    rw [List.foldlM_cons, outcome_bind]
    rcases List.mem_cons.mp hx with rfl | hx
    · rw [hundefined b s]
      rfl
    · cases hy : (f b y).outcome s with
      | none => rfl
      | some r =>
        obtain ⟨r, t⟩ := r
        cases r with
        | ok b' => exact ih hx b' t
        | error e => exact absurd hy (hthrow b y s e t)

/-- From every state in `P` the action is defined and ends in `Q`, or throws into `E`. -/
def Spec (P : σ → Prop) (x : Act ε σ α) (Q : α → σ → Prop) (E : ε → σ → Prop) : Prop :=
  ∀ s, P s → ∃ r t, x.outcome s = some (r, t) ∧
    match r with
    | .ok a => Q a t
    | .error e => E e t

variable {P P' : σ → Prop} {Q : α → σ → Prop} {R : β → σ → Prop} {E E' : ε → σ → Prop}

theorem Spec.pure {a : α} (h : ∀ s, P s → Q a s) : Spec P (pure a : Act ε σ α) Q E :=
  fun s hs ↦ ⟨.ok a, s, rfl, h s hs⟩

theorem Spec.throw {e : ε} (h : ∀ s, P s → E e s) : Spec P (throw e : Act ε σ α) Q E :=
  fun s hs ↦ ⟨.error e, s, rfl, h s hs⟩

theorem Spec.modify {f : σ → σ} {Q : PUnit → σ → Prop} (h : ∀ s, P s → Q ⟨⟩ (f s)) :
    Spec P (modify f : Act ε σ PUnit) Q E :=
  fun s hs ↦ ⟨.ok ⟨⟩, f s, rfl, h s hs⟩

/-- Sequencing: the continuation starts from what the first part ends in. -/
theorem Spec.bind {x : Act ε σ α} {f : α → Act ε σ β} (hx : Spec P x Q E)
    (hf : ∀ a, Spec (Q a) (f a) R E) : Spec P (x >>= f) R E := by
  intro s hs
  obtain ⟨r, t, hr, hpost⟩ := hx s hs
  cases r with
  | ok a =>
    rw [outcome_bind_ok hr]
    exact hf a t hpost
  | error e => exact ⟨.error e, t, outcome_bind_error hr, hpost⟩

/-- Sequencing where part of what the first part ensures does not concern the state. -/
theorem Spec.bind_of {x : Act ε σ α} {f : α → Act ε σ β} {φ : α → Prop}
    (hx : Spec P x (fun a s ↦ P' s ∧ φ a) E) (hf : ∀ a, φ a → Spec P' (f a) R E) :
    Spec P (x >>= f) R E :=
  Spec.bind hx fun a s hs ↦ hf a hs.2 s hs.1

/-- Reading the state: the continuation knows what it read. -/
theorem Spec.get_bind {f : σ → Act ε σ β} (hf : ∀ s, P s → Spec P (f s) R E) :
    Spec P (MonadState.get >>= f) R E :=
  fun s hs ↦ hf s hs s hs

/-- Handling: the handler starts from what the body throws into. -/
theorem Spec.tryCatch {H : ε → σ → Prop} {x : Act ε σ α} {f : ε → Act ε σ α}
    (hx : Spec P x Q H) (hf : ∀ e, Spec (H e) (f e) Q E) : Spec P (tryCatch x f) Q E := by
  intro s hs
  obtain ⟨r, t, hr, hpost⟩ := hx s hs
  rw [outcome_tryCatch, hr]
  cases r with
  | ok a => exact ⟨.ok a, t, rfl, hpost⟩
  | error e => exact hf e t hpost

/-- Strengthening what it starts from and weakening what it ends in. -/
theorem Spec.conseq {x : Act ε σ α} {Q' : α → σ → Prop} (hx : Spec P x Q E)
    (hp : ∀ s, P' s → P s) (hq : ∀ a s, Q a s → Q' a s) (he : ∀ e s, E e s → E' e s) :
    Spec P' x Q' E' := by
  intro s hs
  obtain ⟨r, t, hr, hpost⟩ := hx s (hp s hs)
  refine ⟨r, t, hr, ?_⟩
  cases r with
  | ok a => exact hq a t hpost
  | error e => exact he e t hpost

/-- An action that cannot throw and only ends with `a` returns `a`. -/
theorem Spec.value_eq {x : Act ε σ α} {a : α} (hx : Spec P x (fun b _ ↦ b = a) fun _ _ ↦ False)
    {s : σ} (hs : P s) : x.value s = some a := by
  obtain ⟨r, t, hr, hpost⟩ := hx s hs
  rw [value_eq_some]
  cases r with
  | ok b =>
    cases hpost
    exact ⟨t, hr⟩
  | error e => exact hpost.elim

/-- What an action returns satisfies its postcondition. -/
theorem Spec.of_value {x : Act ε σ α} (hx : Spec P x Q E) {s : σ} (hs : P s) {a : α}
    (ha : x.value s = some a) : ∃ t, Q a t := by
  obtain ⟨r, t, hr, hpost⟩ := hx s hs
  obtain ⟨t', ht'⟩ := value_eq_some.mp ha
  rw [hr] at ht'
  cases ht'
  exact ⟨t, hpost⟩

/-- A branch on a condition that does not depend on the state. -/
theorem Spec.ite {c : Prop} [Decidable c] {x y : Act ε σ α} (hx : c → Spec P x Q E)
    (hy : ¬c → Spec P y Q E) : Spec P (if c then x else y) Q E := by
  split
  · next h => exact hx h
  · next h => exact hy h

theorem Spec.runIf {c : Prop} [Decidable c] {x : Act ε σ Unit} (hx : c → Spec P x (fun _ ↦ P') E)
    (hy : ¬c → ∀ s, P s → P' s) : Spec P (runIf c x) (fun _ ↦ P') E := by
  apply Spec.ite hx
  intro hc
  exact Spec.pure (hy hc)

/-- What follows a check knows that it passed. -/
theorem Spec.throwIf {c : Prop} [Decidable c] {e : ε} (h : c → ∀ s, P s → E e s) :
    Spec P (throwIf c e : Act ε σ Unit) (fun _ s ↦ P s ∧ ¬c) E := by
  apply Spec.ite
  · intro hc
    exact Spec.throw (h hc)
  · intro hc
    exact Spec.pure fun s hs ↦ ⟨hs, hc⟩

/-! ### Outcomes that are defined -/

/-- From a state in `P` every defined outcome is in `Q`, or a throw into `E`. -/
def Ensures (P : σ → Prop) (x : Act ε σ α) (Q : α → σ → Prop) (E : ε → σ → Prop) : Prop :=
  ∀ s r t, P s → x.outcome s = some (r, t) →
    match r with
    | .ok a => Q a t
    | .error e => E e t

theorem Spec.ensures {x : Act ε σ α} (hx : Spec P x Q E) : Ensures P x Q E := by
  intro s r t hs hr
  obtain ⟨r', t', hr', hpost⟩ := hx s hs
  rw [hr] at hr'
  cases hr'
  exact hpost

theorem Ensures.undefined : Ensures P (undefined : Act ε σ α) Q E :=
  fun _ _ _ _ h ↦ nomatch h

theorem Ensures.pure {a : α} (h : ∀ s, P s → Q a s) : Ensures P (pure a : Act ε σ α) Q E :=
  (Spec.pure h).ensures

theorem Ensures.throw {e : ε} (h : ∀ s, P s → E e s) : Ensures P (throw e : Act ε σ α) Q E :=
  (Spec.throw h).ensures

theorem Ensures.modify {f : σ → σ} {Q : PUnit → σ → Prop} (h : ∀ s, P s → Q ⟨⟩ (f s)) :
    Ensures P (modify f : Act ε σ PUnit) Q E :=
  (Spec.modify h).ensures

theorem Ensures.throwIf {c : Prop} [Decidable c] {e : ε} (h : c → ∀ s, P s → E e s) :
    Ensures P (throwIf c e : Act ε σ Unit) (fun _ s ↦ P s ∧ ¬c) E :=
  (Spec.throwIf h).ensures

theorem Ensures.bind {x : Act ε σ α} {f : α → Act ε σ β} (hx : Ensures P x Q E)
    (hf : ∀ a, Ensures (Q a) (f a) R E) : Ensures P (x >>= f) R E := by
  intro s r t hs hr
  rw [outcome_bind, Option.bind_eq_some_iff] at hr
  obtain ⟨⟨r', m⟩, hm, hr⟩ := hr
  have hpost := hx s r' m hs hm
  cases r' with
  | ok a => exact hf a m r t hpost hr
  | error e =>
    cases hr
    exact hpost

theorem Ensures.bind_of {x : Act ε σ α} {f : α → Act ε σ β} {φ : α → Prop}
    (hx : Ensures P x (fun a s ↦ P' s ∧ φ a) E) (hf : ∀ a, φ a → Ensures P' (f a) R E) :
    Ensures P (x >>= f) R E :=
  Ensures.bind hx fun a s r t hs ↦ hf a hs.2 s r t hs.1

theorem Ensures.get_bind {f : σ → Act ε σ β} (hf : ∀ s, P s → Ensures P (f s) R E) :
    Ensures P (MonadState.get >>= f) R E :=
  fun s r t hs hr ↦ hf s hs s r t hs hr

/-- A quantity of the starting state may be named and carried along. -/
theorem Ensures.of_start {γ : Type} {x : Act ε σ α} (g : σ → γ)
    (h : ∀ d, Ensures (fun s ↦ P s ∧ g s = d) x Q E) : Ensures P x Q E :=
  fun s r t hs hr ↦ h (g s) s r t ⟨hs, rfl⟩ hr

theorem Ensures.tryCatch {H : ε → σ → Prop} {x : Act ε σ α} {f : ε → Act ε σ α}
    (hx : Ensures P x Q H) (hf : ∀ e, Ensures (H e) (f e) Q E) :
    Ensures P (tryCatch x f) Q E := by
  intro s r t hs hr
  rw [outcome_tryCatch, Option.bind_eq_some_iff] at hr
  obtain ⟨⟨r', m⟩, hm, hr⟩ := hr
  have hpost := hx s r' m hs hm
  cases r' with
  | ok a =>
    cases hr
    exact hpost
  | error e => exact hf e m r t hpost hr

theorem Ensures.conseq {x : Act ε σ α} {Q' : α → σ → Prop} (hx : Ensures P x Q E)
    (hp : ∀ s, P' s → P s) (hq : ∀ a s, Q a s → Q' a s) (he : ∀ e s, E e s → E' e s) :
    Ensures P' x Q' E' := by
  intro s r t hs hr
  have hpost := hx s r t (hp s hs) hr
  cases r with
  | ok a => exact hq a t hpost
  | error e => exact he e t hpost

theorem Ensures.ite {c : Prop} [Decidable c] {x y : Act ε σ α} (hx : c → Ensures P x Q E)
    (hy : ¬c → Ensures P y Q E) : Ensures P (if c then x else y) Q E := by
  split
  · next h => exact hx h
  · next h => exact hy h

theorem Ensures.runIf {c : Prop} [Decidable c] {x : Act ε σ Unit}
    (hx : c → Ensures P x (fun _ ↦ P') E) (hy : ¬c → ∀ s, P s → P' s) :
    Ensures P (runIf c x) (fun _ ↦ P') E := by
  apply Ensures.ite hx
  intro hc
  exact Ensures.pure (hy hc)

/-! ### Code without a state -/

/-- The action does what `y` does, which has no state. -/
def Mirrors (x : Act ε σ α) (y : Act ε Unit α) : Prop :=
  ∀ s, x.outcome s = (y.outcome ()).map fun r ↦ (r.1, s)

theorem Mirrors.pure (a : α) : Mirrors (pure a : Act ε σ α) (Pure.pure a) := fun _ ↦ rfl

theorem Mirrors.throw (e : ε) :
    Mirrors (throw e : Act ε σ α) (MonadExcept.throw e) := fun _ ↦ rfl

theorem Mirrors.undefined : Mirrors (undefined : Act ε σ α) undefined := fun _ ↦ rfl

theorem Mirrors.bind {x : Act ε σ α} {y : Act ε Unit α} {f : α → Act ε σ β} {g : α → Act ε Unit β}
    (hx : Mirrors x y) (hf : ∀ a, Mirrors (f a) (g a)) : Mirrors (x >>= f) (y >>= g) := by
  intro s
  rw [outcome_bind, outcome_bind, hx s]
  cases y.outcome () with
  | none => rfl
  | some r =>
    obtain ⟨r, _⟩ := r
    cases r with
    | ok a => exact hf a s
    | error e => rfl

theorem Mirrors.ite {c : Prop} [Decidable c] {x x' : Act ε σ α} {y y' : Act ε Unit α}
    (hx : c → Mirrors x y) (hx' : ¬c → Mirrors x' y') :
    Mirrors (if c then x else x') (if c then y else y') := by
  by_cases hc : c
  · rw [if_pos hc, if_pos hc]
    exact hx hc
  · rw [if_neg hc, if_neg hc]
    exact hx' hc

theorem Mirrors.foldlM {γ : Type} {f : β → γ → Act ε σ β} {g : β → γ → Act ε Unit β}
    (h : ∀ b x, Mirrors (f b x) (g b x)) (xs : List γ) (b : β) :
    Mirrors (xs.foldlM f b) (xs.foldlM g b) := by
  induction xs generalizing b with
  | nil => exact Mirrors.pure b
  | cons x xs ih =>
    rw [List.foldlM_cons, List.foldlM_cons]
    exact Mirrors.bind (h b x) ih

end Act
end InferenceServer.Base
