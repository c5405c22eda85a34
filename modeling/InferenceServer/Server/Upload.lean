import InferenceServer.Server.StackInvariant
import Mathlib.Data.List.Infix

/-!
# The body gate

Library `Server`. `python/cuda_db/server/admission.py:146–193,235–281`. What the upload of a body
meets is a list of messages, with the deadline where it strikes. The application is started on
exactly the lists that complete within the limit; the other lists are answered with 413, 408 or
nothing. An admitted application receives the bytes of the list, and after them only disconnects.
-/

namespace InferenceServer.Server

open InferenceServer.Base

variable {A S F : Type}

/-! ### Arrivals -/

/-- What the upload of a body meets. -/
inductive Arrival where
  | message (m : Message)
  | deadline
  deriving DecidableEq, Repr

namespace Arrival

/-- `message.get("body", b"")` of an `http.request`. -/
def chunk : Arrival → Bytes
  | .message (.request chunk _) => chunk
  | _ => []

/-- More is to come after it. -/
def continues : Arrival → Bool
  | .message (.request _ moreBody) => moreBody
  | .message .other => true
  | _ => false

end Arrival

/-- The bytes that arrived. -/
def uploaded (as : List Arrival) : Bytes := as.flatMap Arrival.chunk

theorem uploaded_snoc (as : List Arrival) (a : Arrival) :
    uploaded (as ++ [a]) = uploaded as ++ a.chunk := by
  unfold uploaded
  rw [List.flatMap_append, List.flatMap_singleton]

/-- Every running total is within the limit. -/
def WithinLimit (limit : Nat) (as : List Arrival) : Prop :=
  ∀ p, p <+: as → (uploaded p).length ≤ limit

theorem withinLimit_snoc {limit : Nat} {as : List Arrival} {a : Arrival} :
    WithinLimit limit (as ++ [a]) ↔
      WithinLimit limit as ∧ (uploaded as ++ a.chunk).length ≤ limit := by
  constructor
  · intro h
    refine ⟨fun p hp ↦ h p (hp.trans (List.prefix_append as [a])), ?_⟩
    rw [← uploaded_snoc]
    exact h _ (List.prefix_refl _)
  · rintro ⟨has, hlast⟩ p hp
    rcases List.prefix_concat_iff.mp hp with rfl | hp
    · rw [uploaded_snoc]
      exact hlast
    · exact has p hp

/-- Neither complete, nor refused, nor over. -/
structure Continuing (limit : Nat) (as : List Arrival) : Prop where
  continues : ∀ a ∈ as, a.continues = true
  within : WithinLimit limit as

theorem continuing_nil (limit : Nat) : Continuing limit [] where
  continues := by
    intro a ha
    cases ha
  within := by
    intro p hp
    rw [List.prefix_nil.mp hp]
    exact Nat.zero_le limit

theorem Continuing.snoc {limit : Nat} {as : List Arrival} (h : Continuing limit as) {a : Arrival}
    (ha : a.continues = true) (hlength : (uploaded as ++ a.chunk).length ≤ limit) :
    Continuing limit (as ++ [a]) where
  continues := by
    intro x hx
    rcases List.mem_append.mp hx with hold | hnew
    · exact h.continues x hold
    · rw [List.mem_singleton.mp hnew]
      exact ha
  within := withinLimit_snoc.mpr ⟨h.within, hlength⟩

/-- The messages up to and including the first `http.request` without `more_body`, with every
running total within the limit. -/
def Complete (limit : Nat) (as : List Arrival) : Prop :=
  ∃ pre chunk, as = pre ++ [Arrival.message (.request chunk false)] ∧
    (∀ a ∈ pre, a.continues = true) ∧ WithinLimit limit as

/-- The statuses with which a list is answered that does not complete: whichever of the size, the
deadline and a disconnect comes first. -/
inductive Answered (limit : Nat) : List Arrival → List Int → Prop
  | waiting {as : List Arrival} (h : Continuing limit as) : Answered limit as []
  | tooLarge {pre : List Arrival} (h : Continuing limit pre) (chunk : Bytes) (moreBody : Bool)
    (hlength : limit < (uploaded pre ++ chunk).length) :
    Answered limit (pre ++ [Arrival.message (.request chunk moreBody)]) [413]
  | expired {pre : List Arrival} (h : Continuing limit pre) :
    Answered limit (pre ++ [Arrival.deadline]) [408]
  | disconnected {pre : List Arrival} (h : Continuing limit pre) :
    Answered limit (pre ++ [Arrival.message .disconnect]) []

/-- A complete body is not answered by the gate. -/
theorem Complete.not_answered {limit : Nat} {as : List Arrival} (h : Complete limit as)
    {statuses : List Int} : ¬ Answered limit as statuses := by
  obtain ⟨pre, chunk, has, -, hwithin⟩ := h
  have hlast {xs : List Arrival} {x : Arrival} (hx : as = xs ++ [x]) :
      x = .message (.request chunk false) :=
    List.singleton_inj.mp (List.append_inj_right' (hx.symm.trans has) rfl)
  intro hans
  cases hans with
  | waiting hc =>
    have hcontinues := hc.continues (.message (.request chunk false)) (by rw [has]; simp)
    cases hcontinues
  | tooLarge hc chunk' moreBody hlength =>
    have hle := (withinLimit_snoc.mp hwithin).2
    exact absurd hle (Nat.not_le.mpr hlength)
  | expired hc => cases hlast rfl
  | disconnected hc => cases hlast rfl

/-! ### Statuses -/

/-- The status of a response start. -/
def Outgoing.status : Outgoing → Option Int
  | .start status _ => status
  | _ => none

namespace Boundary

variable {b : Boundary}

/-- The statuses of the responses that were started. -/
def statuses (b : Boundary) : List Int := b.sent.filterMap (·.2.status)

theorem statuses_trackedSend (b : Boundary) (requestId : String) (sender : Sender)
    (m : Outgoing) :
    (b.trackedSend requestId sender m).statuses = b.statuses ++ m.status.toList := by
  unfold statuses
  rw [sent_trackedSend, List.filterMap_append]
  cases m with
  | start status headers => cases status <;> rfl
  | body content moreBody => rfl
  | other type => rfl

/-- Nothing is answered after a return, or after a start. -/
theorem statuses_leave {c : AsgiCall} {now : Nat} {o : AppOutcome A}
    (h : o = .ok () ∨ b.responseStarted = true) : (b.leave c now o).1.statuses = b.statuses := by
  unfold Boundary.leave
  split
  · rfl
  · next exc =>
    rcases h with hok | hstarted
    · cases hok
    · split
      · next name _ =>
        have hfailed : (b.failed c.requestId name).responseStarted = true := hstarted
        rw [if_pos hfailed]
        rfl
      · rfl

theorem statuses_responded {c : AsgiCall} {now : Nat} {exc : Exc A} {rest : Option Bytes}
    {o : AppOutcome A} : (b.responded c now exc rest o).1.statuses = b.statuses := by
  unfold Boundary.responded
  split
  · rfl
  · split
    · next content =>
      show (b.trackedSend c.requestId .middleware (.body content false)).statuses = b.statuses
      rw [statuses_trackedSend]
      exact List.append_nil _
    · rfl

end Boundary

/-! ### The gate -/

namespace Stack

variable {cfg : Config F} {next : App A S} {init : S} {s t : Stack A S} {e : Event A}
  {as : List Arrival}

/-- What a step of the upload meets. -/
def arrival (s : Stack A S) : Event A → Option Arrival
  | .poll => if s.deadline ≤ s.now then some .deadline else none
  | .uploadTimeout => some .deadline
  | .received (.ok m) => some (.message m)
  | _ => none

/-- In `_read_body`. -/
structure Reading (cfg : Config F) (as : List Arrival) (s : Stack A S) : Prop where
  app : s.app = .idle
  watcher : s.watcher = .idle
  declared : DeclaredFits cfg s.call
  continuing : Continuing cfg.maxRequestBytes as
  body : s.body = uploaded as
  statuses : s.boundary.statuses = []

/-- The gate answered, and no application was started. -/
structure Refused (cfg : Config F) (as : List Arrival) (s : Stack A S) : Prop where
  app : s.app = .idle
  watcher : s.watcher = .idle
  answer : ¬ DeclaredFits cfg s.call ∧ as = [] ∧ s.boundary.statuses = [413] ∨
    DeclaredFits cfg s.call ∧ Answered cfg.maxRequestBytes as s.boundary.statuses

/-- The application was started. -/
structure Accepted (cfg : Config F) (as : List Arrival) (s : Stack A S) : Prop where
  app : s.app ≠ .idle
  declared : DeclaredFits cfg s.call
  complete : Complete cfg.maxRequestBytes as
  body : s.body = uploaded as

/-- A refused call on its way out: nothing more is answered. -/
def RefusedWith (cfg : Config F) (as : List Arrival) (s : Stack A S) (o : AppOutcome A) : Prop :=
  Refused cfg as s ∧ (o = .ok () ∨ s.boundary.responseStarted = true)

/-- What the position says of the upload. -/
def Gated (cfg : Config F) (as : List Arrival) (s : Stack A S) : Prop :=
  match s.position with
  | .entry => as = [] ∧ s.watcher = .idle ∧ s.body = [] ∧ s.boundary.statuses = []
  | .rejecting _ => as = []
  | .through => as = []
  | .uploadTop => Reading cfg as s
  | .uploadWait => Reading cfg as s
  | .racing => Accepted cfg as s
  | .settleWatcher => Accepted cfg as s
  | .settleApp _ => Accepted cfg as s
  | .expireWatcher => Accepted cfg as s
  | .refusing _ => Refused cfg as s ∧ s.boundary.responseStarted = true ∨ Accepted cfg as s
  | .unwindApp o => RefusedWith cfg as s o ∨ Accepted cfg as s
  | .unwindWatcher o => RefusedWith cfg as s o ∨ Accepted cfg as s
  | .finishing o => RefusedWith cfg as s o ∨ Accepted cfg as s
  | .exit _ => s.leased = false ∧ as = [] ∨ Refused cfg as s ∨ Accepted cfg as s

theorem gated_start (call : HttpCall) : Gated cfg [] (start call : Stack A S) :=
  ⟨rfl, rfl, rfl, rfl⟩

theorem Reading.congr (h : Reading cfg as s) (hcall : t.call = s.call) (happ : t.app = s.app)
    (hwatcher : t.watcher = s.watcher) (hbody : t.body = s.body)
    (hsent : t.boundary = s.boundary) : Reading cfg as t where
  app := happ.trans h.app
  watcher := hwatcher.trans h.watcher
  declared := by
    rw [hcall]
    exact h.declared
  continuing := h.continuing
  body := hbody.trans h.body
  statuses := by
    rw [hsent]
    exact h.statuses

theorem Refused.congr (h : Refused cfg as s) (hcall : t.call = s.call) (happ : t.app = s.app)
    (hwatcher : t.watcher = s.watcher) (hstatuses : t.boundary.statuses = s.boundary.statuses) :
    Refused cfg as t where
  app := happ.trans h.app
  watcher := hwatcher.trans h.watcher
  answer := by
    rw [hcall, hstatuses]
    exact h.answer

theorem Accepted.congr (h : Accepted cfg as s) (hcall : t.call = s.call)
    (happ : t.app ≠ .idle) (hbody : t.body = s.body) : Accepted cfg as t where
  app := happ
  declared := by
    rw [hcall]
    exact h.declared
  complete := h.complete
  body := hbody.trans h.body

/-- The position changes. -/
theorem Accepted.move (h : Accepted cfg as s) (hcall : t.call = s.call) (happ : t.app = s.app)
    (hbody : t.body = s.body) : Accepted cfg as t :=
  h.congr hcall (by rw [happ]; exact h.app) hbody

/-- The clock and the cancellation flags do not matter. -/
theorem Gated.congr (h : Gated cfg as s) (hp : t.position = s.position)
    (hlease : t.leased = s.leased) (hcall : t.call = s.call) (happ : t.app = s.app)
    (hwatcher : t.watcher = s.watcher) (hbody : t.body = s.body)
    (hsent : t.boundary = s.boundary) : Gated cfg as t := by
  have hreading (h : Reading cfg as s) : Reading cfg as t :=
    h.congr hcall happ hwatcher hbody hsent
  have hrefused (h : Refused cfg as s) : Refused cfg as t :=
    h.congr hcall happ hwatcher (by rw [hsent])
  have haccepted (h : Accepted cfg as s) : Accepted cfg as t := h.move hcall happ hbody
  have hwith {o : AppOutcome A} (h : RefusedWith cfg as s o ∨ Accepted cfg as s) :
      RefusedWith cfg as t o ∨ Accepted cfg as t := by
    unfold RefusedWith at h ⊢
    rw [hsent]
    exact h.imp (fun h ↦ ⟨hrefused h.1, h.2⟩) haccepted
  unfold Gated at h ⊢
  rw [hp, hlease, hwatcher, hbody, hsent]
  cases hpos : s.position with
  | entry =>
    rw [hpos] at h
    exact h
  | rejecting rest =>
    rw [hpos] at h
    exact h
  | through =>
    rw [hpos] at h
    exact h
  | uploadTop =>
    rw [hpos] at h
    exact hreading h
  | uploadWait =>
    rw [hpos] at h
    exact hreading h
  | refusing rest =>
    rw [hpos] at h
    exact h.imp (fun h ↦ ⟨hrefused h.1, h.2⟩) haccepted
  | unwindApp o =>
    rw [hpos] at h
    exact hwith h
  | unwindWatcher o =>
    rw [hpos] at h
    exact hwith h
  | finishing o =>
    rw [hpos] at h
    exact hwith h
  | exit x =>
    rw [hpos] at h
    exact h.imp id (fun h ↦ h.imp hrefused haccepted)
  | _ =>
    rw [hpos] at h
    exact haccepted h

/-- A step of the application or the watcher: one of them was started. -/
theorem Gated.frame (h : Gated cfg as s) (hplaced : s.Placed)
    (hbusy : s.app = .idle → s.watcher ≠ .idle) (happ : s.app ≠ .idle → t.app ≠ .idle)
    (hp : t.position = s.position) (hlease : t.leased = s.leased) (hcall : t.call = s.call)
    (hbody : t.body = s.body) : Gated cfg as t := by
  have hreading {P : Prop} (h : Reading cfg as s) : P := absurd h.watcher (hbusy h.app)
  have hrefused {P : Prop} (h : Refused cfg as s) : P := absurd h.watcher (hbusy h.app)
  have haccepted (h : Accepted cfg as s) : Accepted cfg as t := h.congr hcall (happ h.app) hbody
  unfold Placed at hplaced
  unfold Gated at h ⊢
  rw [hp, hlease]
  cases hpos : s.position with
  | entry =>
    rw [hpos] at h hplaced
    exact absurd h.2.1 (hbusy hplaced.1)
  | rejecting rest =>
    rw [hpos] at h
    exact h
  | through =>
    rw [hpos] at h
    exact h
  | uploadTop =>
    rw [hpos] at h
    exact hreading h
  | uploadWait =>
    rw [hpos] at h
    exact hreading h
  | refusing rest =>
    rw [hpos] at h
    exact .inr (h.elim (fun h ↦ hrefused h.1) haccepted)
  | unwindApp o =>
    rw [hpos] at h
    exact .inr (h.elim (fun h ↦ hrefused h.1) haccepted)
  | unwindWatcher o =>
    rw [hpos] at h
    exact .inr (h.elim (fun h ↦ hrefused h.1) haccepted)
  | finishing o =>
    rw [hpos] at h
    exact .inr (h.elim (fun h ↦ hrefused h.1) haccepted)
  | exit x =>
    rw [hpos] at h
    exact h.imp id (fun h ↦ .inr (h.elim hrefused haccepted))
  | _ =>
    rw [hpos] at h
    exact haccepted h

/-- A refused call has no task that could have failed. -/
theorem Refused.outcome (h : Refused cfg as s) (task : Awaited) :
    s.outcomeOf task = some (.ok ()) := by
  cases task with
  | app =>
    show s.app.outcome = _
    rw [h.app]
    rfl
  | watcher =>
    show s.watcher.outcome = _
    rw [h.watcher]
    rfl

/-- The gate answers an upload that can not go on. -/
theorem Reading.refuse {as' : List Arrival} {status : Int} (h : Reading cfg as s)
    (hanswer : Answered cfg.maxRequestBytes as' [status]) (detail : String) :
    Refused cfg as' (s.respond .refusing status detail []) ∧
      (s.respond .refusing status detail []).boundary.responseStarted = true := by
  have hstatuses : (s.respond .refusing status detail []).boundary.statuses = [status] := by
    show (s.boundary.trackedSend s.call.requestId .middleware
      (jsonStart status detail [])).statuses = [status]
    rw [Boundary.statuses_trackedSend, h.statuses]
    rfl
  refine ⟨⟨h.app, h.watcher, .inr ⟨h.declared, ?_⟩⟩, rfl⟩
  rw [hstatuses]
  exact hanswer

/-- The upload goes on. -/
theorem Reading.snoc (h : Reading cfg as s) {a : Arrival} (ha : a.continues = true)
    (hlength : (uploaded as ++ a.chunk).length ≤ cfg.maxRequestBytes) (hcall : t.call = s.call)
    (happ : t.app = s.app) (hwatcher : t.watcher = s.watcher)
    (hbody : t.body = s.body ++ a.chunk) (hsent : t.boundary = s.boundary) :
    Reading cfg (as ++ [a]) t where
  app := happ.trans h.app
  watcher := hwatcher.trans h.watcher
  declared := by
    rw [hcall]
    exact h.declared
  continuing := h.continuing.snoc ha hlength
  body := by rw [hbody, h.body, uploaded_snoc]
  statuses := by
    rw [hsent]
    exact h.statuses

theorem arrival_of_isAwait (h : e.isAwait = true) : s.arrival e = none := by
  cases e with
  | wake => rfl
  | cancel e => rfl
  | _ => cases h

theorem gated_middleware (hplaced : s.Placed) (h : Gated cfg as s)
    (he : ∀ x, e ≠ .received (.error x)) (hmove : MiddlewareMove cfg init s e t) :
    Gated cfg (as ++ (s.arrival e).toList) t := by
  have hsilent {e : Event A} (hnone : s.arrival e = none) : as ++ (s.arrival e).toList = as := by
    rw [hnone]
    exact List.append_nil as
  have hgated := h
  unfold Placed at hplaced
  unfold Gated at h
  cases hmove with
  | reject keyId detail headers hp _ =>
    rw [hp] at h
    rw [hsilent rfl]
    exact h.1
  | through keyId hp =>
    rw [hp] at h
    rw [hsilent rfl]
    exact h.1
  | oversize keyId hp hlength =>
    rw [hp] at h hplaced
    rw [hsilent rfl]
    obtain ⟨has, hwatcher, -, hstatuses⟩ := h
    refine .inl ⟨⟨hplaced.1, hwatcher, .inl ⟨hlength, has, ?_⟩⟩, rfl⟩
    show ({ s.boundary with clientKeyId := keyId }.trackedSend s.call.requestId .middleware
      (jsonStart 413 "request body is too large" [])).statuses = [413]
    rw [Boundary.statuses_trackedSend,
      show ({ s.boundary with clientKeyId := keyId } : Boundary).statuses = [] from hstatuses]
    rfl
  | acquire keyId hp hlength =>
    rw [hp] at h hplaced
    rw [hsilent rfl]
    obtain ⟨has, hwatcher, hbody, hstatuses⟩ := h
    subst has
    exact ⟨hplaced.1, hwatcher, hlength, continuing_nil _, hbody, hstatuses⟩
  | rejectBody hp =>
    rw [hp] at h
    rw [hsilent rfl]
    exact h
  | rejectOver o hp =>
    rw [hp] at h hplaced
    rw [hsilent rfl]
    exact .inl ⟨hplaced.2.1, h⟩
  | @refuseBody content hp =>
    rw [hp] at h
    rw [hsilent rfl]
    rcases h with ⟨hrefused, hstarted⟩ | hacc
    · refine .inl ⟨hrefused.congr rfl rfl rfl ?_, hstarted⟩
      show (s.boundary.trackedSend s.call.requestId .middleware (.body content false)).statuses = _
      rw [Boundary.statuses_trackedSend]
      exact List.append_nil _
    · exact .inr (hacc.move rfl rfl rfl)
  | refuseOver o hp =>
    rw [hp] at h
    rw [hsilent rfl]
    rcases h with ⟨hrefused, hstarted⟩ | hacc
    · exact .inl ⟨hrefused.congr rfl rfl rfl rfl, .inr hstarted⟩
    · exact .inr (hacc.move rfl rfl rfl)
  | handle o hp =>
    rw [hp] at h
    rw [hsilent rfl]
    rcases h with hout | hrefused | hacc
    · exact .inl hout
    · exact .inr (.inl (hrefused.congr rfl rfl rfl Boundary.statuses_responded))
    · exact .inr (.inr (hacc.move rfl rfl rfl))
  | pollWait hp hd =>
    rw [hp] at h
    rw [hsilent (show s.arrival .poll = none from if_neg (Nat.not_le.mpr hd))]
    exact h.congr rfl rfl rfl rfl rfl
  | pollExpired hp hd =>
    rw [hp] at h
    rw [show s.arrival .poll = some .deadline from if_pos hd]
    exact .inl (h.refuse (.expired h.continuing) _)
  | uploadTimeout hp _ =>
    rw [hp] at h
    exact .inl (h.refuse (.expired h.continuing) _)
  | receiveTimeout x hp => exact absurd rfl (he x)
  | receiveFailed x hp => exact absurd rfl (he x)
  | disconnect hp =>
    rw [hp] at h
    refine .inl ⟨⟨h.app, h.watcher, .inr ⟨h.declared, ?_⟩⟩, .inl rfl⟩
    show Answered _ _ s.boundary.statuses
    rw [h.statuses]
    exact .disconnected h.continuing
  | otherMessage hp =>
    rw [hp] at h
    have hlength := h.continuing.within as (List.prefix_refl as)
    have hsame : (uploaded as ++ (Arrival.message .other).chunk).length ≤ cfg.maxRequestBytes := by
      rw [show (Arrival.message .other).chunk = [] from rfl, List.append_nil]
      exact hlength
    exact h.snoc rfl hsame rfl rfl rfl (List.append_nil _).symm rfl
  | tooLarge hp hlength =>
    rw [hp] at h
    rw [h.body, ← List.length_append] at hlength
    exact .inl (h.refuse (.tooLarge h.continuing _ _ hlength) _)
  | chunk hp hlength =>
    rw [hp] at h
    rw [h.body, ← List.length_append] at hlength
    exact h.snoc rfl hlength rfl rfl rfl rfl rfl
  | @complete chunk hp hlength =>
    rw [hp] at h
    rw [h.body, ← List.length_append] at hlength
    refine ⟨by rintro ⟨⟩, h.declared, ⟨as, chunk, rfl, h.continuing.continues, ?_⟩, ?_⟩
    · exact withinLimit_snoc.mpr ⟨h.continuing.within, hlength⟩
    · show s.body ++ chunk = _
      rw [h.body]
      exact (uploaded_snoc as (.message (.request chunk false))).symm
  | throughOver hp _ =>
    rw [hp] at h hplaced
    rw [hsilent rfl]
    exact .inl ⟨hplaced.1, h⟩
  | appFirst hp _ =>
    rw [hp] at h
    rw [hsilent rfl]
    exact Accepted.move h rfl rfl rfl
  | raceLost hp _ =>
    rw [hp] at h
    rw [hsilent rfl]
    exact Accepted.move h rfl rfl rfl
  | raceCancelled _ hp =>
    rw [hp] at h
    rw [hsilent rfl]
    exact .inr (Accepted.move h rfl rfl rfl)
  | settleWatcher hev o hp =>
    rw [hp] at h
    rw [hsilent (arrival_of_isAwait hev)]
    exact .inr (Accepted.move h rfl rfl rfl)
  | settleApp hev o hp _ =>
    rw [hp] at h
    rw [hsilent (arrival_of_isAwait hev)]
    exact .inr (Accepted.move h rfl rfl rfl)
  | settleExpired hev hp _ =>
    rw [hp] at h
    rw [hsilent (arrival_of_isAwait hev)]
    exact Accepted.move h rfl rfl rfl
  | expireUnwind hev o hp =>
    rw [hp] at h
    rw [hsilent (arrival_of_isAwait hev)]
    exact .inr (Accepted.move h rfl rfl rfl)
  | expire hev hp _ =>
    rw [hp] at h
    rw [hsilent (arrival_of_isAwait hev)]
    exact .inr (Accepted.move h rfl rfl rfl)
  | unwindApp hev hp _ =>
    rw [hp] at h
    rw [hsilent (arrival_of_isAwait hev)]
    rcases h with ⟨hrefused, ho⟩ | hacc
    · exact .inl ⟨hrefused.congr rfl rfl rfl rfl, ho⟩
    · exact .inr (hacc.move rfl rfl rfl)
  | unwindAppBare hev hp ho _ =>
    rw [hp] at h
    rw [hsilent (arrival_of_isAwait hev)]
    rcases h with ⟨hrefused, -⟩ | hacc
    · cases ho.symm.trans (hrefused.outcome .app)
    · exact .inr (.inr (hacc.move rfl rfl rfl))
  | unwindWatcher hev hp _ =>
    rw [hp] at h
    rw [hsilent (arrival_of_isAwait hev)]
    rcases h with ⟨hrefused, ho⟩ | hacc
    · exact .inl ⟨hrefused.congr rfl rfl rfl rfl, ho⟩
    · exact .inr (hacc.move rfl rfl rfl)
  | unwindWatcherBare hev hp ho _ =>
    rw [hp] at h
    rw [hsilent (arrival_of_isAwait hev)]
    rcases h with ⟨hrefused, -⟩ | hacc
    · cases ho.symm.trans (hrefused.outcome .watcher)
    · exact .inr (.inr (hacc.move rfl rfl rfl))
  | forward x task =>
    rw [hsilent rfl]
    cases task <;> exact hgated.congr rfl rfl rfl rfl rfl rfl rfl
  | finish hp =>
    rw [hp] at h
    rw [hsilent rfl]
    rcases h with ⟨hrefused, ho⟩ | hacc
    · exact .inr (.inl (hrefused.congr rfl rfl rfl (Boundary.statuses_leave ho)))
    · exact .inr (.inr (hacc.move rfl rfl rfl))

/-- A task that is not over was started. -/
theorem ne_idle_of_outcome {d : Downstream A S} (h : d.outcome = none) : d ≠ .idle := by
  rintro rfl
  cases h

theorem turn_upload (s : Stack A S) (a : Turn AppCall (AppCall.Reply A) (Exc A) S) :
    (s.turn a).app ≠ .idle ∧ (s.turn a).body = s.body := by
  cases a with
  | ret => exact ⟨by rintro ⟨⟩, rfl⟩
  | raise e => exact ⟨by rintro ⟨⟩, rfl⟩
  | call c k =>
    cases c with
    | receive =>
      unfold turn
      dsimp only
      split <;> exact ⟨by rintro ⟨⟩, rfl⟩
    | _ => exact ⟨by rintro ⟨⟩, rfl⟩

theorem gated_task (hplaced : s.Placed) (h : Gated cfg as s) (hmove : TaskMove next init s e t) :
    Gated cfg as t := by
  have hstarted {c : AppCall} {k : c.Reply A → S} (hs : s.app = .running (.awaiting c k)) :
      s.app = .idle → s.watcher ≠ .idle :=
    fun hidle ↦ absurd hidle (ne_idle_of_outcome (outcome_of_awaiting hs))
  have hrunning (hs : s.watcher = .running) : s.app = .idle → s.watcher ≠ .idle := by
    intro _ hidle
    cases hs.symm.trans hidle
  cases hmove with
  | turn hs =>
    obtain ⟨hp, hl, -, hcall, -⟩ := turn_frame s (next _)
    obtain ⟨happ, hbody⟩ := turn_upload s (next _)
    have hne := ne_idle_of_outcome (outcome_of_state hs)
    exact h.frame hplaced (fun hidle ↦ absurd hidle hne) (fun _ ↦ happ) hp hl hcall hbody
  | cancelled x hs =>
    have hne : s.app ≠ .idle := by
      rw [hs]
      rintro ⟨⟩
    exact h.frame hplaced (fun hidle ↦ absurd hidle hne) (by rintro _ ⟨⟩) rfl rfl rfl rfl
  | answered ev hs r => exact h.frame hplaced (hstarted hs) (by rintro _ ⟨⟩) rfl rfl rfl rfl
  | received hs _ => exact h.frame hplaced (hstarted hs) (by rintro _ ⟨⟩) rfl rfl rfl rfl
  | watchOn a => exact h
  | watchDisconnect hs => exact h.frame hplaced (hrunning hs) id rfl rfl rfl rfl
  | watchFailed x hs => exact h.frame hplaced (hrunning hs) id rfl rfl rfl rfl

theorem arrival_of_task (hmove : TaskMove next init s e t) : s.arrival e = none := by
  cases hmove <;> rfl

theorem gated_step (hplaced : s.Placed) (h : Gated cfg as s)
    (he : ∀ x, e ≠ .received (.error x)) (hstep : s.step cfg next init e = some t) :
    Gated cfg (as ++ (s.arrival e).toList) t := by
  cases move_of_step hstep with
  | tick =>
    rw [show s.arrival .tick = none from rfl, Option.toList_none, List.append_nil]
    exact h.congr rfl rfl rfl rfl rfl rfl rfl
  | middleware hmove => exact gated_middleware hplaced h he hmove
  | task hmove =>
    rw [arrival_of_task hmove, Option.toList_none, List.append_nil]
    exact gated_task hplaced h hmove

/-- What the upload of a run met. -/
def arrivals (cfg : Config F) (next : App A S) (init : S) (call : HttpCall) (es : List (Event A)) :
    List Arrival := marks (step cfg next init) arrival (start call) es

theorem placed_exec {call : HttpCall} {es : List (Event A)}
    (hrun : exec (step cfg next init) (start call) es = some s) : s.Placed :=
  exec_preserves (fun _ _ _ h hstep ↦ placed_step h hstep) hrun (placed_start call)

theorem gated_exec {call : HttpCall} {es : List (Event A)}
    (hrun : exec (step cfg next init) (start call) es = some s)
    (hes : ∀ x, Event.received (.error x) ∉ es) :
    Gated cfg (arrivals cfg next init call es) s := by
  revert hes
  apply exec_induction (P := fun es s ↦ (∀ x, Event.received (.error x) ∉ es) →
    Gated cfg (arrivals cfg next init call es) s) ?_ ?_ hrun
  · intro _
    exact gated_start call
  · intro es s e t hm ih hstep hes
    have hold := ih (fun x hx ↦ hes x (List.mem_append_left _ hx))
    have he : ∀ x, e ≠ .received (.error x) := by
      rintro x rfl
      exact hes x (List.mem_append_right _ (List.mem_singleton.mpr rfl))
    unfold arrivals at hold ⊢
    rw [marks_snoc hm]
    exact gated_step (placed_exec hm) hold he hstep

end Stack
end InferenceServer.Server
