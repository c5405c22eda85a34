import InferenceServer.Server.Observability

/-!
# What passes `tracked_send`

Library `Server`. `python/cuda_db/server/observability.py:56–68`. Every message for the client goes
through `tracked_send`. As long as its callers send a start only when none was started, one
start at most reaches the server, with the server's request id; the error boundary itself is
such a caller.
-/

namespace InferenceServer.Server

variable {A : Type}

/-- The only request id among the headers is the server's. -/
theorem filter_withRequestId (requestId : String) (headers : List (Bytes × Bytes)) :
    (withRequestId requestId headers).filter
        (fun h ↦ h.1.map lowerByte = asciiBytes "x-request-id") =
      [(asciiBytes "x-request-id", asciiBytes requestId)] := by
  have hname : (asciiBytes "x-request-id").map lowerByte = asciiBytes "x-request-id" := by decide
  have hrest : (headers.filter fun h ↦ h.1.map lowerByte ≠ asciiBytes "x-request-id").filter
      (fun h ↦ h.1.map lowerByte = asciiBytes "x-request-id") = [] := by
    rw [List.filter_eq_nil_iff]
    intro h hmem
    simpa using (List.mem_filter.mp hmem).2
  rw [withRequestId, List.filter_append, hrest, List.nil_append]
  exact List.filter_cons_of_pos (decide_eq_true hname)

namespace Boundary

variable {b : Boundary} {requestId : String} {sender : Sender} {m : Outgoing}

/-- The responses that were started. -/
def starts (b : Boundary) : List (Sender × Outgoing) := b.sent.filter (·.2.isStart)

/-- What `tracked_send` hands to the server. -/
def handed (requestId : String) (sender : Sender) : Outgoing → List (Sender × Outgoing)
  | .start none _ => []
  | .start (some status) headers =>
    [(sender, .start (some status) (withRequestId requestId headers))]
  | m => [(sender, m)]

theorem sent_trackedSend :
    (b.trackedSend requestId sender m).sent = b.sent ++ handed requestId sender m := by
  cases m with
  | start status headers =>
    cases status with
    | none => exact (List.append_nil _).symm
    | some status => rfl
  | body content moreBody => rfl
  | other type => rfl

theorem responseStarted_trackedSend :
    (b.trackedSend requestId sender m).responseStarted = (b.responseStarted || m.isStart) := by
  cases m with
  | start status headers => cases status <;> exact (Bool.or_true _).symm
  | body content moreBody => exact (Bool.or_false _).symm
  | other type => exact (Bool.or_false _).symm

theorem starts_trackedSend :
    (b.trackedSend requestId sender m).starts =
      b.starts ++ (handed requestId sender m).filter (·.2.isStart) := by
  unfold starts
  rw [sent_trackedSend, List.filter_append]

/-- A message that starts no response starts none. -/
theorem starts_trackedSend_of_not_start (h : m.isStart = false) :
    (b.trackedSend requestId sender m).starts = b.starts := by
  rw [starts_trackedSend]
  cases m with
  | start status headers => cases h
  | body content moreBody => exact List.append_nil _
  | other type => exact List.append_nil _

theorem length_handed_le (requestId : String) (sender : Sender) (m : Outgoing) :
    (handed requestId sender m).length ≤ 1 := by
  unfold handed
  split
  · exact Nat.zero_le 1
  · exact Nat.le_refl 1
  · exact Nat.le_refl 1

/-- One message starts at most one response. -/
theorem length_starts_trackedSend_le (b : Boundary) (requestId : String) (sender : Sender)
    (m : Outgoing) : (b.trackedSend requestId sender m).starts.length ≤ b.starts.length + 1 := by
  rw [starts_trackedSend, List.length_append]
  have hfilter := List.length_filter_le (·.2.isStart) (handed requestId sender m)
  have hhanded := length_handed_le requestId sender m
  omega

/-- What holds of the messages that passed `tracked_send`. -/
structure Tracked (requestId : String) (b : Boundary) : Prop where
  quiet : b.responseStarted = false → b.starts = []
  one : b.starts.length ≤ 1
  branded : ∀ sender status headers, (sender, .start status headers) ∈ b.sent →
    headers.filter (fun h ↦ h.1.map lowerByte = asciiBytes "x-request-id") =
      [(asciiBytes "x-request-id", asciiBytes requestId)]

theorem tracked_new : Tracked requestId {} where
  quiet _ := rfl
  one := Nat.zero_le 1
  branded := by
    intro _ _ _ hmem
    cases hmem

/-- Logging and the other variables do not matter. -/
theorem Tracked.congr {b' : Boundary} (h : b.Tracked requestId) (hsent : b'.sent = b.sent)
    (hstarted : b'.responseStarted = b.responseStarted) : b'.Tracked requestId where
  quiet := by
    unfold starts
    rw [hstarted, hsent]
    exact h.quiet
  one := by
    unfold starts
    rw [hsent]
    exact h.one
  branded := by
    rw [hsent]
    exact h.branded

/-- A start may pass when none did. -/
theorem Tracked.send (h : b.Tracked requestId) (sender : Sender) (m : Outgoing)
    (hm : m.isStart = true → b.responseStarted = false) :
    (b.trackedSend requestId sender m).Tracked requestId where
  quiet := by
    rw [responseStarted_trackedSend, Bool.or_eq_false_iff]
    rintro ⟨hb, hstart⟩
    rw [starts_trackedSend_of_not_start hstart]
    exact h.quiet hb
  one := by
    cases hstart : m.isStart with
    | true =>
      have hle := length_starts_trackedSend_le b requestId sender m
      rw [h.quiet (hm hstart)] at hle
      exact hle
    | false =>
      rw [starts_trackedSend_of_not_start hstart]
      exact h.one
  branded := by
    intro who status headers hmem
    rw [sent_trackedSend, List.mem_append] at hmem
    rcases hmem with hold | hnew
    · exact h.branded who status headers hold
    · unfold handed at hnew
      split at hnew
      · cases hnew
      · cases List.mem_singleton.mp hnew
        exact filter_withRequestId requestId _
      · next hnone hsome =>
        cases List.mem_singleton.mp hnew
        cases status with
        | none => exact absurd rfl (hnone headers)
        | some status => exact absurd rfl (hsome status headers)

/-- The error boundary answers only when nothing was started. -/
theorem Tracked.leave {c : AsgiCall} (h : b.Tracked c.requestId) (now : Nat) (o : AppOutcome A) :
    (b.leave c now o).1.Tracked c.requestId := by
  unfold Boundary.leave
  split
  · exact h.congr rfl rfl
  · split
    · dsimp only
      split
      · exact h.congr rfl rfl
      · next name _ hstarted =>
        have hfailed : Tracked c.requestId { b.failed c.requestId name with status := 500 } :=
          h.congr rfl rfl
        exact hfailed.send .middleware (jsonStart 500 "internal server error" [])
          (fun _ ↦ Bool.not_eq_true _ ▸ hstarted)
    · exact h.congr rfl rfl

theorem Tracked.responded {c : AsgiCall} (h : b.Tracked c.requestId) (now : Nat) (exc : Exc A)
    (rest : Option Bytes) (o : AppOutcome A) :
    (b.responded c now exc rest o).1.Tracked c.requestId := by
  unfold Boundary.responded
  split
  · exact h.congr rfl rfl
  · split
    · next content => exact h.send .middleware (.body content false) (by rintro ⟨⟩)
    · exact h.congr rfl rfl

/-- A 504 of the middlewares was started. -/
def TimedOut (b : Boundary) : Prop :=
  ∃ headers, (Sender.middleware, Outgoing.start (some 504) headers) ∈ b.sent

/-- It was sent now or before. -/
theorem TimedOut.of_trackedSend (h : (b.trackedSend requestId sender m).TimedOut) :
    b.TimedOut ∨ sender = .middleware ∧ ∃ headers, m = .start (some 504) headers := by
  obtain ⟨headers, hmem⟩ := h
  rw [sent_trackedSend, List.mem_append] at hmem
  rcases hmem with hold | hnew
  · exact .inl ⟨headers, hold⟩
  · unfold handed at hnew
    split at hnew
    · cases hnew
    · cases List.mem_singleton.mp hnew
      exact .inr ⟨rfl, _, rfl⟩
    · cases List.mem_singleton.mp hnew
      exact .inr ⟨rfl, headers, rfl⟩

theorem TimedOut.of_leave {c : AsgiCall} {now : Nat} {o : AppOutcome A}
    (h : (b.leave c now o).1.TimedOut) : b.TimedOut := by
  unfold Boundary.leave at h
  split at h
  · exact h
  · split at h
    · dsimp only at h
      split at h
      · exact h
      · rcases h.of_trackedSend with hold | ⟨-, headers, hstart⟩
        · exact hold
        · cases hstart
    · exact h

theorem TimedOut.of_responded {c : AsgiCall} {now : Nat} {exc : Exc A} {rest : Option Bytes}
    {o : AppOutcome A} (h : (b.responded c now exc rest o).1.TimedOut) : b.TimedOut := by
  unfold Boundary.responded at h
  split at h
  · exact h
  · split at h
    · rcases h.of_trackedSend with hold | ⟨-, headers, hstart⟩
      · exact hold
      · cases hstart
    · exact h

end Boundary

end InferenceServer.Server
