import CtfServer.System.Executions

/-!
# The results of password jobs

What `password_worker_handler` hands to a request is what `run_password_worker` made of its job.

* `Worked`         the finished jobs of a state of the server;
* `Run.worked`     **every result that a request sees is the result of its job**.
-/

set_option linter.unusedVariables false
set_option linter.unusedSimpArgs false

namespace System

open App Store

/-- the results of a trace are those of its jobs -/
def WorkedAt (passwords : PasswordLib) (trace : List Event) : Prop :=
  ∀ job result, .finished job result ∈ trace → JobResult passwords job result ∧
    result.cancelled = false

/-- every result is that of its job, unless the job was cancelled -/
structure Worked (passwords : PasswordLib) (w : World) : Prop where
  doneJobs : ∀ j ∈ w.doneJobs, j.result.cancelled = true ∨ JobResult passwords j.job j.result
  traces : ∀ id client, w.clients id = some client → WorkedAt passwords client.state.trace

section
variable {lib : AuthLib} {passwords : PasswordLib} {runtime : Runtime} {dateFormat : Int → Bytes}
  {meets : Nat → Env → Prop} {db : Db} {w : World}

/-! ## traces -/

theorem WorkedAt.append {a b : List Event} (ha : WorkedAt passwords a) (hb : WorkedAt passwords b) :
    WorkedAt passwords (a ++ b) := by
  intro job result h
  rcases List.mem_append.1 h with h | h
  · exact ha job result h
  · exact hb job result h

/-- a call brings no result itself -/
theorem WorkedAt.own {events : List Event} (h : events.all Event.isOwn = true) :
    WorkedAt passwords events := by
  intro job result hmem
  exact absurd (List.all_eq_true.1 h _ hmem) (by simp [Event.isOwn])

theorem WorkedAt.finished {job : PasswordJob} {result : PasswordResult}
    (h : JobResult passwords job result)
    (hcancel : result.cancelled = false) : WorkedAt passwords [.finished job result] := by
  intro job' result' hmem
  cases List.mem_singleton.1 hmem
  exact ⟨h, hcancel⟩

/-! ## the steps -/

theorem Worked.settle {w1 : World} {id : Nat} {client : Client} {events : List Event}
    (h : Worked passwords w)
    (hclients : w1.clients = w.clients) (hdone : ∀ j ∈ w1.doneJobs, j ∈ w.doneJobs)
    (hself : WorkedAt passwords client.state.trace) :
    Worked passwords (w1.settle id client events) := by
  refine ⟨fun j hj => h.doneJobs j (hdone j hj), fun id' client' hc => ?_⟩
  have hc : Function.update w1.clients id (some client) id' = some client' := hc
  by_cases hid : id' = id
  · subst hid
    rw [Function.update_self] at hc
    cases hc
    exact hself
  · rw [Function.update_of_ne hid, hclients] at hc
    exact h.traces id' client' hc

theorem Worked.put {w1 : World} {id : Nat} {client : Client} (h : Worked passwords w)
    (hclients : w1.clients = w.clients) (hdone : ∀ j ∈ w1.doneJobs, j ∈ w.doneJobs)
    (hself : WorkedAt passwords client.state.trace) : Worked passwords (w1.put id client) :=
  let hs : Worked passwords (w1.settle id client []) := h.settle hclients hdone hself
  ⟨hs.doneJobs, hs.traces⟩

theorem Worked.step {w' : World} (h : Worked passwords w)
    (hs : Step lib passwords runtime dateFormat meets w w') : Worked passwords w' := by
  cases hs with
  | accept request env hmeets hid hadm =>
    exact h.settle rfl (fun _ hj => hj) (.own (dispatch_own ..))
  | work now ht hx => exact ⟨h.doneJobs, h.traces⟩
  | deliver env hmeets ht hc hconn hadm =>
    refine h.settle rfl (fun _ hj => hj)
      (.append (.append (h.traces _ _ hc) ?_) (.own (runStages_own ..)))
    intro job result hmem
    cases List.mem_singleton.1 hmem
  | drop ht hc hconn =>
    refine h.put rfl (fun _ hj => hj) (.append (h.traces _ _ hc) ?_)
    intro job result hmem
    cases List.mem_singleton.1 hmem
  | hangup hc =>
    have htrace := h.traces _ _ hc
    exact h.put rfl (fun _ hj => hj) htrace
  | take hs hr hp => exact ⟨h.doneJobs, h.traces⟩
  | finish hr hx =>
    refine ⟨fun j hj => ?_, h.traces⟩
    rcases List.mem_append.1 hj with hj | hj
    · exact h.doneJobs j hj
    · cases List.mem_singleton.1 hj
      exact .inr hx
  | stop =>
    refine ⟨fun j hj => ?_, h.traces⟩
    rcases List.mem_append.1 hj with hj | hj
    · exact h.doneJobs j hj
    · obtain ⟨job, -, rfl⟩ := List.mem_map.1 hj
      exact .inl rfl
  | @deliverJob j rest client env hmeets hj hc hconn hcancel hadm =>
    have hmem : j ∈ w.doneJobs := hj ▸ List.mem_cons_self
    have hresult : JobResult passwords j.job j.result := by
      rcases h.doneJobs j hmem with hdone | hdone
      · rw [hcancel] at hdone
        cases hdone
      · exact hdone
    exact h.settle rfl (fun i hi => hj ▸ List.mem_cons_of_mem j hi)
      (.append (.append (h.traces _ _ hc) (.finished hresult hcancel)) (.own (runStages_own ..)))
  | @cancelJob j rest client hj hc hconn hcancel =>
    exact h.settle rfl (fun i hi => hj ▸ List.mem_cons_of_mem j hi)
      (.append (h.traces _ _ hc) (.own rfl))
  | @dropJob j rest client hj hc hconn =>
    exact h.put rfl (fun i hi => hj ▸ List.mem_cons_of_mem j hi)
      (.append (h.traces _ _ hc) (.own rfl))

/-- **every result that a request sees is the result of its job** -/
theorem Run.worked (h : Run lib passwords runtime dateFormat meets db w) : Worked passwords w := by
  induction h with
  | start =>
    refine ⟨List.forall_mem_nil _, fun id client hc => ?_⟩
    have hc : none = some client := hc
    cases hc
  | step _ hs ih => exact ih.step hs

/-! ## hashes and verdicts -/

/-- a hash that a signup goes on with was produced from its password -/
theorem JobResult.produced {job : PasswordJob} {result : PasswordResult}
    (h : JobResult passwords job result)
    (ho : job.operation = .hash) (hr : result.failure = none) :
    passwords.produced job.password result.hash := by
  cases h with
  | hash computed _ hc =>
    unfold authPasswordHash at hr ⊢
    split at hr
    · cases hr
    · next hvalid =>
      rw [if_neg hvalid]
      cases computed with
      | none => cases hr
      | some hash => exact hc hash rfl
  | verify hv _ => rw [ho] at hv; cases hv
  | unknown hv _ _ => rw [ho] at hv; cases hv

/-- a password that a login goes on with was verified against a stored hash -/
theorem JobResult.verified {job : PasswordJob} {result : PasswordResult}
    (h : JobResult passwords job result)
    (ho : job.operation = .verify) (hr : result.failure = none) :
    job.unknownUser = false ∧ passwords.verify job.storedHash job.password = true := by
  cases h with
  | hash _ hh _ => rw [ho] at hh; cases hh
  | unknown _ _ _ => cases hr
  | verify _ hk =>
    refine ⟨hk.resolve_right (not_not.2 hr), ?_⟩
    unfold authPasswordVerify at hr
    split at hr
    · cases hr
    split at hr
    · cases hr
    split at hr
    · next hv => exact hv
    · cases hr

end

end System
