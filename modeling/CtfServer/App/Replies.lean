import CtfServer.App.Gate

/-!
# How a request came to its response

* `executed`         the statements that a trace has seen completed;
* `Reach.replied`    the call that answered;
* `Reach.checked`    the same behind the check of a token.
-/

set_option linter.unusedVariables false
set_option linter.unusedSimpArgs false

namespace App

/-! ## the statements of a trace -/

/-- the statements that a trace has seen completed -/
def executed (trace : List Event) : List (Query × DbResult) :=
  trace.filterMap fun
    | .completed q r => some (q, r)
    | .discarded q r => some (q, r)
    | _ => none

theorem executed_append (a b : List Event) : executed (a ++ b) = executed a ++ executed b := by
  simp [executed]

theorem executed_own {events : List Event} (h : events.all Event.isOwn = true) :
    executed events = [] := by
  simp only [executed, List.filterMap_eq_nil_iff]
  intro e he
  have := List.all_eq_true.1 h e he
  cases e <;> first | rfl | cases this

theorem executed_resume (s : ReqState) (op : Op) {done : List Event} {o : Outcome}
    (h : o.events.all Event.isOwn = true) :
    executed (s.resume op done o).trace = executed s.trace ++ executed done := by
  simp only [ReqState.resume, executed_append, executed_own h, List.append_nil]

section
variable {lib : AuthLib} {runtime : Runtime} {request : Request} {meets : Env → Prop}

/-- what a waiting request has completed and what it waits for is, in order, what it has enqueued -/
theorem Waiting.statements {chain : List Stage} {s : ReqState} {op : Op}
    (h : Waiting lib runtime request chain s)
    (hp : s.pending = [op]) : ((executed s.trace).map (fun e => Op.db e.1) ++ [op]).Sublist
    (opsOf s.trace) := by
  cases h <;> subst_vars <;> cases hp <;>
    simp [waitingFor, opsOf_append, opsOf_cons, opsOf_nil, opsOf_clocks, executed_append, executed,
      Event.op, Passed.trace, Accepted.trace]

/-! ## the call that answered -/

theorem Outcome.Done.answer {o : Outcome} {response r : Response} (h : o.Done response)
    (hr : .respond r ∈ o.events) : o.verdict = .respond r := by
  obtain ⟨hv, events, he, hq⟩ := h
  rw [he, List.mem_append, List.mem_singleton] at hr
  rcases hr with hr | hr
  · exact absurd (List.all_eq_true.1 hq _ hr) (by simp [Event.isQuiet])
  · cases hr
    exact hv

/-- the states of a request that was answered -/
inductive Replied (lib : AuthLib) (runtime : Runtime) (request : Request) (meets : Env → Prop)
    (chain : List Stage) (r : Response) : ReqState → Prop where
  | atOnce {env : Env} (hmeets : meets env) (hv : (dispatch lib runtime env request).verdict =
      .respond r) :
      Replied lib runtime request meets chain r (.start (dispatch lib runtime env request))
  | last {s : ReqState} {op : Op} {input : Input} {done : List Event} {env : Env}
      (hmeets : meets env)
      (hw : Waiting lib runtime request chain s) (hp : s.pending = [op])
      (hc : Completion op input done)
      (hv : (runStages lib runtime env input s.ctx s.ctx.chain).verdict = .respond r) :
      Replied lib runtime request meets chain r
        (s.resume op done (runStages lib runtime env input s.ctx s.ctx.chain))
  | cancelled {s : ReqState} {job : PasswordJob} (hw : Waiting lib runtime request chain s)
      (hp : s.pending = [.password job]) (hr : r = cancelledResponse) :
      Replied lib runtime request meets chain r (s.cancel (.password job))

theorem Completion.noRespond {op : Op} {input : Input} {done : List Event}
    (h : Completion op input done) (r : Response) : .respond r ∉ done := by
  cases h <;> simp

theorem Discarded.noRespond {op : Op} {done : List Event} (h : Discarded op done) (r : Response) :
    .respond r ∉ done := by
  cases h <;> simp

/-- **a response is that of the last call** -/
theorem Reach.replied {s : ReqState} {r : Response} (h : Reach lib runtime meets request s)
    (hr : .respond r ∈ s.trace) : Replied lib runtime request meets request.chain r s := by
  rcases h.shape with hw | hf
  · exact absurd hr (hw.noRespond r)
  cases hf with
  | atOnce hmeets hd => exact .atOnce hmeets (hd.answer hr)
  | @last s op input done env response hmeets hw hp hc hd =>
    refine .last hmeets hw hp hc (hd.answer ?_)
    rcases List.mem_append.1 hr with hr | hr
    · rcases List.mem_append.1 hr with hr | hr
      · exact absurd hr (hw.noRespond r)
      · exact absurd hr (hc.noRespond r)
    · exact hr
  | @discard s op done hw hp hc =>
    rcases List.mem_append.1 hr with hr | hr
    · exact absurd hr (hw.noRespond r)
    · exact absurd hr (hc.noRespond r)
  | @cancel s job hw hp =>
    refine .cancelled hw hp ?_
    rcases List.mem_append.1 hr with hr | hr
    · exact absurd hr (hw.noRespond r)
    · cases List.mem_singleton.1 hr
      rfl

/-! ## behind the check -/

/-- an answered request behind the check: refused, answered by its first stage, or by a later one -/
inductive Checked (lib : AuthLib) (runtime : Runtime) (request : Request) (meets : Env → Prop)
    (rest : List Stage) (r : Response) : ReqState → Prop where
  | refused {s : ReqState} (hr : r.status.ofCheck = true)
      (he : ∀ e ∈ executed s.trace, e.1 = .selectSessions) :
      Checked lib runtime request meets rest r s
  | first {s : ReqState} {env : Env} (hmeets : meets env) (g : Passed lib runtime request)
      (hv : (runStages lib runtime env {} ⟨request, rest, .none, g.identity⟩ rest).verdict
        = .respond r)
      (he : executed s.trace = [(.selectSessions, g.result)]) :
        Checked lib runtime request meets rest r s
  | later {s : ReqState} {op : Op} {input : Input} {done : List Event} {env : Env}
      (hmeets : meets env)
      (hw : Waiting lib runtime request (.auth1 :: .auth2 :: rest) s) (hp : s.pending = [op])
      (hc : Completion op input done) (hs : s.ctx.chain.head? ≠ some .auth2)
      (hv : (runStages lib runtime env input s.ctx s.ctx.chain).verdict = .respond r) :
      Checked lib runtime request meets rest r
        (s.resume op done (runStages lib runtime env input s.ctx s.ctx.chain))

theorem dispatch_chain {env : Env} {r : Response} {rest : List Stage}
    (hc : request.chain = .auth1 :: .auth2 :: rest)
    (hv : (dispatch lib runtime env request).verdict = .respond r) : r.status.ofCheck = true := by
  unfold dispatch at hv
  unfold Request.chain at hc
  cases hr : request.route with
  | none => rw [hr] at hc; cases hc
  | some route =>
    rw [hr] at hv hc
    dsimp only at hv hc
    split at hv
    · cases hv
      rfl
    · rw [hc, runStages_plain _ _ _ _ _ _ _ (by decide)] at hv
      exact handleAuth1_refused hv

/-- behind the check no job is under way -/
theorem Waiting.no_job {rest : List Stage} {s : ReqState} {job : PasswordJob}
    (h : Waiting lib runtime request (.auth1 :: .auth2 :: rest) s) :
    s.pending ≠ [.password job] := by
  cases h <;> simp [waitingFor]

theorem Reach.checked {s : ReqState} {r : Response} {rest : List Stage}
    (h : Reach lib runtime meets request s)
    (hc : request.chain = .auth1 :: .auth2 :: rest) (hr : .respond r ∈ s.trace) :
    Checked lib runtime request meets rest r s := by
  have hrep := h.replied hr
  rw [hc] at hrep
  cases hrep with
  | @atOnce env hmeets hv =>
    refine .refused (dispatch_chain hc hv) fun e he => ?_
    simp only [ReqState.start, executed_own (dispatch_own lib runtime env request),
      List.not_mem_nil] at he
  | cancelled hw hp heq => exact absurd hp hw.no_job
  | @last s op input done env hmeets hw hp hcomp hv =>
    by_cases hs : s.ctx.chain.head? = some .auth2
    · cases hw <;> try (simp [waitingFor] at hs; done)
      next a ht =>
      cases hp
      cases hcomp with | task _ result =>
      subst ht
      have hv' := hv
      simp only [waitingFor, runStages, Stage.run, Input.withTask] at hv'
      rcases handleAuth2_cases a rest env result with ⟨resp, hd⟩ | ⟨g, rfl, rfl, heq⟩
      · rw [hd.verdict] at hv'
        dsimp only at hv'
        rw [hd.verdict] at hv'
        cases hv'
        refine .refused (handleAuth2_refused hd.verdict) fun e he => ?_
        rw [executed_resume _ _ (runStages_own ..)] at he
        cases List.mem_singleton.1 he
        rfl
      · rw [heq] at hv'
        refine .first hmeets g hv' ?_
        rw [executed_resume _ _ (runStages_own ..)]
        rfl
    · exact .later hmeets hw hp hcomp hs hv

end

end App
