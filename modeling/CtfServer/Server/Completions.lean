import CtfServer.Server.Ownership

/-!
# Requests, operations and their completions

* `Safe.attach`, `Safe.hold`      a request comes in, and a context for it;
* `Safe.endHandler`               a handler answers, or leaves an operation behind;
* `Safe.clientHandler`, `Safe.dbHandlerTurn`, `Safe.passwordWorkerHandlerTurn`   **the handlers of
  the loop keep the invariant and find their objects alive**;
* `dbHandlerTurn_orphan`, `passwordWorkerHandlerTurn_orphan`   a completion for a client that is
                                                               gone.
-/

set_option linter.unusedVariables false
set_option linter.unusedSimpArgs false

namespace Server

/-! ## operations -/

theorem opData_inl (tasks : Arena Task) (jobs : Arena Job) (t : Nat) :
    opData tasks jobs (.inl t) = (tasks.get t).bind fun t => some t.data := rfl

theorem opData_inr (tasks : Arena Task) (jobs : Arena Job) (j : Nat) :
    opData tasks jobs (.inr j) = (jobs.get j).bind fun j => some j.data := rfl

/-- one context more that is busy -/
theorem busy_iff {p : Prop} {x y : Nat} :
    p ∧ some x ≠ some y ↔ (p ∧ (none : Option Nat) ≠ some y) ∧ y ≠ x := by
  constructor
  · rintro ⟨hp, hne⟩
    exact ⟨⟨hp, by simp⟩, fun h => hne (congrArg some h.symm)⟩
  · rintro ⟨⟨hp, -⟩, hne⟩
    exact ⟨hp, fun h => hne (Option.some.inj h).symm⟩

section
variable {busy : Option Nat} {contexts contexts' : Arena Context} {tasks tasks' : Arena Task}
  {jobs jobs' : Arena Job}
  {taskQueue running doneQueue pending doneJobs : List Nat} {computing : Option Nat} {x n : Nat}

/-- a task that is done is taken and released -/
theorem Work.takeTask {t : Nat} {task : Task}
    (h : Work none contexts tasks jobs taskQueue running (t :: doneQueue) pending
      computing doneJobs)
    (ht : tasks.get t = some task) (htasks : tasks'.get = Function.update tasks.get t none) :
    Work (some task.data) contexts tasks' jobs taskQueue running doneQueue pending computing
      doneJobs where
  covers := by
    have hdata : opData tasks jobs (.inl t) = some task.data := by
      rw [opData_inl, ht]
      rfl
    rw [opData_task htasks]
    exact (h.covers.remove hdata).congr fun y => busy_iff
  listedTasks := by
    refine Arena.Listed.remove (h.listedTasks.perm ?_) htasks
    rw [← List.append_assoc, ← List.append_assoc]
    exact List.perm_middle
  listedJobs := h.listedJobs

/-- a job that is done is taken and released -/
theorem Work.takeJob {j : Nat} {job : Job}
    (h : Work none contexts tasks jobs taskQueue running doneQueue pending computing
      (j :: doneJobs))
    (hj : jobs.get j = some job) (hjobs : jobs'.get = Function.update jobs.get j none) :
    Work (some job.data) contexts tasks jobs' taskQueue running doneQueue pending computing
      doneJobs where
  covers := by
    have hdata : opData tasks jobs (.inr j) = some job.data := by
      rw [opData_inr, hj]
      rfl
    rw [opData_job hjobs]
    exact (h.covers.remove hdata).congr fun y => busy_iff
  listedTasks := h.listedTasks
  listedJobs := by
    refine Arena.Listed.remove (h.listedJobs.perm ?_) hjobs
    rw [← List.append_assoc, ← List.append_assoc]
    exact List.perm_middle

/-- a query of the context that was busy -/
theorem Work.query (h : Work (some x) contexts tasks jobs taskQueue running doneQueue pending
    computing doneJobs)
    (hx : (contexts.get x).isSome = true) :
    Work none contexts (tasks.alloc ⟨x⟩) jobs (taskQueue ++ [tasks.next]) running doneQueue pending
      computing doneJobs where
  covers := by
    have hfresh : opData tasks jobs (.inl tasks.next) = none := by
      rw [opData_inl, tasks.get_next]
      rfl
    rw [opData_task (tasks.get_alloc _)]
    refine (h.covers.add hfresh (by simp)).congr fun y => ?_
    by_cases hy : y = x
    · subst hy
      simp [hx]
    · simp [hy, Ne.symm hy]
  listedTasks := by
    refine (h.listedTasks.add tasks.get_next (tasks.get_alloc _)).perm ?_
    rw [List.append_assoc, List.singleton_append]
    exact List.perm_middle.symm
  listedJobs := h.listedJobs

/-- a password job for the context that was busy -/
theorem Work.submit (h : Work (some x) contexts tasks jobs taskQueue running doneQueue pending
    computing doneJobs)
    (hx : (contexts.get x).isSome = true) :
    Work none contexts tasks (jobs.alloc ⟨x, false⟩) taskQueue running doneQueue
      (pending ++ [jobs.next]) computing doneJobs where
  covers := by
    have hfresh : opData tasks jobs (.inr jobs.next) = none := by
      rw [opData_inr, jobs.get_next]
      rfl
    rw [opData_job (jobs.get_alloc _)]
    refine (h.covers.add hfresh (by simp)).congr fun y => ?_
    by_cases hy : y = x
    · subst hy
      simp [hx]
    · simp [hy, Ne.symm hy]
  listedTasks := h.listedTasks
  listedJobs := by
    refine (h.listedJobs.add jobs.get_next (jobs.get_alloc _)).perm ?_
    rw [List.append_assoc, List.singleton_append]
    exact List.perm_middle.symm

/-- a new context, which is busy -/
theorem Work.hold {cx : Context}
    (h : Work none contexts tasks jobs taskQueue running doneQueue pending computing doneJobs) :
    Work (some contexts.next) (contexts.alloc cx) tasks jobs taskQueue running doneQueue pending
      computing doneJobs where
  covers := by
    refine h.covers.congr fun y => ?_
    rw [Arena.get_alloc]
    by_cases hy : y = contexts.next
    · subst hy
      rw [contexts.get_next]
      simp
    · rw [Function.update_of_ne hy]
      simp [Ne.symm hy]
  listedTasks := h.listedTasks
  listedJobs := h.listedJobs

end

/-! ## a request, and a context for it -/

section
variable {s : State} {k r x : Nat} {c : Connection} {q : Request} {cx : Context}

/-- a response is under way for a connection with a request only -/
theorem Answers.unbuffered {busy : Option Nat} {conns : Arena Connection} {requests : Arena Request}
    {headers : Arena Unit}
    {sent : List Sent} (h : Answers busy conns requests headers sent) (hk : conns.get k = some c)
    (hr : c.request = none) :
    c.outgoing = none := by
  cases ho : c.outgoing with
  | none => rfl
  | some o =>
    have hbody := (h.body k c o hk ho).1
    rw [hr] at hbody
    cases hbody

theorem Links.attach {conns conns' : Arena Connection} {requests : Arena Request}
    {contexts : Arena Context}
    (h : Links conns requests contexts) (hk : conns.get k = some c) (ho : c.isOpen = true)
    (hr : c.request = none)
    (hconns : conns'.get = Function.update conns.get k
      (some { c with request := some requests.next })) :
    Links conns' (requests.alloc ⟨some k, none⟩) contexts where
  attached := by
    rw [requestOf_update hconns, connOf_update (requests.get_alloc _)]
    refine h.attached.link ?_ ?_
    · unfold requestOf
      rw [hk]
      exact hr
    · unfold connOf
      rw [requests.get_next]
      rfl
  held := by
    rw [contextOf_update (requests.get_alloc _), Function.update_eq_self_iff.mpr]
    · exact h.held
    · unfold contextOf
      rw [requests.get_next]
      rfl
  kept r' q' hr' := by
    rw [Arena.get_alloc] at hr'
    by_cases hreq : r' = requests.next
    · rw [hreq, Function.update_self] at hr'
      cases hr'
      exact .inl (Option.some_ne_none _)
    · rw [Function.update_of_ne hreq] at hr'
      exact h.kept r' q' hr'
  closed j c' hj hclosed := by
    rw [hconns] at hj
    by_cases hjk : j = k
    · rw [hjk, Function.update_self] at hj
      cases hj
      rw [ho] at hclosed
      cases hclosed
    · rw [Function.update_of_ne hjk] at hj
      exact h.closed j c' hj hclosed

theorem Answers.attach {busy : Option Nat} {conns conns' : Arena Connection}
    {requests : Arena Request} {headers : Arena Unit}
    {contexts : Arena Context} {sent : List Sent} (h : Answers busy conns requests headers sent)
    (hlinks : Links conns requests contexts) (hk : conns.get k = some c) (hr : c.request = none)
    (hconns : conns'.get = Function.update conns.get k
      (some { c with request := some requests.next })) :
    Answers busy conns' (requests.alloc ⟨some k, none⟩) headers sent where
  headers := by
    rw [headerOf_update hconns, Function.update_eq_self_iff.mpr]
    · exact h.headers
    · unfold headerOf
      rw [hk]
      rfl
  body j c' o hj hout := by
    rw [hconns] at hj
    by_cases hjk : j = k
    · rw [hjk, Function.update_self] at hj
      cases hj
      rw [h.unbuffered hk hr] at hout
      cases hout
    · rw [Function.update_of_ne hjk] at hj
      obtain ⟨hbody, hcontext⟩ := h.body j c' o hj hout
      refine ⟨hbody, fun q' hq' => ?_⟩
      -- the new request is the body of no other response
      have hne : o.body ≠ requests.next := by
        intro heq
        have hreq : requestOf conns j = some o.body := by
          unfold requestOf
          rw [hj]
          exact hbody
        have hconn := hlinks.attached.left hreq
        unfold connOf at hconn
        rw [heq, requests.get_next] at hconn
        cases hconn
      rw [Arena.get_alloc, Function.update_of_ne hne] at hq'
      exact hcontext q' hq'
  onto := h.onto
  once := h.once
  born e he := Nat.lt_succ_of_lt (h.born e he)
  known e he j c' hj hrequest := by
    rw [hconns] at hj
    by_cases hjk : j = k
    · rw [hjk, Function.update_self] at hj
      cases hj
      exact absurd (Option.some.inj hrequest).symm (Nat.ne_of_lt (h.born e he))
    · rw [Function.update_of_ne hjk] at hj
      exact h.known e he j c' hj hrequest

/-- a client sends a request -/
theorem Safe.attach (h : Safe none s) (hk : s.conns.get k = some c) (ho : c.isOpen = true)
    (hr : c.request = none) {conns' : Arena Connection}
    (hconns : conns'.get = Function.update s.conns.get k
      (some { c with request := some s.requests.next })) :
    Safe none { s with conns := conns', requests := s.requests.alloc ⟨some k, none⟩ } where
  lists := Lists.write h.lists hk (by rfl) hconns
  links := h.links.attach hk ho hr hconns
  answers := h.answers.attach h.links hk hr hconns
  work := h.work
  disposed := h.disposed

theorem Links.hold {conns : Arena Connection} {requests requests' : Arena Request}
    {contexts : Arena Context}
    (h : Links conns requests contexts) (hq : requests.get r = some q) (hcontext : q.context = none)
    (hrequests : requests'.get = Function.update requests.get r
      (some { q with context := some contexts.next })) :
    Links conns requests' (contexts.alloc ⟨r⟩) where
  attached := by
    rw [connOf_update hrequests, Function.update_eq_self_iff.mpr]
    · exact h.attached
    · unfold connOf
      rw [hq]
      rfl
  held := by
    rw [contextOf_update hrequests, holderOf_update (contexts.get_alloc _)]
    refine h.held.link ?_ ?_
    · unfold contextOf
      rw [hq]
      exact hcontext
    · unfold holderOf
      rw [contexts.get_next]
      rfl
  kept r' q' hr' := by
    rw [hrequests] at hr'
    by_cases hreq : r' = r
    · rw [hreq, Function.update_self] at hr'
      cases hr'
      exact .inr (Option.some_ne_none _)
    · rw [Function.update_of_ne hreq] at hr'
      exact h.kept r' q' hr'
  closed := h.closed

theorem Answers.hold {conns : Arena Connection} {requests requests' : Arena Request}
    {headers : Arena Unit}
    {sent : List Sent} (h : Answers none conns requests headers sent)
    (hnext : requests'.next = requests.next)
    (hrequests : requests'.get = Function.update requests.get r (some { q with context := some x }))
    :
    Answers (some x) conns requests' headers sent where
  headers := h.headers
  body j c' o hj hout := by
    obtain ⟨hbody, hcontext⟩ := h.body j c' o hj hout
    refine ⟨hbody, fun q' hq' => ?_⟩
    rw [hrequests] at hq'
    by_cases hreq : o.body = r
    · rw [hreq, Function.update_self] at hq'
      cases hq'
      exact .inr rfl
    · rw [Function.update_of_ne hreq] at hq'
      exact .inl ((hcontext q' hq').elim id id)
  onto := h.onto
  once := h.once
  born e he := by
    rw [hnext]
    exact h.born e he
  known := h.known

/-- a request gets a context, whose first handler runs -/
theorem Safe.hold (h : Safe none s) (hq : s.requests.get r = some q) (hcontext : q.context = none)
    {requests' : Arena Request} (hnext : requests'.next = s.requests.next)
    (hrequests : requests'.get = Function.update s.requests.get r
      (some { q with context := some s.contexts.next })) :
    Safe (some s.contexts.next) { s with contexts := s.contexts.alloc ⟨r⟩, requests :=
      requests' } where
  lists := h.lists
  links := h.links.hold hq hcontext hrequests
  answers := h.answers.hold hnext hrequests
  work := h.work.hold
  disposed := h.disposed

/-- an operation for the context is about to be released -/
theorem Answers.begin {conns : Arena Connection} {requests : Arena Request} {headers : Arena Unit}
    {sent : List Sent} (h : Answers none conns requests headers sent) :
    Answers (some x) conns requests headers sent where
  headers := h.headers
  body j c' o hj hout := by
    obtain ⟨hbody, hcontext⟩ := h.body j c' o hj hout
    exact ⟨hbody, fun q' hq' => .inl ((hcontext q' hq').elim id id)⟩
  onto := h.onto
  once := h.once
  born := h.born
  known := h.known

/-- no response of the request is under way -/
def Idle (conns : Arena Connection) (r : Nat) : Prop :=
  ∀ k c, conns.get k = some c → c.request = some r → c.outgoing = none

theorem Safe.idle (h : Safe none s) (hx : s.contexts.get x = some cx) :
    Idle s.conns cx.request := by
  intro j c' hj hr
  cases hout : c'.outgoing with
  | none => rfl
  | some o =>
    obtain ⟨hbody, hcontext⟩ := h.answers.body j c' o hj hout
    have hholder : holderOf s.contexts x = some cx.request := by
      unfold holderOf
      rw [hx]
      rfl
    obtain ⟨q', hq', hheld⟩ := Option.bind_eq_some_iff.mp (h.links.held.right hholder)
    rw [Option.some.inj (hr.symm.trans hbody)] at hq'
    rcases hcontext q' hq' with hnone | hnone <;> rw [hheld] at hnone <;> cases hnone

/-- an operation was started for the context -/
theorem Answers.busy {conns : Arena Connection} {requests : Arena Request}
    {contexts : Arena Context} {headers : Arena Unit}
    {sent : List Sent} (h : Answers (some x) conns requests headers sent)
    (hlinks : Links conns requests contexts)
    (hx : contexts.get x = some cx) (hidle : Idle conns cx.request) :
    Answers none conns requests headers sent where
  headers := h.headers
  body j c' o hj hout := by
    obtain ⟨hbody, hcontext⟩ := h.body j c' o hj hout
    refine ⟨hbody, fun q' hq' => .inl ((hcontext q' hq').resolve_right fun hbusy => ?_)⟩
    have hheld : contextOf requests o.body = some x := by
      unfold contextOf
      rw [hq']
      exact hbusy
    have hholder := hlinks.held.left hheld
    unfold holderOf at hholder
    rw [hx] at hholder
    rw [hidle j c' hj (hbody.trans hholder.symm)] at hout
    cases hout
  onto := h.onto
  once := h.once
  born := h.born
  known := h.known

end

/-! ## the end of a handler -/

section
variable {s : State} {k x : Nat} {cx : Context} {q : Request}

/-- no connection was released -/
def Keeps (s s' : State) : Prop :=
  ∀ k, (s.conns.get k).isSome = true → (s'.conns.get k).isSome = true

/-- that, and the two lists change as they may -/
structure Onward (s s' : State) : Prop where
  keeps : Keeps s s'
  lists : Relation.ReflTransGen Change s.lists s'.lists

theorem Onward.refl (s : State) : Onward s s := ⟨fun k hk => hk, .refl⟩

theorem Onward.trans {s s' s'' : State} (h : Onward s s') (h' : Onward s' s'') : Onward s s'' where
  keeps k hk := h'.keeps k (h.keeps k hk)
  lists := h.lists.trans h'.lists

theorem Frame.onward {s s' : State} (h : Frame s s') : Onward s s' := ⟨h.conns, h.lists⟩

/-- what is true after a handler for the context `x`: it has answered, or an operation is under
way -/
structure Ended (s : State) (r : State × Bool) : Prop where
  answered : r.2 = true → r.1 = s
  started : r.2 = false → Safe none r.1
  conns : r.1.conns = s.conns
  lists : r.1.lists = s.lists

theorem Safe.endHandler (h : Safe (some x) s) (hx : s.contexts.get x = some cx)
    (hidle : Idle s.conns cx.request) (outcome : Outcome) : Ended s (endHandler s x outcome) := by
  have halive : (s.contexts.get x).isSome = true := by
    rw [hx]
    rfl
  have hanswers := h.answers.busy h.links hx hidle
  have hrefused : Ended s (s, true) := ⟨fun _ => rfl, fun hb => Bool.noConfusion hb, rfl, rfl⟩
  cases outcome with
  | answer => exact hrefused
  | query =>
    show Ended s (execQuery s x)
    unfold execQuery
    by_cases hstop : s.dbStop = true
    · rw [if_pos hstop]
      exact hrefused
    · rw [if_neg hstop]
      exact ⟨fun hb => Bool.noConfusion hb, fun _ =>
        ⟨h.lists, h.links, hanswers, h.work.query halive, h.disposed⟩, rfl, rfl⟩
  | submit =>
    show Ended s (submitPassword s x)
    unfold submitPassword
    by_cases hfull : s.stopped = true ∨ s.pending.length = PASSWORD_QUEUE_CAPACITY
    · rw [if_pos hfull]
      exact hrefused
    · rw [if_neg hfull]
      exact ⟨fun hb => Bool.noConfusion hb, fun _ =>
        ⟨h.lists, h.links, hanswers, h.work.submit halive, h.disposed⟩, rfl, rfl⟩

/-- the connection of a request is open -/
theorem Safe.connected {busy : Option Nat} {r : Nat} (h : Safe busy s)
    (hq : s.requests.get r = some q)
    (hconn : q.conn = some k) : ∃ c, s.conns.get k = some c ∧ c.isOpen = true ∧
    c.request = some r := by
  have hconnOf : connOf s.requests r = some k := by
    unfold connOf
    rw [hq]
    exact hconn
  obtain ⟨c, hk, hr⟩ := Option.bind_eq_some_iff.mp (h.links.attached.right hconnOf)
  refine ⟨c, hk, ?_, hr⟩
  by_contra hclosed
  rw [Bool.not_eq_true] at hclosed
  rw [h.links.closed k c hk hclosed] at hr
  cases hr

/-- **the answer of a context goes out and the context is released** -/
theorem Safe.finish (h : Safe (some x) s) (hx : s.contexts.get x = some cx)
    (hidle : Idle s.conns cx.request)
    (hq : s.requests.get cx.request = some q) (hconn : q.conn = some k) (sending : Sending) :
    ∃ s', finish s x sending = some s' ∧ Safe none s' ∧ Onward s s' := by
  obtain ⟨c, hk, ho, hr⟩ := h.connected hq hconn
  have hcontext : q.context = none ∨ q.context = some x := by
    have hholder : holderOf s.contexts x = some cx.request := by
      unfold holderOf
      rw [hx]
      rfl
    have hheld := h.links.held.right hholder
    unfold contextOf at hheld
    rw [hq] at hheld
    exact .inr hheld
  obtain ⟨s1, hsend, hsafe, hframe⟩ := h.startSend hk ho hr (hidle k c hk hr) hq hcontext sending
  have hx1 : s1.contexts.get x = some cx := by
    rw [hframe.contexts]
    exact hx
  obtain ⟨requests', contexts', disposed', hdispose, hsafe', -⟩ := hsafe.contextDispose hx1
  refine ⟨_, ?_, hsafe', hframe.conns, hframe.lists⟩
  unfold Server.finish
  simp only [Option.bind_eq_bind, hx, Option.bind_some, hq, hconn, hsend]
  exact hdispose

/-- what follows an operation of the context `x` for the request `q` -/
def continueContext (s : State) (x : Nat) (q : Request) (outcome : Outcome) (sending : Sending) :
    Option State :=
  if q.conn = none then httpRequestContextDispose s x
  else if (endHandler s x outcome).2 then finish (endHandler s x outcome).1 x sending
  else some (endHandler s x outcome).1

theorem Safe.continueContext (h : Safe (some x) s) (hx : s.contexts.get x = some cx)
    (hidle : Idle s.conns cx.request)
    (hq : s.requests.get cx.request = some q) (outcome : Outcome) (sending : Sending) :
    ∃ s', continueContext s x q outcome sending = some s' ∧ Safe none s' ∧ Onward s s' := by
  unfold Server.continueContext
  cases hconn : q.conn with
  | none =>
    obtain ⟨requests', contexts', disposed', hdispose, hsafe, -⟩ := h.contextDispose hx
    exact ⟨_, hdispose, hsafe, fun j hj => hj, .refl⟩
  | some k =>
    rw [if_neg (by simp)]
    obtain ⟨hanswered, hstarted, hconns, hlists⟩ := h.endHandler hx hidle outcome
    by_cases hb : (Server.endHandler s x outcome).2 = true
    · rw [if_pos hb, hanswered hb]
      exact h.finish hx hidle hq hconn sending
    · rw [if_neg hb]
      rw [Bool.not_eq_true] at hb
      refine ⟨_, rfl, hstarted hb, fun j hj => ?_, ?_⟩
      · rw [hconns]
        exact hj
      · rw [hlists]

end

/-! ## the handlers of the loop -/

section
variable {s : State} {k t j : Nat} {c : Connection}

/-- the context and the request of an operation -/
theorem Safe.operation {o : Nat ⊕ Nat} {x : Nat} (h : Safe none s)
    (ho : opData s.tasks s.jobs o = some x) :
    ∃ cx q, s.contexts.get x = some cx ∧ s.requests.get cx.request = some q ∧
      Idle s.conns cx.request := by
  obtain ⟨cx, hx⟩ := Option.isSome_iff_exists.mp (h.work.covers.value ho).1
  have hholder : holderOf s.contexts x = some cx.request := by
    unfold holderOf
    rw [hx]
    rfl
  obtain ⟨q, hq, -⟩ := Option.bind_eq_some_iff.mp (h.links.held.right hholder)
  exact ⟨cx, q, hx, hq, h.idle hx⟩

theorem dbHandlerTurn_eq {task : Task} {rest : List Nat} {tasks' : Arena Task} {cx : Context}
    {q : Request}
    (ht : s.tasks.get t = some task) (hfree : s.tasks.free t = some tasks')
    (hx : s.contexts.get task.data = some cx)
    (hq : s.requests.get cx.request = some q) (completion : Completion) :
    dbHandlerTurn s t rest completion =
      continueContext { s with doneQueue := rest, tasks := tasks' } task.data q completion.outcome
      completion.sending := by
  unfold dbHandlerTurn continueContext callHandler dbTaskFree
  simp only [Option.bind_eq_bind, ht, Option.bind_some, hx, hq, hfree]

/-- the first task that is done is released, and its context goes on -/
theorem Safe.doneTask {rest : List Nat} (h : Safe none s) (hdone : s.doneQueue = t :: rest) :
    ∃ x cx q tasks', Safe (some x) { s with doneQueue := rest, tasks := tasks' } ∧
    s.contexts.get x = some cx ∧
      s.requests.get cx.request = some q ∧ Idle s.conns cx.request ∧
      ∀ completion, dbHandlerTurn s t rest completion =
        Server.continueContext { s with doneQueue := rest, tasks := tasks' } x q completion.outcome
        completion.sending := by
  have hlisted := h.work.listedTasks
  rw [hdone] at hlisted
  obtain ⟨task, ht⟩ := hlisted.alive (i := t) (by simp)
  obtain ⟨cx, q, hx, hq, hidle⟩ := h.operation (o := .inl t) (x := task.data)
    (by rw [opData_inl, ht]; rfl)
  obtain ⟨tasks', hfree, htasks, -⟩ := Arena.free_alive ht
  have hwork := h.work
  rw [hdone] at hwork
  exact ⟨task.data, cx, q, tasks', ⟨h.lists, h.links, h.answers.begin, hwork.takeTask ht htasks,
    h.disposed⟩, hx, hq, hidle,
    dbHandlerTurn_eq ht hfree hx hq⟩

/-- **a task that is done: it is released, and its request is answered, goes on or is given up** -/
theorem Safe.dbHandlerTurn {rest : List Nat} (h : Safe none s) (hdone : s.doneQueue = t :: rest)
    (completion : Completion) :
    ∃ s', dbHandlerTurn s t rest completion = some s' ∧ Safe none s' ∧ Onward s s' := by
  obtain ⟨x, cx, q, tasks', hsafe, hx, hq, hidle, heq⟩ := h.doneTask hdone
  rw [heq]
  obtain ⟨s', hs', hsafe', honward⟩ := hsafe.continueContext hx hidle hq completion.outcome
    completion.sending
  exact ⟨s', hs', hsafe', honward.keeps, honward.lists⟩

/-- a job may be released before its handler has ended -/
theorem endHandler_passwordJobFree {job : Job} {jobs' : Arena Job} {x : Nat}
    (hj : s.jobs.get j = some job) (hfree : s.jobs.free j = some jobs') (outcome : Outcome) :
    passwordJobFree (endHandler s x outcome).1 j =
      some (endHandler { s with jobs := jobs' } x outcome).1 ∧
      (endHandler { s with jobs := jobs' } x outcome).2 = (endHandler s x outcome).2 := by
  have hplain : ∀ s1 : State, s1.jobs = s.jobs → passwordJobFree s1 j =
    some { s1 with jobs := jobs' } := by
    intro s1 h1
    unfold passwordJobFree
    simp only [Option.bind_eq_bind, h1, hfree, Option.bind_some]
  have hnext : jobs'.next = s.jobs.next := by
    obtain ⟨A, hA, -, hAnext⟩ := Arena.free_alive hj
    rw [hfree] at hA
    rw [Option.some.inj hA]
    exact hAnext
  cases outcome with
  | answer => exact ⟨hplain s rfl, rfl⟩
  | query =>
    by_cases hstop : s.dbStop = true
    · have h1 : endHandler s x .query = (s, true) := if_pos hstop
      have h2 : endHandler { s with jobs := jobs' } x .query = ({ s with jobs := jobs' }, true) :=
        if_pos hstop
      rw [h1, h2]
      exact ⟨hplain s rfl, rfl⟩
    · have h1 : endHandler s x .query = _ := if_neg hstop
      have h2 : endHandler { s with jobs := jobs' } x .query = _ := if_neg hstop
      rw [h1, h2]
      exact ⟨hplain _ rfl, rfl⟩
  | submit =>
    by_cases hfull : s.stopped = true ∨ s.pending.length = PASSWORD_QUEUE_CAPACITY
    · have h1 : endHandler s x .submit = (s, true) := if_pos hfull
      have h2 : endHandler { s with jobs := jobs' } x .submit = ({ s with jobs := jobs' }, true) :=
        if_pos hfull
      rw [h1, h2]
      exact ⟨hplain s rfl, rfl⟩
    · have h1 : endHandler s x .submit = _ := if_neg hfull
      have h2 : endHandler { s with jobs := jobs' } x .submit = _ := if_neg hfull
      rw [h1, h2]
      refine ⟨?_, rfl⟩
      unfold passwordJobFree
      simp only [Option.bind_eq_bind, Arena.free_alloc hj, hfree, Option.map_some,
        Option.bind_some, hnext]

theorem passwordWorkerHandlerTurn_eq {job : Job} {rest : List Nat} {jobs' : Arena Job}
    {cx : Context} {q : Request}
    (hj : s.jobs.get j = some job) (hfree : s.jobs.free j = some jobs')
    (hx : s.contexts.get job.data = some cx)
    (hq : s.requests.get cx.request = some q) (completion : Completion) :
    passwordWorkerHandlerTurn s j rest completion =
      continueContext { s with doneJobs := rest, jobs := jobs' } job.data q
        (if job.cancelled then .answer else completion.outcome) completion.sending := by
  obtain ⟨hend, hflag⟩ := endHandler_passwordJobFree (s := { s with doneJobs := rest })
    (x := job.data) hj hfree
    (if job.cancelled then .answer else completion.outcome)
  unfold passwordWorkerHandlerTurn continueContext
  simp only [Option.bind_eq_bind, hj, Option.bind_some, hx, hq]
  by_cases hconn : q.conn = none
  · rw [if_pos hconn, if_pos hconn]
    unfold passwordJobFree
    simp only [Option.bind_eq_bind, hfree, Option.bind_some]
  · rw [if_neg hconn, if_neg hconn, hflag]
    cases hcancelled : job.cancelled with
    | true =>
      rw [hcancelled] at hend
      simp only [if_true] at hend ⊢
      exact congrArg (Option.bind · _) hend
    | false =>
      have hcall : callHandler { s with doneJobs := rest } job.data none completion.outcome =
          some (endHandler { s with doneJobs := rest } job.data completion.outcome) := by
        unfold callHandler
        simp only [Option.bind_eq_bind, hx, Option.bind_some, hq]
      rw [hcancelled] at hend
      simp only [Bool.false_eq_true, if_false] at hend ⊢
      rw [hcall, Option.bind_some, hend, Option.bind_some]

/-- the first job that is done is released, and its context goes on -/
theorem Safe.doneJob {rest : List Nat} (h : Safe none s) (hdone : s.doneJobs = j :: rest) :
    ∃ x cx q, ∃ cancelled : Bool, ∃ jobs', Safe (some x) { s with doneJobs := rest, jobs := jobs' }
    ∧ s.contexts.get x = some cx ∧
      s.requests.get cx.request = some q ∧ Idle s.conns cx.request ∧
      ∀ completion, passwordWorkerHandlerTurn s j rest completion =
        Server.continueContext { s with doneJobs := rest, jobs := jobs' } x q
          (if cancelled then .answer else completion.outcome) completion.sending := by
  have hlisted := h.work.listedJobs
  rw [hdone] at hlisted
  obtain ⟨job, hj⟩ := hlisted.alive (i := j) (by simp)
  obtain ⟨cx, q, hx, hq, hidle⟩ := h.operation (o := .inr j) (x := job.data)
    (by rw [opData_inr, hj]; rfl)
  obtain ⟨jobs', hfree, hjobs, -⟩ := Arena.free_alive hj
  have hwork := h.work
  rw [hdone] at hwork
  exact ⟨job.data, cx, q, job.cancelled, jobs',
    ⟨h.lists, h.links, h.answers.begin, hwork.takeJob hj hjobs, h.disposed⟩,
    hx, hq, hidle, passwordWorkerHandlerTurn_eq hj hfree hx hq⟩

/-- **a job that is done: it is released, and its request is answered, goes on or is given up** -/
theorem Safe.passwordWorkerHandlerTurn {rest : List Nat} (h : Safe none s)
    (hdone : s.doneJobs = j :: rest) (completion : Completion) :
    ∃ s', passwordWorkerHandlerTurn s j rest completion = some s' ∧ Safe none s' ∧ Onward s s' := by
  obtain ⟨x, cx, q, cancelled, jobs', hsafe, hx, hq, hidle, heq⟩ := h.doneJob hdone
  rw [heq]
  obtain ⟨s', hs', hsafe', honward⟩ := hsafe.continueContext hx hidle hq
    (if cancelled then .answer else completion.outcome) completion.sending
  exact ⟨s', hs', hsafe', honward.keeps, honward.lists⟩

end

/-! ## a client sends -/

section
variable {s : State} {k r : Nat} {c : Connection} {q : Request}

/-- what `http_server_handle_request` leaves of the request -/
structure Handled (s : State) (r : Nat) (q : Request) (res : State × Bool) : Prop where
  safe : Safe none res.1
  conns : res.1.conns = s.conns
  lists : res.1.lists = s.lists
  complete : res.2 = true → res.1.requests.get r = some q

theorem Safe.httpServerHandleRequest (h : Safe none s) (hq : s.requests.get r = some q)
    (hconn : q.conn ≠ none)
    (hcontext : q.context = none) (hidle : Idle s.conns r) (routing : Routing) :
    ∃ res, httpServerHandleRequest s r routing = some res ∧ Handled s r q res := by
  unfold Server.httpServerHandleRequest
  by_cases hroute : routing.found = false ∨ routing.memory = false
  · rw [if_pos hroute]
    exact ⟨(s, true), rfl, h, rfl, rfl, fun _ => hq⟩
  rw [if_neg hroute]
  obtain ⟨requests', hset, hrequests, hnext⟩ :=
    Arena.set_alive hq { q with context := some s.contexts.next }
  let s1 : State := { s with contexts := s.contexts.alloc ⟨r⟩, requests := requests' }
  have hsafe : Safe (some s.contexts.next) s1 := h.hold hq hcontext hnext hrequests
  have hx : s1.contexts.get s.contexts.next = some ⟨r⟩ := by
    show (s.contexts.alloc ⟨r⟩).get _ = _
    rw [Arena.get_alloc, Function.update_self]
  have hq1 : s1.requests.get r = some { q with context := some s.contexts.next } := by
    show requests'.get r = _
    rw [hrequests, Function.update_self]
  have hcall : callHandler s1 s.contexts.next none routing.outcome =
    some (Server.endHandler s1 s.contexts.next routing.outcome) := by
    unfold callHandler
    simp only [Option.bind_eq_bind, hx, Option.bind_some, hq1]
  have hend := hsafe.endHandler hx hidle routing.outcome
  simp only [Option.bind_eq_bind, hq, Option.bind_some, hset]
  rw [show callHandler _ s.contexts.next none routing.outcome = _ from hcall, Option.bind_some]
  by_cases hb : (Server.endHandler s1 s.contexts.next routing.outcome).2 = true
  · -- the handler has answered at once: the context goes again
    obtain ⟨requests2, contexts2, disposed2, hdispose, hsafe2, q1, hq1', hreleased⟩ :=
      hsafe.contextDispose hx
    rw [if_pos hb, hend.answered hb, hdispose]
    refine ⟨_, rfl, hsafe2, rfl, rfl, fun _ => ?_⟩
    show requests2.get r = some q
    rw [hreleased.get, Function.update_self]
    rw [hq1] at hq1'
    cases hq1'
    rw [if_neg hconn]
    exact congrArg some (by rw [← hcontext])
  · rw [if_neg hb]
    rw [Bool.not_eq_true] at hb
    exact ⟨_, rfl, hend.started hb, hend.conns, hend.lists, fun htrue => Bool.noConfusion htrue⟩

/-- **`client_handler` on an open connection** -/
theorem Safe.clientHandler (h : Safe none s) (hk : s.conns.get k = some c) (ho : c.isOpen = true)
    (incoming : Incoming) :
    ∃ s', clientHandler s k incoming = some s' ∧ Safe none s' ∧ Onward s s' := by
  have hremove : ∃ s', Server.removeConnection s k = some s' ∧ Safe none s' ∧ Onward s s' := by
    obtain ⟨s', heq, hsafe, hframe, -⟩ := h.removeConnection hk ho
    exact ⟨s', heq, hsafe, hframe.onward⟩
  unfold Server.clientHandler
  simp only [Option.bind_eq_bind, hk, Option.bind_some]
  by_cases hwaits : c.request.isSome = true
  · rw [if_pos hwaits]
    by_cases hgone : incoming.gone = true
    · rw [if_pos hgone]
      exact hremove
    · rw [if_neg hgone]
      exact ⟨s, rfl, h, Onward.refl s⟩
  rw [if_neg hwaits]
  by_cases hmemory : incoming.memory = false
  · rw [if_pos hmemory]
    exact hremove
  rw [if_neg hmemory]
  have hr : c.request = none := Option.not_isSome_iff_eq_none.mp hwaits
  obtain ⟨conns', hset, hconns, -⟩ := Arena.set_alive hk { c with request := some s.requests.next }
  let s1 : State := { s with conns := conns', requests := s.requests.alloc ⟨some k, none⟩ }
  have hsafe : Safe none s1 := h.attach hk ho hr hconns
  have hk1 : s1.conns.get k = some { c with request := some s.requests.next } := by
    show conns'.get k = _
    rw [hconns, Function.update_self]
  have hq1 : s1.requests.get s.requests.next = some ⟨some k, none⟩ := by
    show (s.requests.alloc _).get _ = _
    rw [Arena.get_alloc, Function.update_self]
  have hnew : c.outgoing = none := h.answers.unbuffered hk hr
  have honward : Onward s s1 := by
    refine ⟨fun j hj => ?_, .refl⟩
    show (conns'.get j).isSome = true
    rw [hconns]
    by_cases hjk : j = k
    · rw [hjk, Function.update_self]
      rfl
    · rw [Function.update_of_ne hjk]
      exact hj
  simp only [hset, Option.bind_some]
  by_cases hvalid : incoming.valid = false
  · rw [if_pos hvalid]
    obtain ⟨s', hsend, hsafe', hframe⟩ := hsafe.startSend hk1 ho rfl hnew hq1 (.inl rfl)
      incoming.sending
    exact ⟨s', hsend, hsafe', honward.trans hframe.onward⟩
  rw [if_neg hvalid]
  have hidle : Idle s1.conns s.requests.next := by
    intro j c' hj hreq
    have hjk : j = k := by
      refine hsafe.links.attached.injective (b := s.requests.next) ?_ ?_
      · unfold requestOf
        rw [hj]
        exact hreq
      · unfold requestOf
        rw [hk1]
        rfl
    rw [hjk, hk1] at hj
    cases hj
    exact hnew
  obtain ⟨⟨s2, complete⟩, hhandle, hsafe2, hconns2, hlists2, hcomplete⟩ :=
    hsafe.httpServerHandleRequest hq1 (Option.some_ne_none _) rfl hidle incoming.routing
  have honward2 : Onward s s2 := by
    refine honward.trans ⟨fun j hj => ?_, ?_⟩
    · rw [show s2.conns = s1.conns from hconns2]
      exact hj
    · rw [show s2.lists = s1.lists from hlists2]
  rw [show Server.httpServerHandleRequest _ s.requests.next incoming.routing = _ from hhandle,
    Option.bind_some]
  cases complete with
  | false => exact ⟨s2, rfl, hsafe2, honward2⟩
  | true =>
    have hk2 : s2.conns.get k = some { c with request := some s.requests.next } := by
      rw [show s2.conns = s1.conns from hconns2]
      exact hk1
    obtain ⟨s', hsend, hsafe', hframe⟩ := hsafe2.startSend hk2 ho rfl hnew (hcomplete rfl)
      (.inl rfl) incoming.sending
    exact ⟨s', hsend, hsafe', honward2.trans hframe.onward⟩

end

/-! ## clients that come, and connections that are released -/

section
variable {s : State}

theorem Lists.accept {conns : Arena Connection} {clients retired : List Nat} {c : Connection}
    (h : Lists conns clients retired)
    (ho : c.isOpen = true) : Lists (conns.alloc c) (conns.next :: clients) retired where
  clients_nodup := by
    refine List.nodup_cons.mpr ⟨fun hmem => ?_, h.clients_nodup⟩
    obtain ⟨c', hc', -⟩ := (h.open_iff _).mp hmem
    rw [conns.get_next] at hc'
    cases hc'
  retired_nodup := h.retired_nodup
  open_iff j := by
    rw [List.mem_cons, h.open_iff, Arena.get_alloc]
    by_cases hj : j = conns.next
    · subst hj
      rw [Function.update_self]
      simp [ho]
    · rw [Function.update_of_ne hj]
      simp [hj]
  closed_iff j := by
    rw [h.closed_iff, Arena.get_alloc]
    by_cases hj : j = conns.next
    · subst hj
      rw [Function.update_self, conns.get_next]
      simp [ho]
    · rw [Function.update_of_ne hj]

/-- the invariant looks at the connections that are alive only -/
theorem Safe.congr_conns {busy : Option Nat} {conns' : Arena Connection} (h : Safe busy s)
    (hget : conns'.get = s.conns.get) :
    Safe busy { s with conns := conns' } := by
  have hrequest : requestOf conns' = requestOf s.conns := by
    unfold requestOf
    rw [hget]
  have hheader : headerOf conns' = headerOf s.conns := by
    unfold headerOf
    rw [hget]
  refine ⟨⟨h.lists.clients_nodup, h.lists.retired_nodup, fun k => ?_, fun k => ?_⟩,
    ⟨?_, h.links.held, h.links.kept, ?_⟩,
    ⟨?_, ?_, h.answers.onto, h.answers.once, h.answers.born, ?_⟩, h.work, h.disposed⟩
  · show _ ↔ ∃ c, conns'.get k = some c ∧ _
    rw [hget]
    exact h.lists.open_iff k
  · show _ ↔ ∃ c, conns'.get k = some c ∧ _
    rw [hget]
    exact h.lists.closed_iff k
  · show Paired (requestOf conns') _
    rw [hrequest]
    exact h.links.attached
  · show ∀ k c, conns'.get k = some c → _
    rw [hget]
    exact h.links.closed
  · show Covers (headerOf conns') _
    rw [hheader]
    exact h.answers.headers
  · show ∀ k c o, conns'.get k = some c → _
    rw [hget]
    exact h.answers.body
  · show ∀ e ∈ s.sent, ∀ k c, conns'.get k = some c → _
    rw [hget]
    exact h.answers.known

/-- **a client is accepted** -/
theorem Safe.acceptConnection (h : Safe none s) (registered : Bool) :
    ∃ s', acceptConnection s registered = some s' ∧ Safe none s' ∧ Onward s s' := by
  have hkeeps : ∀ j, (s.conns.get j).isSome = true →
    ((s.conns.alloc ⟨true, none, none⟩).get j).isSome = true := by
    intro j hj
    rw [Arena.get_alloc]
    by_cases hjn : j = s.conns.next
    · rw [hjn, Function.update_self]
      rfl
    · rw [Function.update_of_ne hjn]
      exact hj
  unfold Server.acceptConnection
  cases registered with
  | true =>
    rw [if_pos rfl]
    refine ⟨_, rfl, ⟨h.lists.accept rfl, ⟨?_, h.links.held, h.links.kept, ?_⟩,
      ⟨?_, ?_, h.answers.onto, h.answers.once, h.answers.born, ?_⟩, h.work, h.disposed⟩, hkeeps,
        .single (.accept ?_ ?_)⟩
    · show Paired (requestOf (s.conns.alloc _)) _
      rw [requestOf_update (s.conns.get_alloc _), Function.update_eq_self_iff.mpr]
      · exact h.links.attached
      · unfold requestOf
        rw [s.conns.get_next]
        rfl
    · intro j c hj hclosed
      rw [Arena.get_alloc] at hj
      by_cases hjn : j = s.conns.next
      · rw [hjn, Function.update_self] at hj
        cases hj
        cases hclosed
      · rw [Function.update_of_ne hjn] at hj
        exact h.links.closed j c hj hclosed
    · show Covers (headerOf (s.conns.alloc _)) _
      rw [headerOf_update (s.conns.get_alloc _), Function.update_eq_self_iff.mpr]
      · exact h.answers.headers
      · unfold headerOf
        rw [s.conns.get_next]
        rfl
    · intro j c o hj hout
      rw [Arena.get_alloc] at hj
      by_cases hjn : j = s.conns.next
      · rw [hjn, Function.update_self] at hj
        cases hj
        cases hout
      · rw [Function.update_of_ne hjn] at hj
        exact h.answers.body j c o hj hout
    · intro e he j c hj hreq
      rw [Arena.get_alloc] at hj
      by_cases hjn : j = s.conns.next
      · rw [hjn, Function.update_self] at hj
        cases hj
        cases hreq
      · rw [Function.update_of_ne hjn] at hj
        exact h.answers.known e he j c hj hreq
    · intro hmem
      obtain ⟨c, hc, -⟩ := (h.lists.open_iff _).mp hmem
      rw [s.conns.get_next] at hc
      cases hc
    · intro hmem
      obtain ⟨c, hc, -⟩ := (h.lists.closed_iff _).mp hmem
      rw [s.conns.get_next] at hc
      cases hc
  | false =>
    have hnew : (s.conns.alloc ⟨true, none, none⟩).get s.conns.next = some ⟨true, none, none⟩ := by
      rw [Arena.get_alloc, Function.update_self]
    obtain ⟨conns', hfree, hconns, -⟩ := Arena.free_alive hnew
    have hget : conns'.get = s.conns.get := by
      rw [hconns, Arena.get_alloc, Function.update_idem]
      exact Function.update_eq_self_iff.mpr s.conns.get_next.symm
    rw [if_neg (by decide)]
    simp only [Option.bind_eq_bind, hfree, Option.bind_some]
    refine ⟨_, rfl, h.congr_conns hget, fun j hj => ?_, .refl⟩
    show (conns'.get j).isSome = true
    rw [hget]
    exact hj

theorem freeConnections_spec (l : List Nat) (conns : Arena Connection) (hl : l.Nodup)
    (halive : ∀ k ∈ l, (conns.get k).isSome = true) :
    ∃ conns', freeConnections l conns = some conns' ∧ ∀ k, conns'.get k = if k ∈ l then none else
      conns.get k := by
  induction l generalizing conns with
  | nil => exact ⟨conns, rfl, fun k => (if_neg List.not_mem_nil).symm⟩
  | cons a l ih =>
    obtain ⟨hal, hl'⟩ := List.nodup_cons.mp hl
    obtain ⟨c, hc⟩ := Option.isSome_iff_exists.mp (halive a List.mem_cons_self)
    obtain ⟨conns1, hfree, hget, -⟩ := Arena.free_alive hc
    have halive1 : ∀ k ∈ l, (conns1.get k).isSome = true := by
      intro k hk
      rw [hget, Function.update_of_ne]
      · exact halive k (List.mem_cons_of_mem _ hk)
      · rintro rfl
        exact hal hk
    obtain ⟨conns', hrest, hspec⟩ := ih conns1 hl' halive1
    refine ⟨conns', ?_, fun k => ?_⟩
    · unfold freeConnections
      rw [hfree, Option.bind_some, hrest]
    · rw [hspec, hget]
      by_cases hka : k = a
      · subst hka
        rw [if_neg hal, if_pos List.mem_cons_self, Function.update_self]
      · rw [Function.update_of_ne hka]
        simp [hka]

/-- **the removed connections are released** -/
theorem Safe.reapConnections (h : Safe none s) :
    ∃ conns', reapConnections s = some { s with conns := conns', retired := [] } ∧
      Safe none { s with conns := conns', retired := [] } := by
  obtain ⟨conns', hfree, hget⟩ := freeConnections_spec s.retired s.conns h.lists.retired_nodup
    fun k hk => by
    obtain ⟨c, hc, -⟩ := (h.lists.closed_iff k).mp hk
    rw [hc]
    rfl
  -- a connection that was released had no request and no response
  have hcases : ∀ k c, conns'.get k = some c → s.conns.get k = some c ∧ k ∉ s.retired := by
    intro k c hk
    rw [hget] at hk
    by_cases hret : k ∈ s.retired
    · rw [if_pos hret] at hk
      cases hk
    · rw [if_neg hret] at hk
      exact ⟨hk, hret⟩
  have hclosed : ∀ k ∈ s.retired, s.conns.get k = some ⟨false, none, none⟩ := by
    intro k hk
    obtain ⟨c, hc, hopen⟩ := (h.lists.closed_iff k).mp hk
    rw [hc, h.links.closed k c hc hopen]
  have hrequest : requestOf conns' = requestOf s.conns := by
    funext k
    unfold requestOf
    rw [hget]
    by_cases hret : k ∈ s.retired
    · rw [if_pos hret, hclosed k hret]
      rfl
    · rw [if_neg hret]
  have hheader : headerOf conns' = headerOf s.conns := by
    funext k
    unfold headerOf
    rw [hget]
    by_cases hret : k ∈ s.retired
    · rw [if_pos hret, hclosed k hret]
      rfl
    · rw [if_neg hret]
  refine ⟨conns', ?_, ⟨⟨h.lists.clients_nodup, List.nodup_nil, fun k => ?_, fun k => ?_⟩,
    ⟨?_, h.links.held, h.links.kept, ?_⟩,
    ⟨?_, ?_, h.answers.onto, h.answers.once, h.answers.born, ?_⟩, h.work, h.disposed⟩⟩
  · unfold Server.reapConnections
    simp only [Option.bind_eq_bind, hfree, Option.bind_some]
  · show k ∈ s.clients ↔ ∃ c, conns'.get k = some c ∧ c.isOpen = true
    rw [h.lists.open_iff]
    constructor
    · rintro ⟨c, hc, ho⟩
      refine ⟨c, ?_, ho⟩
      rw [hget, if_neg]
      · exact hc
      · intro hret
        rw [hclosed k hret] at hc
        cases hc
        cases ho
    · rintro ⟨c, hc, ho⟩
      exact ⟨c, (hcases k c hc).1, ho⟩
  · show k ∈ [] ↔ ∃ c, conns'.get k = some c ∧ c.isOpen = false
    constructor
    · intro hk
      cases hk
    · rintro ⟨c, hc, ho⟩
      exact absurd ((h.lists.closed_iff k).mpr ⟨c, (hcases k c hc).1, ho⟩) (hcases k c hc).2
  · show Paired (requestOf conns') _
    rw [hrequest]
    exact h.links.attached
  · exact fun k c hk => h.links.closed k c (hcases k c hk).1
  · show Covers (headerOf conns') _
    rw [hheader]
    exact h.answers.headers
  · exact fun k c o hk => h.answers.body k c o (hcases k c hk).1
  · exact fun e he k c hk => h.answers.known e he k c (hcases k c hk).1

end

/-! ## the threads -/

section
variable {s : State}

/-- the thread of the pool takes a task -/
theorem Safe.dbTake {t : Nat} {rest : List Nat} (h : Safe none s)
    (hqueue : s.taskQueue = t :: rest) :
    dbTake s = some { s with taskQueue := rest, running := s.running ++ [t] } ∧
      Safe none { s with taskQueue := rest, running := s.running ++ [t] } := by
  have hlisted := h.work.listedTasks
  rw [hqueue] at hlisted
  obtain ⟨task, ht⟩ := hlisted.alive (i := t) (by simp)
  refine ⟨?_, h.lists, h.links, h.answers,
    ⟨h.work.covers, hlisted.perm ?_, h.work.listedJobs⟩, h.disposed⟩
  · unfold Server.dbTake
    simp only [hqueue, Option.bind_eq_bind, ht, Option.bind_some]
  · show ((t :: rest) ++ (s.running ++ s.doneQueue)).Perm
      (rest ++ ((s.running ++ [t]) ++ s.doneQueue))
    rw [List.append_assoc s.running, List.singleton_append, ← List.append_assoc rest,
      List.cons_append, ← List.append_assoc]
    exact List.perm_middle.symm

/-- a task gets its result -/
theorem Safe.dbDone {t : Nat} (h : Safe none s) (hrunning : t ∈ s.running) :
    dbDone s t = some { s with running := s.running.erase t, doneQueue := s.doneQueue ++ [t] } ∧
      Safe none { s with running := s.running.erase t, doneQueue := s.doneQueue ++ [t] } := by
  have hlisted := h.work.listedTasks
  obtain ⟨task, ht⟩ := hlisted.alive (i := t) (by simp [hrunning])
  refine ⟨?_, h.lists, h.links, h.answers,
    ⟨h.work.covers, hlisted.perm ?_, h.work.listedJobs⟩, h.disposed⟩
  · unfold Server.dbDone
    simp only [Option.bind_eq_bind, ht, Option.bind_some]
  · show (s.taskQueue ++ (s.running ++ s.doneQueue)).Perm
      (s.taskQueue ++ (s.running.erase t ++ (s.doneQueue ++ [t])))
    refine List.Perm.append_left _ ?_
    calc s.running ++ s.doneQueue
        _ |>.Perm (t :: s.running.erase t ++ s.doneQueue) :=
        (List.perm_cons_erase hrunning).append_right _
        _ |>.Perm ((s.running.erase t ++ s.doneQueue) ++ [t]) :=
          (List.perm_append_singleton t _).symm
        _ = s.running.erase t ++ (s.doneQueue ++ [t]) := List.append_assoc ..

/-- the password worker takes a job -/
theorem Safe.jobTake {j : Nat} {rest : List Nat} (h : Safe none s) (hidle : s.computing = none)
    (hqueue : s.pending = j :: rest) :
    jobTake s = some { s with pending := rest, computing := some j } ∧
      Safe none { s with pending := rest, computing := some j } := by
  have hlisted := h.work.listedJobs
  rw [hqueue, hidle] at hlisted
  obtain ⟨job, hj⟩ := hlisted.alive (i := j) (by simp)
  refine ⟨?_, h.lists, h.links, h.answers,
    ⟨h.work.covers, h.work.listedTasks, hlisted.perm ?_⟩, h.disposed⟩
  · unfold Server.jobTake
    simp only [hqueue, Option.bind_eq_bind, hj, Option.bind_some]
  · exact List.perm_middle.symm

/-- a job gets its result -/
theorem Safe.jobDone {j : Nat} (h : Safe none s) (hcomputing : s.computing = some j) :
    jobDone s = some { s with computing := none, doneJobs := s.doneJobs ++ [j] } ∧
      Safe none { s with computing := none, doneJobs := s.doneJobs ++ [j] } := by
  have hlisted := h.work.listedJobs
  rw [hcomputing] at hlisted
  obtain ⟨job, hj⟩ := hlisted.alive (i := j) (by simp)
  refine ⟨?_, h.lists, h.links, h.answers,
    ⟨h.work.covers, h.work.listedTasks, hlisted.perm ?_⟩, h.disposed⟩
  · unfold Server.jobDone
    simp only [hcomputing, Option.bind_eq_bind, hj, Option.bind_some]
  · exact List.Perm.append_left _ (List.perm_append_singleton j s.doneJobs).symm

theorem cancelJobs_spec (l : List Nat) (jobs : Arena Job)
    (halive : ∀ j ∈ l, (jobs.get j).isSome = true) :
    ∃ jobs', cancelJobs l jobs = some jobs' ∧ ∀ j, (jobs'.get j).map Job.data = (jobs.get j).map
      Job.data := by
  induction l generalizing jobs with
  | nil => exact ⟨jobs, rfl, fun j => rfl⟩
  | cons a l ih =>
    obtain ⟨job, ha⟩ := Option.isSome_iff_exists.mp (halive a List.mem_cons_self)
    obtain ⟨jobs1, hset, hget, -⟩ := Arena.set_alive ha { job with cancelled := true }
    have hdata : ∀ j, (jobs1.get j).map Job.data = (jobs.get j).map Job.data := by
      intro j
      rw [hget]
      by_cases hj : j = a
      · rw [hj, Function.update_self, ha]
        rfl
      · rw [Function.update_of_ne hj]
    have halive1 : ∀ j ∈ l, (jobs1.get j).isSome = true := by
      intro j hj
      have hsome := halive j (List.mem_cons_of_mem _ hj)
      rw [← Option.isSome_map (f := Job.data)] at hsome ⊢
      rw [hdata]
      exact hsome
    obtain ⟨jobs', hrest, hspec⟩ := ih jobs1 halive1
    refine ⟨jobs', ?_, fun j => (hspec j).trans (hdata j)⟩
    unfold cancelJobs
    simp only [Option.bind_eq_bind, ha, Option.bind_some, hset, hrest]

/-- **`password_worker_stop` cancels what is pending** -/
theorem Safe.passwordWorkerStop (h : Safe none s) :
    ∃ jobs', passwordWorkerStop s =
        some { s with stopped := true, jobs := jobs', pending := [], doneJobs :=
          s.doneJobs ++ s.pending } ∧
      Safe none { s with stopped := true, jobs := jobs', pending := [], doneJobs :=
        s.doneJobs ++ s.pending } := by
  obtain ⟨jobs', hcancel, hdata⟩ := cancelJobs_spec s.pending s.jobs fun j hj =>
    (h.work.listedJobs.mem_iff j).mp (List.mem_append_left _ hj)
  have hop : opData s.tasks jobs' = opData s.tasks s.jobs := by
    funext o
    cases o with
    | inl t => rfl
    | inr j =>
      have hj := hdata j
      rw [Option.map_eq_bind, Option.map_eq_bind] at hj
      exact hj
  refine ⟨jobs', ?_, h.lists, h.links, h.answers, ⟨?_, h.work.listedTasks, ?_⟩, h.disposed⟩
  · unfold Server.passwordWorkerStop
    simp only [Option.bind_eq_bind, hcancel, Option.bind_some]
  · show Covers (opData s.tasks jobs') _
    rw [hop]
    exact h.work.covers
  · refine (h.work.listedJobs.congr fun j => ?_).perm ?_
    · rw [← Option.isSome_map (f := Job.data), hdata, Option.isSome_map]
    · exact List.perm_append_comm.trans (by rw [List.append_assoc]; exact List.Perm.refl _)

end

/-! ## when no client is left -/

section
variable {s : State}

/-- no client, no connection of a request -/
theorem Safe.orphan {busy : Option Nat} {r : Nat} {q : Request} (h : Safe busy s)
    (hclients : s.clients = []) (hq : s.requests.get r = some q) : q.conn = none := by
  cases hconn : q.conn with
  | none => rfl
  | some k =>
    obtain ⟨c, hk, ho, -⟩ := h.connected hq hconn
    have hmem := (h.lists.open_iff k).mpr ⟨c, hk, ho⟩
    rw [hclients] at hmem
    cases hmem

/-- **a completion without clients only releases** -/
theorem Safe.dbHandlerTurn_orphan {t : Nat} {rest : List Nat} (h : Safe none s)
    (hclients : s.clients = []) (hdone : s.doneQueue = t :: rest) (completion : Completion) :
    ∃ tasks' requests' contexts' disposed', Server.dbHandlerTurn s t rest completion =
      some { s with
        doneQueue := rest, tasks := tasks', requests := requests', contexts := contexts',
        disposed := disposed' } ∧
      Safe none { s with
        doneQueue := rest, tasks := tasks', requests := requests', contexts :=
        contexts', disposed := disposed' } := by
  obtain ⟨x, cx, q, tasks', hsafe, hx, hq, hidle, heq⟩ := h.doneTask hdone
  obtain ⟨requests', contexts', disposed', hdispose, hsafe', -⟩ := hsafe.contextDispose hx
  refine ⟨tasks', requests', contexts', disposed', ?_, hsafe'⟩
  rw [heq]
  unfold Server.continueContext
  rw [if_pos (h.orphan hclients hq)]
  exact hdispose

/-- the same of a password job -/
theorem Safe.passwordWorkerHandlerTurn_orphan {j : Nat} {rest : List Nat} (h : Safe none s)
    (hclients : s.clients = []) (hdone : s.doneJobs = j :: rest) (completion : Completion) :
    ∃ jobs' requests' contexts' disposed', Server.passwordWorkerHandlerTurn s j rest completion =
      some { s with
        doneJobs := rest, jobs := jobs', requests := requests', contexts := contexts',
        disposed := disposed' } ∧
      Safe none { s with
        doneJobs := rest, jobs := jobs', requests := requests', contexts := contexts', disposed :=
        disposed' } := by
  obtain ⟨x, cx, q, cancelled, jobs', hsafe, hx, hq, hidle, heq⟩ := h.doneJob hdone
  obtain ⟨requests', contexts', disposed', hdispose, hsafe', -⟩ := hsafe.contextDispose hx
  refine ⟨jobs', requests', contexts', disposed', ?_, hsafe'⟩
  rw [heq]
  unfold Server.continueContext
  rw [if_pos (h.orphan hclients hq)]
  exact hdispose

end

end Server
