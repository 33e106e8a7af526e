import CtfServer.System.World

/-!
# Requests and their operations

In every state of the server the operations that are under way for a request are those its
state waits for, and what its trace says about statements is what was executed for it.

* `LinkedAt`      the link of one request;
* `Linked`        the link of all of them, and the history of the database;
* `Run.linked`    **it holds in every state of the server**.
-/

set_option linter.unusedVariables false
set_option linter.unusedSimpArgs false

namespace System

open App Store

/-! ## the operations of a request -/

section
variable (w : World) (id : Nat)

/-- the operations under way for request `id` -/
def World.opsFor : List Op :=
  ((w.tasks.filter fun t => t.data == id).map fun t => .db t.query) ++
    ((w.done.filter fun t => t.data == id).map fun t => .db t.query) ++
    ((w.pending.filter fun j => j.data == id).map fun j => .password j.job) ++
    ((w.running.toList.filter fun j => j.data == id).map fun j => .password j.job) ++
    ((w.doneJobs.filter fun j => j.data == id).map fun j => .password j.job)

/-- the executions of the log -/
def executions (log : List Entry) : List Execution :=
  log.filterMap fun
    | .exec x => some x
    | .call _ _ => none

/-- the executions for request `id` -/
def World.execsFor : List Execution := (executions w.log).filter fun x => x.id == id

/-- the executed statements of request `id` that it does not know of -/
def World.undelivered : List (Query × DbResult) :=
  (w.done.filter fun t => t.data == id).map fun t => (t.query, t.result)

end

/-- statement and result of an execution -/
def Execution.effect (x : Execution) : Query × DbResult := (x.query, x.result)

theorem executions_append (a b : List Entry) :
    executions (a ++ b) = executions a ++ executions b := by
  simp [executions]

section
variable (lib : AuthLib) (runtime : Runtime) (dateFormat : Int → Bytes) (meets : Nat → Env → Prop)

/-! ## the link -/

/-- the link of one request -/
structure LinkedTo (meets : Env → Prop) (client : Client) (ops : List Op) (execs : List Execution)
    (undelivered : List (Query × DbResult)) : Prop where
  reach : Reach lib runtime meets client.request client.state
  ops : ops.Perm client.state.pending
  execs : execs.map Execution.effect = executed client.state.trace ++ undelivered

/-- the same for a number that may not be in use yet -/
def LinkedAt (w : World) (id : Nat) : Prop :=
  match w.clients id with
  | none => w.opsFor id = [] ∧ w.execsFor id = []
  | some client =>
    LinkedTo lib runtime (meets id) client (w.opsFor id) (w.execsFor id) (w.undelivered id)

structure Linked (db : Db) (w : World) : Prop where
  at_ : ∀ id, LinkedAt lib runtime meets w id
  chained : History.Chained Execution.before Execution.after db (executions w.log) w.db
  sound : ∀ x ∈ executions w.log, Exec dateFormat x.now x.query x.before x.result x.after

end

section
variable {lib : AuthLib} {passwords : PasswordLib} {runtime : Runtime} {dateFormat : Int → Bytes}
  {meets : Nat → Env → Prop}

/-- what the link of a request looks at -/
theorem LinkedAt.frame {w w' : World} {id : Nat} (h : LinkedAt lib runtime meets w id)
    (hc : w'.clients id = w.clients id) (hops : (w'.opsFor id).Perm (w.opsFor id))
    (hex : w'.execsFor id = w.execsFor id) (hun : w'.undelivered id = w.undelivered id) :
    LinkedAt lib runtime meets w' id := by
  unfold LinkedAt at h ⊢
  rw [hc, hex, hun]
  cases hcl : w.clients id with
  | none =>
    rw [hcl] at h
    exact ⟨(h.1 ▸ hops).eq_nil, h.2⟩
  | some client =>
    rw [hcl] at h
    exact ⟨h.reach, hops.trans h.ops, h.execs⟩

theorem tasksOf_data {id : Nat} {events : List Event} {t : Task} (h : t ∈ tasksOf id events) :
    t.data = id := by
  simp only [tasksOf, List.mem_filterMap] at h
  obtain ⟨e, -, he⟩ := h
  split at he <;> cases he
  rfl

theorem jobsOf_data {id : Nat} {events : List Event} {j : Job} (h : j ∈ jobsOf id events) :
    j.data = id := by
  simp only [jobsOf, List.mem_filterMap] at h
  obtain ⟨e, -, he⟩ := h
  split at he <;> cases he
  rfl

/-- the operations of the events of a call -/
theorem opsOf_perm (id : Nat) (events : List Event) :
    ((tasksOf id events).map (fun t => Op.db t.query) ++ (jobsOf id events).map fun j =>
      Op.password j.job).Perm
      (opsOf events) := by
  induction events with
  | nil => exact .refl _
  | cons e l ih =>
    cases e with
    | query q => exact ih.cons _
    | submit job => exact List.perm_middle.trans (ih.cons _)
    | _ => exact ih

section
variable (w : World) (id : Nat) (client : Client) (events : List Event)

theorem opsFor_settle : ((w.settle id client events).opsFor id).Perm
    (w.opsFor id ++ opsOf events) := by
  have ht : (tasksOf id events).filter (fun t => t.data == id) = tasksOf id events :=
    List.filter_eq_self.2 fun t h => beq_iff_eq.2 (tasksOf_data h)
  have hj : (jobsOf id events).filter (fun j => j.data == id) = jobsOf id events :=
    List.filter_eq_self.2 fun j h => beq_iff_eq.2 (jobsOf_data h)
  rw [List.perm_iff_count]
  intro op
  have hops := (opsOf_perm id events).count_eq op
  simp only [World.opsFor, World.settle, List.filter_append, List.map_append, List.count_append, ht,
    hj] at hops ⊢
  omega

theorem opsFor_settle_ne {id' : Nat} (h : id' ≠ id) :
    (w.settle id client events).opsFor id' = w.opsFor id' := by
  have ht : (tasksOf id events).filter (fun t => t.data == id') = [] :=
    List.filter_eq_nil_iff.2 fun t ht => by rw [tasksOf_data ht]; simpa using Ne.symm h
  have hj : (jobsOf id events).filter (fun j => j.data == id') = [] :=
    List.filter_eq_nil_iff.2 fun j hj => by rw [jobsOf_data hj]; simpa using Ne.symm h
  simp only [World.opsFor, World.settle, List.filter_append, ht, hj, List.append_nil]

theorem execsFor_settle (id' : Nat) :
    (w.settle id client events).execsFor id' = w.execsFor id' := by
  simp [World.execsFor, World.settle, executions]

/-- a call leaves the other requests alone -/
theorem LinkedAt.settle_ne {w : World} {id id' : Nat} {client : Client} {events : List Event}
    (hne : id' ≠ id)
    (h : LinkedAt lib runtime meets w id') :
    LinkedAt lib runtime meets (w.settle id client events) id' :=
  h.frame (by simp only [World.settle, Function.update_of_ne hne])
    (by rw [opsFor_settle_ne w id client events hne]) (execsFor_settle w id client events id') rfl

/-- a call of a request whose new state fits what is left -/
theorem LinkedAt.settle_self {w : World} {id : Nat} {client : Client} {events : List Event}
    (h : LinkedTo lib runtime (meets id) client (w.opsFor id ++ opsOf events) (w.execsFor id)
      (w.undelivered id)) :
    LinkedAt lib runtime meets (w.settle id client events) id := by
  unfold LinkedAt
  simp only [World.settle, Function.update_self]
  exact ⟨h.reach, (opsFor_settle w id client events).trans h.ops, by
    have := execsFor_settle w id client events id
    simp only [World.settle] at this
    rw [this]
    exact h.execs⟩

end

/-! ## what is taken off a queue -/

theorem opsFor_done {w : World} {t : DoneTask} {rest : List DoneTask} (h : w.done = t :: rest) :
    (w.opsFor t.data).Perm (.db t.query :: ({ w with done := rest } : World).opsFor t.data) := by
  rw [List.perm_iff_count]
  intro op
  simp only [World.opsFor, h, List.filter_cons, beq_self_eq_true, if_true, List.map_cons,
    List.count_append,
    List.count_cons]
  omega

theorem opsFor_done_ne {w : World} {t : DoneTask} {rest : List DoneTask}
    (h : w.done = t :: rest) {id : Nat}
    (hne : id ≠ t.data) : ({ w with done := rest } : World).opsFor id = w.opsFor id := by
  have hb : (t.data == id) = false := beq_eq_false_iff_ne.2 hne.symm
  simp only [World.opsFor, h, List.filter_cons, hb, Bool.false_eq_true, if_false]

theorem opsFor_doneJobs {w : World} {j : DoneJob} {rest : List DoneJob}
    (h : w.doneJobs = j :: rest) :
    (w.opsFor j.data).Perm (.password j.job :: ({ w with doneJobs := rest } : World).opsFor
      j.data) := by
  rw [List.perm_iff_count]
  intro op
  simp only [World.opsFor, h, List.filter_cons, beq_self_eq_true, if_true, List.map_cons,
    List.count_append,
    List.count_cons]
  omega

theorem opsFor_doneJobs_ne {w : World} {j : DoneJob} {rest : List DoneJob}
    (h : w.doneJobs = j :: rest) {id : Nat}
    (hne : id ≠ j.data) : ({ w with doneJobs := rest } : World).opsFor id = w.opsFor id := by
  have hb : (j.data == id) = false := beq_eq_false_iff_ne.2 hne.symm
  simp only [World.opsFor, h, List.filter_cons, hb, Bool.false_eq_true, if_false]

/-- a completed task is one that its request waits for -/
theorem LinkedTo.delivered {met : Env → Prop} {client : Client} {ops : List Op} {op : Op}
    {rest : List Op} {execs : List Execution}
    {un : List (Query × DbResult)} (h : LinkedTo lib runtime met client ops execs un)
    (hops : ops.Perm (op :: rest)) :
    op ∈ client.state.pending ∧ rest.Perm (client.state.pending.erase op) := by
  have hp := hops.symm.trans h.ops
  exact ⟨hp.subset List.mem_cons_self, by simpa using hp.erase op⟩

/-! ## the steps -/

theorem Linked.client {db : Db} {w : World} {id : Nat} {client : Client}
    (h : Linked lib runtime dateFormat meets db w) (hc : w.clients id = some client) :
    LinkedTo lib runtime (meets id) client (w.opsFor id) (w.execsFor id) (w.undelivered id) := by
  have := h.at_ id
  unfold LinkedAt at this
  rw [hc] at this
  exact this

/-- a call that is about a request, after its operation was taken off a queue -/
theorem Linked.settle {db : Db} {w w1 : World} {id : Nat} {client : Client} {events : List Event}
    (h : Linked lib runtime dateFormat meets db w) (hdb : w1.db = w.db) (hlog : w1.log = w.log)
    (hother : ∀ id', id' ≠ id → LinkedAt lib runtime meets w1 id')
    (hself : LinkedTo lib runtime (meets id) client (w1.opsFor id ++ opsOf events) (w1.execsFor id)
      (w1.undelivered id)) :
    Linked lib runtime dateFormat meets db (w1.settle id client events) := by
  have hlog' : executions (w1.settle id client events).log = executions w.log := by
    simp only [World.settle, executions_append, hlog]
    simp [executions]
  refine ⟨fun id' => ?_, ?_, ?_⟩
  · by_cases hid : id' = id
    · subst hid
      exact LinkedAt.settle_self hself
    · exact (hother id' hid).settle_ne hid
  · rw [hlog']
    simpa only [World.settle, hdb] using h.chained
  · rw [hlog']
    exact h.sound

/-- the same without a call -/
theorem Linked.put {db : Db} {w w1 : World} {id : Nat} {client : Client}
    (h : Linked lib runtime dateFormat meets db w) (hdb : w1.db = w.db) (hlog : w1.log = w.log)
    (hother : ∀ id', id' ≠ id → LinkedAt lib runtime meets w1 id')
    (hself : LinkedTo lib runtime (meets id) client (w1.opsFor id) (w1.execsFor id)
      (w1.undelivered id)) :
    Linked lib runtime dateFormat meets db (w1.put id client) := by
  refine ⟨fun id' => ?_, ?_, ?_⟩
  · by_cases hid : id' = id
    · subst hid
      unfold LinkedAt
      simp only [World.put, Function.update_self]
      exact hself
    · exact (hother id' hid).frame (by simp only [World.put, Function.update_of_ne hid])
        (.refl _) rfl rfl
  · simpa only [World.put, hdb, hlog] using h.chained
  · simpa only [World.put, hlog] using h.sound

theorem linked_accept {db : Db} {w : World} {id : Nat}
    (h : Linked lib runtime dateFormat meets db w) (request : Request)
    (env : Env) (hmeets : meets id env) (hid : w.clients id = none) :
    Linked lib runtime dateFormat meets db
      (w.settle id ⟨request, true, .start (dispatch lib runtime env request)⟩
        (dispatch lib runtime env request).events) := by
  have hat := h.at_ id
  unfold LinkedAt at hat
  rw [hid] at hat
  refine h.settle rfl rfl (fun id' _ => h.at_ id') ⟨.start env hmeets, ?_, ?_⟩
  · rw [hat.1]
    exact .refl _
  · have hun : w.undelivered id = [] := by
      have hops := hat.1
      simp only [World.opsFor, List.append_eq_nil_iff, List.map_eq_nil_iff] at hops
      simp only [World.undelivered, hops.1.1.1.2, List.map_nil]
    rw [hat.2, hun]
    have hown := executed_own (dispatch_own lib runtime env request)
    simp only [ReqState.start, hown, List.append_nil, List.map_nil]

theorem linked_work {db : Db} {w : World} {front rest : List Task} {task : Task}
    {r : DbResult} {db' : Db}
    {now : Int} (h : Linked lib runtime dateFormat meets db w)
    (ht : w.tasks = front ++ task :: rest) (hx : Exec dateFormat now task.query w.db r db') :
    Linked lib runtime dateFormat meets db { w with
      db := db'
      tasks := front ++ rest
      done := w.done ++ [⟨task, r⟩]
      log := w.log ++ [.exec ⟨task.data, task.query, now, w.db, db', r⟩] } := by
  refine ⟨fun id => ?_, ?_, ?_⟩
  · have hat := h.at_ id
    by_cases hid : id = task.data
    · subst hid
      unfold LinkedAt at hat ⊢
      cases hc : w.clients task.data with
      | none =>
        rw [hc] at hat
        have hops := hat.1
        simp [World.opsFor, ht] at hops
      | some client =>
        rw [hc] at hat
        refine ⟨hat.reach, ?_, ?_⟩
        · refine List.Perm.trans ?_ hat.ops
          rw [List.perm_iff_count]
          intro op
          simp only [World.opsFor, ht, List.filter_append, List.filter_cons,
            beq_self_eq_true, if_true,
            List.filter_nil, List.map_append, List.map_cons, List.map_nil, List.count_append,
            List.count_cons,
            List.count_nil]
          omega
        · have hex := hat.execs
          simp only [World.execsFor, World.undelivered, executions_append] at hex ⊢
          simp only [executions, List.filterMap_cons, List.filterMap_nil, List.filter_append,
            List.filter_cons,
            beq_self_eq_true, if_true, List.filter_nil, List.map_append, List.map_cons,
            List.map_nil] at hex ⊢
          rw [hex, List.append_assoc]
          rfl
    · have hb : (task.data == id) = false := beq_eq_false_iff_ne.2 (Ne.symm hid)
      refine hat.frame rfl ?_ ?_ ?_
      · simp [World.opsFor, ht, List.filter_append, List.filter_cons, hb]
      · simp [World.execsFor, executions, List.filter_append, List.filter_cons, hb]
      · simp [World.undelivered, List.filter_append, List.filter_cons, hb]
  · rw [executions_append]
    let x : Execution := ⟨task.data, task.query, now, w.db, db', r⟩
    exact History.Chained.snoc (show History.Chained Execution.before Execution.after db _ x.before
      from h.chained)
  · intro x hxm
    rw [executions_append, List.mem_append] at hxm
    rcases hxm with hxm | hxm
    · exact h.sound x hxm
    · simp only [executions, List.filterMap_cons, List.filterMap_nil, List.mem_singleton] at hxm
      subst hxm
      exact hx

theorem linked_deliver {db : Db} {w : World} {t : DoneTask} {rest : List DoneTask} {client : Client}
    (h : Linked lib runtime dateFormat meets db w) (env : Env) (hmeets : meets t.data env)
    (ht : w.done = t :: rest) (hc : w.clients t.data = some client) :
    Linked lib runtime dateFormat meets db (({ w with done := rest } : World).settle t.data
      ⟨client.request, true, client.state.resume (.db t.query) [.completed t.query t.result]
        (runStages lib runtime env { task := some ⟨t.query, t.result⟩ } client.state.ctx
          client.state.ctx.chain)⟩
      (runStages lib runtime env { task := some ⟨t.query, t.result⟩ } client.state.ctx
        client.state.ctx.chain).events) := by
  have hl := h.client hc
  obtain ⟨hmem, hrest⟩ := hl.delivered (opsFor_done ht)
  refine h.settle rfl rfl (fun id hid => (h.at_ id).frame rfl (by rw [opsFor_done_ne ht hid])
    rfl ?_) ⟨?_, ?_, ?_⟩
  · have hb : (t.data == id) = false := beq_eq_false_iff_ne.2 (Ne.symm hid)
    simp [World.undelivered, ht, List.filter_cons, hb]
  · exact .resume env hmeets hl.reach hmem (.task _ _)
  · exact hrest.append_right _
  · have hex := hl.execs
    simp only [World.undelivered, ht, List.filter_cons, beq_self_eq_true, if_true,
      List.map_cons] at hex
    rw [executed_resume _ _ (runStages_own ..)]
    simp only [World.undelivered, World.execsFor] at hex ⊢
    rw [hex, List.append_assoc]
    rfl

theorem linked_drop {db : Db} {w : World} {t : DoneTask} {rest : List DoneTask} {client : Client}
    (h : Linked lib runtime dateFormat meets db w) (ht : w.done = t :: rest)
    (hc : w.clients t.data = some client) :
    Linked lib runtime dateFormat meets db (({ w with done := rest } : World).put t.data
      ⟨client.request, false, client.state.discard (.db t.query)
        [.discarded t.query t.result]⟩) := by
  have hl := h.client hc
  obtain ⟨hmem, hrest⟩ := hl.delivered (opsFor_done ht)
  refine h.put rfl rfl (fun id hid => (h.at_ id).frame rfl (by rw [opsFor_done_ne ht hid]) rfl ?_)
    ⟨?_, hrest, ?_⟩
  · have hb : (t.data == id) = false := beq_eq_false_iff_ne.2 (Ne.symm hid)
    simp [World.undelivered, ht, List.filter_cons, hb]
  · exact .discard hl.reach hmem (.task _ _)
  · have hex := hl.execs
    simp only [World.undelivered, ht, List.filter_cons, beq_self_eq_true, if_true,
      List.map_cons] at hex
    simp only [World.undelivered, World.execsFor, ReqState.discard, executed_append] at hex ⊢
    rw [hex, List.append_assoc]
    rfl

theorem linked_hangup {db : Db} {w : World} {id : Nat} {client : Client}
    (h : Linked lib runtime dateFormat meets db w)
    (hc : w.clients id = some client) :
    Linked lib runtime dateFormat meets db (w.put id { client with conn := false }) :=
  have hl := h.client hc
  h.put rfl rfl (fun id' _ => h.at_ id') ⟨hl.reach, hl.ops, hl.execs⟩

/-- jobs that move between the queues of the password worker -/
theorem Linked.moveJobs {db : Db} {w w' : World} (h : Linked lib runtime dateFormat meets db w)
    (hclients : w'.clients = w.clients) (hdb : w'.db = w.db) (hlog : w'.log = w.log)
    (hdone : w'.done = w.done)
    (hops : ∀ id, (w'.opsFor id).Perm (w.opsFor id)) :
    Linked lib runtime dateFormat meets db w' := by
  refine ⟨fun id => (h.at_ id).frame (by rw [hclients]) (hops id) ?_ ?_, ?_, ?_⟩
  · simp only [World.execsFor, hlog]
  · simp only [World.undelivered, hdone]
  · rw [hlog, hdb]
    exact h.chained
  · rw [hlog]
    exact h.sound

theorem linked_take {db : Db} {w : World} {j : Job} {rest : List Job}
    (h : Linked lib runtime dateFormat meets db w)
    (hr : w.running = none) (hp : w.pending = j :: rest) :
    Linked lib runtime dateFormat meets db { w with pending := rest, running := some j } := by
  refine h.moveJobs rfl rfl rfl rfl fun id => ?_
  rw [List.perm_iff_count]
  intro op
  by_cases hid : (j.data == id) = true
  · simp only [World.opsFor, hr, hp, List.filter_cons, hid, if_true, Option.toList_none,
      Option.toList_some,
      List.filter_nil, List.map_nil, List.map_cons, List.count_append, List.count_cons,
      List.count_nil]
    omega
  · simp only [World.opsFor, hr, hp, List.filter_cons, hid, Bool.false_eq_true, if_false,
      Option.toList_none,
      Option.toList_some, List.filter_nil, List.map_nil, List.count_append, List.count_nil]

theorem linked_finish {db : Db} {w : World} {j : Job} {result : PasswordResult}
    (h : Linked lib runtime dateFormat meets db w) (hr : w.running = some j) :
    Linked lib runtime dateFormat meets db { w with running := none, doneJobs :=
      w.doneJobs ++ [⟨j, result⟩] } := by
  refine h.moveJobs rfl rfl rfl rfl fun id => ?_
  rw [List.perm_iff_count]
  intro op
  by_cases hid : (j.data == id) = true
  · simp only [World.opsFor, hr, List.filter_append, List.filter_cons, hid, if_true,
      Option.toList_none,
      Option.toList_some, List.filter_nil, List.map_append, List.map_nil, List.map_cons,
      List.count_append,
      List.count_cons, List.count_nil]
    omega
  · simp only [World.opsFor, hr, List.filter_append, List.filter_cons, hid,
      Bool.false_eq_true, if_false,
      Option.toList_none, Option.toList_some, List.filter_nil, List.map_append, List.map_nil,
      List.count_append,
      List.count_nil]
    omega

theorem linked_stop {db : Db} {w : World} (h : Linked lib runtime dateFormat meets db w) :
    Linked lib runtime dateFormat meets db { w with
      stopped := true
      pending := []
      doneJobs := w.doneJobs ++ w.pending.map fun j =>
        ⟨j, { failure := some .error, cancelled := true }⟩ } := by
  refine h.moveJobs rfl rfl rfl rfl fun id => ?_
  have hp : ((w.pending.map fun j =>
    (⟨j, { failure := some .error, cancelled := true }⟩ : DoneJob)).filter
      fun j => j.data == id).map (fun j => Op.password j.job) =
        (w.pending.filter fun j => j.data == id).map fun j => Op.password j.job := by
    rw [List.filter_map, List.map_map]
    rfl
  rw [List.perm_iff_count]
  intro op
  simp only [World.opsFor, List.filter_append, List.map_append, List.count_append, hp,
    List.filter_nil, List.map_nil,
    List.count_nil]
  omega

theorem linked_deliverJob {db : Db} {w : World} {j : DoneJob} {rest : List DoneJob}
    {client : Client}
    (h : Linked lib runtime dateFormat meets db w) (env : Env) (hmeets : meets j.data env)
    (hj : w.doneJobs = j :: rest) (hc : w.clients j.data = some client) :
    Linked lib runtime dateFormat meets db (({ w with doneJobs := rest } : World).settle j.data
      ⟨client.request, true, client.state.resume (.password j.job) [.finished j.job j.result]
        (runStages lib runtime env { workerResult := some j.result } client.state.ctx
          client.state.ctx.chain)⟩
      (runStages lib runtime env { workerResult := some j.result } client.state.ctx
        client.state.ctx.chain).events) := by
  have hl := h.client hc
  obtain ⟨hmem, hrest⟩ := hl.delivered (opsFor_doneJobs hj)
  refine h.settle rfl rfl (fun id hid => (h.at_ id).frame rfl (by rw [opsFor_doneJobs_ne hj hid])
    rfl rfl) ⟨?_, ?_, ?_⟩
  · exact .resume env hmeets hl.reach hmem (.job _ _)
  · exact hrest.append_right _
  · rw [executed_resume _ _ (runStages_own ..), show executed [.finished j.job j.result]
      = [] from rfl,
      List.append_nil]
    exact hl.execs

theorem linked_cancelJob {db : Db} {w : World} {j : DoneJob} {rest : List DoneJob} {client : Client}
    (h : Linked lib runtime dateFormat meets db w) (hj : w.doneJobs = j :: rest)
    (hc : w.clients j.data = some client) :
    Linked lib runtime dateFormat meets db (({ w with doneJobs := rest } : World).settle j.data
      ⟨client.request, true, client.state.cancel (.password j.job)⟩
      [.respond cancelledResponse]) := by
  have hl := h.client hc
  obtain ⟨hmem, hrest⟩ := hl.delivered (opsFor_doneJobs hj)
  refine h.settle rfl rfl (fun id hid => (h.at_ id).frame rfl (by rw [opsFor_doneJobs_ne hj hid])
    rfl rfl) ⟨?_, ?_, ?_⟩
  · exact .cancel hl.reach hmem
  · rw [show opsOf [.respond cancelledResponse] = [] from rfl, List.append_nil]
    exact hrest
  · rw [ReqState.cancel, executed_append, show executed [.respond cancelledResponse] = [] from rfl,
      List.append_nil]
    exact hl.execs

theorem linked_dropJob {db : Db} {w : World} {j : DoneJob} {rest : List DoneJob} {client : Client}
    (h : Linked lib runtime dateFormat meets db w) (hj : w.doneJobs = j :: rest)
    (hc : w.clients j.data = some client) :
    Linked lib runtime dateFormat meets db (({ w with doneJobs := rest } : World).put j.data
      ⟨client.request, false, client.state.discard (.password j.job) []⟩) := by
  have hl := h.client hc
  obtain ⟨hmem, hrest⟩ := hl.delivered (opsFor_doneJobs hj)
  refine h.put rfl rfl (fun id hid => (h.at_ id).frame rfl
    (by rw [opsFor_doneJobs_ne hj hid]) rfl rfl)
    ⟨.discard hl.reach hmem (.job _), hrest, ?_⟩
  rw [ReqState.discard, List.append_nil]
  exact hl.execs

theorem Linked.step {db : Db} {w w' : World} (h : Linked lib runtime dateFormat meets db w)
    (hs : Step lib passwords runtime dateFormat meets w w') :
    Linked lib runtime dateFormat meets db w' := by
  cases hs with
  | accept request env hmeets hid hadm => exact linked_accept h request env hmeets hid
  | work now ht hx => exact linked_work h ht hx
  | deliver env hmeets ht hc hconn hadm => exact linked_deliver h env hmeets ht hc
  | drop ht hc hconn => exact linked_drop h ht hc
  | hangup hc => exact linked_hangup h hc
  | take hs hr hp => exact linked_take h hr hp
  | finish hr hx => exact linked_finish h hr
  | stop => exact linked_stop h
  | deliverJob env hmeets hj hc hconn hcancel hadm => exact linked_deliverJob h env hmeets hj hc
  | cancelJob hj hc hconn hcancel => exact linked_cancelJob h hj hc
  | dropJob hj hc hconn => exact linked_dropJob h hj hc

/-- **every request of a running server is linked to its operations** -/
theorem Run.linked {db : Db} {w : World} (h : Run lib passwords runtime dateFormat meets db w) :
    Linked lib runtime dateFormat meets db w := by
  induction h with
  | start => exact ⟨fun id => ⟨rfl, rfl⟩, rfl, fun x hx => by cases hx⟩
  | step _ hs ih => exact ih.step hs

end

end System
