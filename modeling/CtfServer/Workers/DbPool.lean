import CtfServer.Lib.LinkedQueue
import CtfServer.App.Database

/-!
# The db pool

db.c: the main thread enqueues tasks, the worker thread takes them one by one, and the main thread
drains the queue of completed tasks when the eventfd tells it to (`db_handler` in server.c: it reads
the eventfd, then fetches until there is nothing left).  A step is one critical section or one
system call of one of the two threads.

* `DbPool`           the memory and the queues, and what was accepted, executed and handed out;
* `DbWorker`, `DbMain`   where the worker thread and the main thread are;
* `DbPool.workerStep`, `DbPool.dbHandlerTurn`   the worker thread; a turn of the loop in
                                                `db_handler`;
* `DbPool.Step`, `DbPool.Run`    the interleavings of the two threads;
* `DbPool.Run.inv`        the invariant of the queues;
* `pool_keeps_work`   **no task is lost, duplicated or reordered**.
-/

set_option linter.unusedVariables false
set_option linter.unusedSimpArgs false

namespace Workers

open App (DbResult)
open LinkedQueue

/-! ## tasks -/

def DEFAULT_QUERY_SIZE : Nat := 256
def SIZE_MAX : Nat := 2^64 - 1
def ULONG_MAX : Nat := 2^64 - 1

/-- `sizeof(db_task_t)` and `sizeof(db_param_t)` -/
def sizeofDbTask : Nat := 304
def sizeofDbParam : Nat := 24

/-- `db_param_t` -/
inductive DbParam where
  | string (value : Bytes)
  /-- a string whose `ptr` is `NULL` -/
  | nullString (len : Nat)
  | int64 (value : Int)
  | null
  deriving DecidableEq, Repr

/-- `db_task_t` without its result and its link; `params` of a parameterised query -/
structure Task where
  query : Bytes
  params : Option (List DbParam) := none
  data : Nat
  deriving DecidableEq, Repr

/-! ## the pool -/

/-- where the worker thread is; a node is a task that it holds -/
inductive DbWorker where
  /-- before the lock in `task_queue_pop` -/
  | checking
  /-- in `pthread_cond_wait` -/
  | waiting
  | running (a : Nat)
  /-- its task has a result -/
  | executed (a : Nat)
  /-- between `task_queue_push` and `eventfd_write` -/
  | pushed
  | exited
  deriving DecidableEq, Repr

/-- a waiting thread is woken up -/
def DbWorker.wake : DbWorker → DbWorker
  | .waiting => .checking
  | w => w

/-- where the main thread is -/
inductive DbMain where
  /-- in `serve`, with no report on the eventfd at hand -/
  | serving
  /-- `db_handler` is due: `epoll_wait` has reported the eventfd, or `db_pool_stop` has returned -/
  | due
  /-- in the loop of `db_handler`, past its `eventfd_read` -/
  | draining
  /-- in `db_pool_stop`, at `pthread_join` -/
  | joining
  /-- `destroy_server` has called `db_handler` a last time -/
  | done
  deriving DecidableEq, Repr

/-- handlers of requests can run -/
def DbMain.handles : DbMain → Bool
  | .serving | .due | .draining => true
  | .joining | .done => false

/-- the queue of completed tasks will be drained from here, whatever happens -/
def DbMain.onItsWay : DbMain → Bool
  | .due | .draining | .joining => true
  | .serving | .done => false

/-- the task that the worker holds -/
def DbWorker.node : DbWorker → Option Nat
  | .running a | .executed a => some a
  | _ => none

/-- `db_pool_t` with the memory of its tasks, by address -/
structure DbPool where
  /-- the worker has its connection to the database -/
  connected : Bool
  next : Nat → Option Nat := fun _ => none
  /-- the allocated tasks and their results -/
  task : Nat → Option Task := fun _ => none
  result : Nat → DbResult := fun _ => .failed
  taskQueue : Ends Nat := {}
  doneQueue : Ends Nat := {}
  stop : Bool := false
  worker : DbWorker := .checking
  /-- the counter of the eventfd, and its place in the ready list of epoll -/
  count : Nat := 0
  ready : Bool := false
  main : DbMain := .serving
  /-- `db_pool_stop` has returned -/
  joined : Bool := false
  /-- the tasks that the main thread was handed and has not freed -/
  held : List Nat := []
  /-- what happened, in order -/
  accepted : List Task := []
  executed : List (Task × DbResult) := []
  handed : List (Task × DbResult) := []

/-- `db_pool_new` with one thread -/
def DbPool.new (connected : Bool) : DbPool := { connected := connected }

/-- `task_queue_push` on the queue of the worker, with a new task -/
def DbPool.enqueue (s : DbPool) (a : Nat) (t : Task) : DbPool :=
  { s with
    task := Function.update s.task a (some t)
    result := Function.update s.result a .failed
    next := (push s.next s.taskQueue a).1
    taskQueue := (push s.next s.taskQueue a).2
    worker := s.worker.wake
    accepted := s.accepted ++ [t] }

/-- the test of a query in `db_pool_exec_query` and `db_exec_query_param` -/
def validQuery (query : Bytes) : Bool :=
  query != [] && query.length < DEFAULT_QUERY_SIZE && !query.contains 0

/-- `db_pool_exec_query`; `mem` is the memory for the task and its result -/
def DbPool.dbPoolExecQuery (s : DbPool) (mem : Option Nat) (query : Bytes) (data : Nat) :
    Option DbPool :=
  if ¬ validQuery query ∨ s.stop then none else mem.map fun a =>
    s.enqueue a { query := query, data := data }

/-- the size of a task with the strings of its parameters -/
def paramsSize (size : Nat) : List DbParam → Option Nat
  | [] => some size
  | .string value :: rest =>
    if value.length > ULONG_MAX ∨ value.length ≥ SIZE_MAX - size then none
    else paramsSize (size + value.length + 1) rest
  | .nullString len :: rest =>
    if len ≠ 0 ∨ len ≥ SIZE_MAX - size then none else paramsSize (size + len + 1) rest
  | _ :: rest => paramsSize size rest

/-- `db_exec_query_param` -/
def DbPool.dbExecQueryParam (s : DbPool) (mem : Option Nat) (query : Bytes) (params : List DbParam)
    (data : Nat) :
    Option DbPool :=
  if s.stop ∨ ¬ validQuery query then none
  else if params.length > (SIZE_MAX - sizeofDbTask) / sizeofDbParam then none
  else
    match paramsSize (sizeofDbTask + params.length * sizeofDbParam) params with
    | none => none
    | some _ => mem.map fun a => s.enqueue a ⟨query, some params, data⟩

/-! ## the worker -/

/-- a task and its result -/
def DbPool.entry (s : DbPool) (a : Nat) : Option (Task × DbResult) :=
  (s.task a).map fun t => (t, s.result a)

/-- the next step of `db_worker_thread`; the database answers `r` -/
def DbPool.workerStep (s : DbPool) (r : DbResult) : Option DbPool :=
  match s.worker with
  | .checking =>
    match pop s.next s.taskQueue with
    | some (a, q) => some { s with taskQueue := q, worker := .running a }
    | none => some { s with worker := if s.stop then .exited else .waiting }
  | .running a =>
    let r := if s.connected then r else .failed
    some { s with
      result := Function.update s.result a r
      worker := .executed a
      executed := s.executed ++ (s.task a).toList.map fun t => (t, r) }
  | .executed a =>
    some { s with
      next := (push s.next s.doneQueue a).1
      doneQueue := (push s.next s.doneQueue a).2
      worker := .pushed }
  | .pushed => some { s with count := s.count + 1, ready := true, worker := .checking }
  | .waiting | .exited => none

/-! ## the main thread -/

/-- `db_pool_get_latest_completed_task` -/
def DbPool.dbPoolGetLatestCompletedTask (s : DbPool) : Option Nat × DbPool :=
  match pop s.next s.doneQueue with
  | none => (none, s)
  | some (a, q) =>
    (some a, { s with
      doneQueue := q
      next := Function.update s.next a none
      held := a :: s.held
      handed := s.handed ++ (s.entry a).toList })

/-- a turn of the loop in `db_handler`: without a task the handler returns, to `serve` or to
`destroy_server` -/
def DbPool.dbHandlerTurn (s : DbPool) : DbPool :=
  match s.dbPoolGetLatestCompletedTask.1 with
  | some _ => s.dbPoolGetLatestCompletedTask.2
  | none => { s.dbPoolGetLatestCompletedTask.2 with main := if s.joined then .done else .serving }

/-- a step of one of the threads -/
inductive DbPool.Step : DbPool → DbPool → Prop where
  | execQuery {s s' : DbPool} {a data : Nat} {query : Bytes} (hmain : s.main.handles = true)
      (hfresh : s.task a = none)
      (h : s.dbPoolExecQuery (some a) query data = some s') : Step s s'
  | execQueryParam {s s' : DbPool} {a data : Nat} {query : Bytes} {params : List DbParam}
      (hmain : s.main.handles = true) (hfresh : s.task a = none)
      (h : s.dbExecQueryParam (some a) query params data = some s') : Step s s'
  | worker {s s' : DbPool} (r : DbResult) (h : s.workerStep r = some s') : Step s s'
  /-- `pthread_cond_wait` may return for no reason -/
  | spurious {s : DbPool} (hw : s.worker = .waiting) : Step s { s with worker := .checking }
  /-- `epoll_wait` reports the eventfd; other handlers may come first -/
  | notice {s : DbPool} (hmain : s.main = .serving) (hr : s.ready = true) (hc : 0 < s.count) :
      Step s { s with ready := false, main := .due }
  /-- `epoll_wait` finds the eventfd read already -/
  | stale {s : DbPool} (hmain : s.main = .serving) (hr : s.ready = true) (hc : s.count = 0) :
      Step s { s with ready := false }
  /-- `eventfd_read`, with which `db_handler` begins -/
  | read {s : DbPool} (hmain : s.main = .due) : Step s { s with count := 0, main := .draining }
  | turn {s : DbPool} (hmain : s.main = .draining) : Step s s.dbHandlerTurn
  /-- `db_task_free` of a task that was handed out -/
  | free {s : DbPool} {a : Nat} (hmain : s.main = .draining) (ha : a ∈ s.held) :
      Step s { s with held := s.held.erase a, task := Function.update s.task a none }
  /-- `db_pool_stop`, up to `pthread_join`; a report that `serve` has not reached is dropped -/
  | stop {s : DbPool} (hmain : s.main = .serving ∨ s.main = .due) (hj : s.joined = false) :
      Step s { s with stop := true, main := .joining, worker := s.worker.wake }
  /-- `pthread_join`; `destroy_server` goes on to `db_handler` -/
  | join {s : DbPool} (hmain : s.main = .joining) (hw : s.worker = .exited) :
      Step s { s with main := .due, joined := true }

/-- the states of a pool -/
inductive DbPool.Run (connected : Bool) : DbPool → Prop where
  | new : Run connected (DbPool.new connected)
  | step {s s' : DbPool} : Run connected s → Step s s' → Run connected s'

/-! ## the invariant -/

/-- the task that the worker runs -/
def DbPool.running (s : DbPool) : List Task :=
  match s.worker with
  | .running a => (s.task a).toList
  | _ => []

/-- the task that the worker has not yet pushed -/
def DbPool.unpushed (s : DbPool) : List (Task × DbResult) :=
  match s.worker with
  | .executed a => (s.entry a).toList
  | _ => []

/-- a completed task will be fetched: the notification is pending or about to be written, or the
main thread is on its way -/
def DbPool.Notified (s : DbPool) : Prop :=
  (s.ready = true ∧ 0 < s.count) ∨ s.worker = .pushed ∨ s.main.onItsWay = true

/-- the two queues hold `l` and `d` -/
structure DbPool.Inv (s : DbPool) (l d : List Nat) : Prop where
  pending : Holds s.next s.taskQueue l
  done : Holds s.next s.doneQueue d
  distinct : (l ++ (s.worker.node.toList ++ (d ++ s.held))).Nodup
  live : ∀ a ∈ l ++ (s.worker.node.toList ++ (d ++ s.held)), (s.task a).isSome
  accepted : s.accepted = s.executed.map Prod.fst ++ (s.running ++ l.filterMap s.task)
  executed : s.executed = s.handed ++ (d.filterMap s.entry ++ s.unpushed)
  waiting : s.worker = .waiting → l = [] ∧ s.stop = false
  exited : s.worker = .exited → l = [] ∧ s.stop = true
  joined : s.joined = true → s.worker = .exited
  finished : s.main = .done → s.joined = true ∧ d = []
  notified : d ≠ [] → s.Notified

section
variable {s s' : DbPool} {l d : List Nat} {a : Nat}

theorem DbPool.Inv.new (connected : Bool) : (DbPool.new connected).Inv [] [] where
  pending := .empty _
  done := .empty _
  distinct := List.nodup_nil
  live := fun a ha => by cases ha
  accepted := rfl
  executed := rfl
  waiting := fun h => by cases h
  exited := fun h => by cases h
  joined := fun h => by cases h
  finished := fun h => by cases h
  notified := fun h => absurd rfl h

theorem filterMap_update {β : Type} {f : Nat → Option β} {v : Option β} (ha : a ∉ l) :
    l.filterMap (Function.update f a v) = l.filterMap f := by
  apply List.filterMap_congr
  intro b hb
  exact Function.update_of_ne (fun hba : b = a => ha (hba ▸ hb)) v f

@[simp] theorem wake_node (w : DbWorker) : w.wake.node = w.node := by cases w <;> rfl

theorem wake_ne_waiting (w : DbWorker) : w.wake ≠ .waiting := by cases w <;> exact nofun

theorem wake_exited {w : DbWorker} (h : w.wake = .exited) :
    w = .exited := by cases w <;> first | rfl | cases h

theorem wake_pushed {w : DbWorker} (h : w = .pushed) : w.wake = .pushed := by rw [h]; rfl

/-- an address that is not allocated is in no queue -/
theorem DbPool.Inv.fresh (h : s.Inv l d) (ha : s.task a = none) :
    a ∉ l ∧ a ∉ s.worker.node.toList ∧ a ∉ d ∧ a ∉ s.held := by
  have hno : a ∉ l ++ (s.worker.node.toList ++ (d ++ s.held)) := fun hmem => by
    have := h.live a hmem
    rw [ha] at this
    cases this
  simpa only [List.mem_append, not_or] using hno

theorem entry_enqueue (s : DbPool) (t : Task) {b : Nat} (hb : b ≠ a) :
    (s.enqueue a t).entry b = s.entry b := by
  show (Function.update s.task a (some t) b).map
    (fun t => (t, Function.update s.result a .failed b)) = _
  rw [Function.update_of_ne hb, Function.update_of_ne hb]
  rfl

theorem running_enqueue (s : DbPool) (t : Task) (ha : a ∉ s.worker.node.toList) :
    (s.enqueue a t).running = s.running := by
  unfold DbPool.running DbPool.enqueue
  cases hw : s.worker with
  | running b =>
    rw [hw] at ha
    show (Function.update s.task a (some t) b).toList = (s.task b).toList
    rw [Function.update_of_ne fun hba : b = a => ha (hba ▸ List.mem_singleton_self b)]
  | _ => rfl

theorem unpushed_enqueue (s : DbPool) (t : Task) (ha : a ∉ s.worker.node.toList) :
    (s.enqueue a t).unpushed = s.unpushed := by
  cases hw : s.worker with
  | executed b =>
    rw [hw] at ha
    have hba : b ≠ a := fun hba => ha (hba ▸ List.mem_singleton_self b)
    have hun : (s.enqueue a t).unpushed = ((s.enqueue a t).entry b).toList := by
      unfold DbPool.unpushed
      show (match s.worker.wake with | .executed a => _ | _ => _) = _
      rw [hw]
      rfl
    rw [hun, entry_enqueue s t hba, DbPool.unpushed, hw]
  | _ =>
    unfold DbPool.unpushed
    show (match s.worker.wake with | .executed a => _ | _ => _) = _
    rw [hw]
    rfl

/-- a task is accepted -/
theorem DbPool.Inv.enqueue (h : s.Inv l d) (t : Task) (ha : s.task a = none)
    (hstop : s.stop = false) :
    (s.enqueue a t).Inv (l ++ [a]) d := by
  obtain ⟨hl, hw, hd, hh⟩ := h.fresh ha
  have hdisj : ∀ y ∈ d, y ∉ l := fun y hy hyl =>
    (List.nodup_append.1 h.distinct).2.2 y hyl y (by simp [hy]) rfl
  refine ⟨h.pending.push hl, h.pending.push_other h.done hdisj hd, ?_, ?_, ?_, ?_, ?_, ?_, ?_,
    h.finished, ?_⟩
  · show (l ++ [a] ++ (s.worker.wake.node.toList ++ (d ++ s.held))).Nodup
    rw [wake_node, List.append_assoc]
    show (l ++ a :: (s.worker.node.toList ++ (d ++ s.held))).Nodup
    refine (List.perm_middle.nodup_iff).2 (List.nodup_cons.2 ⟨?_, h.distinct⟩)
    simp only [List.mem_append, not_or]
    exact ⟨hl, hw, hd, hh⟩
  · intro b hb
    show (Function.update s.task a (some t) b).isSome
    by_cases hba : b = a
    · rw [hba, Function.update_self]
      rfl
    · rw [Function.update_of_ne hba]
      refine h.live b ?_
      have hb : b ∈ l ++ [a] ++ (s.worker.wake.node.toList ++ (d ++ s.held)) := hb
      rw [wake_node] at hb
      simpa [hba] using hb
  · rw [running_enqueue s t hw]
    show s.accepted ++ [t] = s.executed.map Prod.fst ++
      (s.running ++ (l ++ [a]).filterMap (Function.update s.task a (some t)))
    rw [List.filterMap_append, filterMap_update hl, h.accepted]
    simp
  · rw [unpushed_enqueue s t hw]
    show s.executed = s.handed ++ (d.filterMap (s.enqueue a t).entry ++ s.unpushed)
    rw [List.filterMap_congr fun b hb => entry_enqueue s t fun hba : b = a => hd (hba ▸ hb)]
    exact h.executed
  · exact fun hwait => absurd hwait (wake_ne_waiting _)
  · intro hex
    have := h.exited (wake_exited hex)
    rw [hstop] at this
    cases this.2
  · intro hj
    have := h.exited (h.joined hj)
    rw [hstop] at this
    cases this.2
  · intro hne
    rcases h.notified hne with hr | hp | hu
    · exact .inl hr
    · exact .inr (.inl (wake_pushed hp))
    · exact .inr (.inr hu)

/-- a worker that is not at its push has to be told, or the main thread is on its way -/
theorem notified_of_ne (h : s.Notified) (hw : s.worker ≠ .pushed) :
    (s.ready = true ∧ 0 < s.count) ∨ s.main.onItsWay = true := by
  rcases h with hr | hp | hu
  · exact .inl hr
  · exact absurd hp hw
  · exact .inr hu

theorem DbPool.Inv.not_joined (h : s.Inv l d) (hw : s.worker ≠ .exited) : s.joined ≠ true :=
  fun hj => hw (h.joined hj)

/-- the worker takes the first task -/
theorem DbPool.Inv.takes {q : Ends Nat} (h : s.Inv l d) (hw : s.worker = .checking)
    (hp : pop s.next s.taskQueue = some (a, q)) :
    ∃ rest, ({ s with taskQueue := q, worker := .running a } : DbPool).Inv rest d := by
  obtain ⟨rest, rfl, hrest⟩ := h.pending.of_pop hp
  have hperm : (a :: rest ++ (s.worker.node.toList ++ (d ++ s.held))).Perm
    (rest ++ ([a] ++ (d ++ s.held))) := by
    rw [hw]
    exact List.perm_middle.symm
  have hlive : (s.task a).isSome := h.live a (List.mem_append_left _ List.mem_cons_self)
  refine ⟨rest, hrest, h.done, hperm.nodup_iff.1 h.distinct, fun b hb =>
    h.live b (hperm.mem_iff.2 hb), ?_, ?_, ?_, ?_,
    ?_, h.finished, ?_⟩
  · rw [h.accepted, DbPool.running, hw]
    obtain ⟨t, ht⟩ := Option.isSome_iff_exists.1 hlive
    simp [DbPool.running, ht]
  · rw [h.executed, DbPool.unpushed, hw]
    rfl
  · exact nofun
  · exact nofun
  · exact fun hj => absurd hj (h.not_joined (by rw [hw]; exact nofun))
  · intro hne
    rcases notified_of_ne (h.notified hne) (by rw [hw]; exact nofun) with hr | hu
    · exact .inl hr
    · exact .inr (.inr hu)

/-- the worker finds no task -/
theorem DbPool.Inv.idle (h : s.Inv l d) (hw : s.worker = .checking)
    (hp : pop s.next s.taskQueue = none) :
    ({ s with worker := if s.stop then .exited else .waiting } : DbPool).Inv l d := by
  have hl := h.pending.of_pop_none hp
  have hnode : ∀ b : Bool, (if b then DbWorker.exited else .waiting).node = none := by decide
  have hrun : ({ s with worker := if s.stop then .exited else .waiting } : DbPool).running =
    s.running := by
    unfold DbPool.running
    rw [hw]
    cases s.stop <;> rfl
  have hun : ({ s with worker := if s.stop then .exited else .waiting } : DbPool).unpushed =
    s.unpushed := by
    unfold DbPool.unpushed
    rw [hw]
    cases s.stop <;> rfl
  have hdist := h.distinct
  have hlive := h.live
  rw [hw] at hdist hlive
  refine ⟨h.pending, h.done, ?_, ?_, ?_, ?_, ?_, ?_, ?_, h.finished, ?_⟩
  · show (l ++ ((if s.stop then DbWorker.exited else .waiting).node.toList ++ (d ++ s.held))).Nodup
    rw [hnode]
    exact hdist
  · intro b hb
    have hb : b ∈ l ++ ((if s.stop then DbWorker.exited else .waiting).node.toList ++
      (d ++ s.held)) := hb
    rw [hnode] at hb
    exact hlive b hb
  · rw [hrun]
    exact h.accepted
  · rw [hun]
    exact h.executed
  · intro hwait
    refine ⟨hl, ?_⟩
    show s.stop = false
    cases hs : s.stop with
    | false => rfl
    | true =>
      have hwait : (if s.stop then DbWorker.exited else .waiting) = .waiting := hwait
      rw [hs] at hwait
      cases hwait
  · intro hex
    refine ⟨hl, ?_⟩
    show s.stop = true
    cases hs : s.stop with
    | true => rfl
    | false =>
      have hex : (if s.stop then DbWorker.exited else .waiting) = .exited := hex
      rw [hs] at hex
      cases hex
  · exact fun hj => absurd hj (h.not_joined (by rw [hw]; exact nofun))
  · intro hne
    rcases notified_of_ne (h.notified hne) (by rw [hw]; exact nofun) with hr | hu
    · exact .inl hr
    · exact .inr (.inr hu)

/-- the task of the worker is executed -/
theorem DbPool.Inv.executes (h : s.Inv l d) (hw : s.worker = .running a) (r : DbResult) :
    ({ s with
        result := Function.update s.result a r
        worker := .executed a
        executed := s.executed ++ (s.task a).toList.map fun t => (t, r) } : DbPool).Inv l d := by
  have hdist := h.distinct
  have hlive := h.live
  rw [hw] at hdist hlive
  have hd : a ∉ d := fun hd => by
    have := (List.nodup_append.1 hdist).2.1
    exact (List.nodup_append.1 this).2.2 a (List.mem_singleton_self a) a
      (List.mem_append_left _ hd) rfl
  obtain ⟨t, ht⟩ := Option.isSome_iff_exists.1 (hlive a (by simp [DbWorker.node]))
  refine ⟨h.pending, h.done, hdist, hlive, ?_, ?_, nofun, nofun, ?_, h.finished, ?_⟩
  · rw [h.accepted]
    simp [DbPool.running, hw, ht]
  · have hentry : d.filterMap (fun b => (s.task b).map fun t => (t, Function.update s.result a r b))
      =
        d.filterMap s.entry := by
      apply List.filterMap_congr
      intro b hb
      show (s.task b).map (fun t => (t, Function.update s.result a r b)) = (s.task b).map fun t =>
        (t, s.result b)
      rw [Function.update_of_ne fun hba : b = a => hd (hba ▸ hb)]
    have hold := h.executed
    rw [DbPool.unpushed, hw, List.append_nil] at hold
    show s.executed ++ (s.task a).toList.map (fun t => (t, r)) = s.handed ++
      (d.filterMap (fun b => (s.task b).map fun t => (t, Function.update s.result a r b)) ++
        ((s.task a).map fun t => (t, Function.update s.result a r a)).toList)
    rw [hentry, hold, Function.update_self, ht]
    simp
  · exact fun hj => absurd hj (h.not_joined (by rw [hw]; exact nofun))
  · intro hne
    rcases notified_of_ne (h.notified hne) (by rw [hw]; exact nofun) with hr | hu
    · exact .inl hr
    · exact .inr (.inr hu)

/-- the executed task goes to the queue of the main thread -/
theorem DbPool.Inv.pushes (h : s.Inv l d) (hw : s.worker = .executed a) :
    ({ s with
        next := (push s.next s.doneQueue a).1
        doneQueue := (push s.next s.doneQueue a).2
        worker := .pushed } : DbPool).Inv l (d ++ [a]) := by
  have hdist := h.distinct
  have hlive := h.live
  rw [hw] at hdist hlive
  have hdist : (l ++ (a :: (d ++ s.held))).Nodup := hdist
  have htail := List.nodup_cons.1 (List.nodup_append.1 hdist).2.1
  have hd : a ∉ d := fun hd => htail.1 (List.mem_append_left _ hd)
  have hl : a ∉ l := fun hl => (List.nodup_append.1 hdist).2.2 a hl a List.mem_cons_self rfl
  have hdisj : ∀ y ∈ l, y ∉ d := fun y hy hyd =>
    (List.nodup_append.1 hdist).2.2 y hy y (List.mem_cons_of_mem _ (List.mem_append_left _ hyd)) rfl
  have hperm : (l ++ (a :: (d ++ s.held))).Perm (l ++ ([] ++ (d ++ [a] ++ s.held))) := by
    refine List.Perm.append_left l ?_
    rw [List.nil_append, List.append_assoc]
    exact List.perm_middle.symm
  refine ⟨h.done.push_other h.pending hdisj hl, h.done.push hd, hperm.nodup_iff.1 hdist,
    fun b hb => hlive b (hperm.mem_iff.2 hb), ?_, ?_, nofun, nofun, ?_, ?_, ?_⟩
  · rw [h.accepted, DbPool.running, hw]
    rfl
  · rw [h.executed, DbPool.unpushed, hw]
    show _ = s.handed ++ ((d ++ [a]).filterMap s.entry ++ [])
    rw [List.filterMap_append, List.append_nil]
    cases he : s.entry a <;> simp [he]
  · exact fun hj => absurd hj (h.not_joined (by rw [hw]; exact nofun))
  · exact fun hdone => absurd (h.finished hdone).1 (h.not_joined (by rw [hw]; exact nofun))
  · exact fun _ => .inr (.inl rfl)

/-- the main thread is told -/
theorem DbPool.Inv.writes (h : s.Inv l d) (hw : s.worker = .pushed) :
    ({ s with count := s.count + 1, ready := true, worker := .checking } : DbPool).Inv l d := by
  have hdist := h.distinct
  have hlive := h.live
  have hacc := h.accepted
  have hexec := h.executed
  rw [DbPool.running] at hacc
  rw [DbPool.unpushed] at hexec
  rw [hw] at hdist hlive hacc hexec
  refine ⟨h.pending, h.done, hdist, hlive, hacc, hexec, nofun, nofun, ?_, h.finished, ?_⟩
  · exact fun hj => absurd hj (h.not_joined (by rw [hw]; exact nofun))
  · exact fun _ => .inl ⟨rfl, Nat.succ_pos _⟩

/-- **a step of the worker** -/
theorem DbPool.Inv.worker {r : DbResult} (h : s.Inv l d) (hs : s.workerStep r = some s') :
    ∃ l' d', s'.Inv l' d' := by
  unfold DbPool.workerStep at hs
  split at hs
  · next hw =>
    split at hs
    · next a q hp =>
      cases hs
      obtain ⟨rest, hrest⟩ := h.takes hw hp
      exact ⟨rest, d, hrest⟩
    · next hp =>
      cases hs
      exact ⟨l, d, h.idle hw hp⟩
  · next a hw =>
    cases hs
    exact ⟨l, d, h.executes hw _⟩
  · next a hw =>
    cases hs
    exact ⟨l, d ++ [a], h.pushes hw⟩
  · next hw =>
    cases hs
    exact ⟨l, d, h.writes hw⟩
  · cases hs
  · cases hs

/-! ## the main thread -/

/-- the main thread and the eventfd -/
theorem DbPool.Inv.tells (h : s.Inv l d) {count : Nat} {ready joined : Bool} {main : DbMain}
    (hj : joined = true → s.worker = .exited) (hover : main = .done → joined = true ∧ d = [])
    (hn : d ≠ [] → (ready = true ∧ 0 < count) ∨ s.worker = .pushed ∨ main.onItsWay = true) :
    ({ s with count := count, ready := ready, main := main, joined := joined } : DbPool).Inv l d :=
  ⟨h.pending, h.done, h.distinct, h.live, h.accepted, h.executed, h.waiting, h.exited,
    hj, hover, hn⟩

/-- a worker that waits is woken up, if only to find the pool stopped -/
theorem DbPool.Inv.wakes (h : s.Inv l d) {stop : Bool} (hstop : s.stop ≤ stop) :
    ({ s with stop := stop, worker := s.worker.wake } : DbPool).Inv l d := by
  have hrun : ({ s with stop := stop, worker := s.worker.wake } : DbPool).running = s.running := by
    unfold DbPool.running
    cases hw : s.worker <;> rfl
  have hun : ({ s with stop := stop, worker := s.worker.wake } : DbPool).unpushed = s.unpushed := by
    unfold DbPool.unpushed
    cases hw : s.worker <;> rfl
  refine ⟨h.pending, h.done, ?_, ?_, ?_, ?_, ?_, ?_, ?_, h.finished, ?_⟩
  · show (l ++ (s.worker.wake.node.toList ++ (d ++ s.held))).Nodup
    rw [wake_node]
    exact h.distinct
  · intro b hb
    have hb : b ∈ l ++ (s.worker.wake.node.toList ++ (d ++ s.held)) := hb
    rw [wake_node] at hb
    exact h.live b hb
  · rw [hrun]
    exact h.accepted
  · rw [hun]
    exact h.executed
  · exact fun hwait => absurd hwait (wake_ne_waiting _)
  · intro hex
    obtain ⟨hl, hs⟩ := h.exited (wake_exited hex)
    exact ⟨hl, by rw [hs] at hstop; exact Bool.eq_true_of_true_le hstop⟩
  · intro hj
    show s.worker.wake = .exited
    rw [h.joined hj]
    rfl
  · intro hne
    rcases h.notified hne with hr | hp | hu
    · exact .inl hr
    · exact .inr (.inl (wake_pushed hp))
    · exact .inr (.inr hu)

theorem take_joined (s : DbPool) : s.dbPoolGetLatestCompletedTask.2.joined = s.joined := by
  unfold DbPool.dbPoolGetLatestCompletedTask
  cases pop s.next s.doneQueue <;> rfl

/-- `db_pool_get_latest_completed_task` -/
theorem DbPool.Inv.take (h : s.Inv l d) :
    (d = [] ∧ s.dbPoolGetLatestCompletedTask.1 = none ∧ s.dbPoolGetLatestCompletedTask.2.Inv l []) ∨
      ∃ a t rest, d = a :: rest ∧ s.task a = some t ∧ s.dbPoolGetLatestCompletedTask.1 = some a ∧
        s.dbPoolGetLatestCompletedTask.2.handed = s.handed ++ [(t, s.result a)] ∧
        s.dbPoolGetLatestCompletedTask.2.Inv l rest := by
  unfold DbPool.dbPoolGetLatestCompletedTask
  cases hp : pop s.next s.doneQueue with
  | none =>
    obtain rfl := h.done.of_pop_none hp
    exact .inl ⟨rfl, rfl, h⟩
  | some p =>
    obtain ⟨a, q⟩ := p
    obtain ⟨rest, rfl, hrest⟩ := h.done.of_pop hp
    obtain ⟨t, ht⟩ := Option.isSome_iff_exists.1 (h.live a (by simp))
    refine .inr ⟨a, t, rest, rfl, ht, rfl, by simp [DbPool.entry, ht], ?_⟩
    have ha : a ∉ rest := (List.nodup_cons.1 h.done.nodup).1
    have hl : a ∉ l := fun hl => (List.nodup_append.1 h.distinct).2.2 a hl a (by simp) rfl
    have hperm : (l ++ (s.worker.node.toList ++ (a :: rest ++ s.held))).Perm
        (l ++ (s.worker.node.toList ++ (rest ++ a :: s.held))) :=
      List.Perm.append_left _ (List.Perm.append_left _ List.perm_middle.symm)
    refine ⟨h.pending.update none hl, hrest.update none ha, hperm.nodup_iff.1 h.distinct,
      fun b hb => h.live b (hperm.mem_iff.2 hb), h.accepted, ?_, h.waiting, h.exited, h.joined,
      fun hdone => absurd (h.finished hdone).2 (List.cons_ne_nil _ _), fun _ =>
      h.notified (List.cons_ne_nil _ _)⟩
    show s.executed = s.handed ++ (s.entry a).toList ++ (rest.filterMap s.entry ++ s.unpushed)
    rw [h.executed]
    cases he : s.entry a <;> simp [he]

/-- a turn of the loop in `db_handler`: it goes on while there are tasks -/
theorem DbPool.Inv.turn (h : s.Inv l d) (hmain : s.main = .draining) :
    ∃ d', s.dbHandlerTurn.Inv l d' := by
  unfold DbPool.dbHandlerTurn
  rcases h.take with ⟨rfl, hnone, hinv⟩ | ⟨a, t, rest, -, -, hsome, -, hinv⟩
  · rw [hnone]
    refine ⟨[], hinv.tells hinv.joined (fun hdone => ?_) fun hne => absurd rfl hne⟩
    cases hj : s.joined with
    | true => exact ⟨(take_joined s).trans hj, rfl⟩
    | false =>
      rw [hj] at hdone
      cases hdone
  · rw [hsome]
    exact ⟨rest, hinv⟩

/-- `db_task_free` -/
theorem DbPool.Inv.free (h : s.Inv l d) (ha : a ∈ s.held) :
    ({ s with held := s.held.erase a, task := Function.update s.task a none } : DbPool).Inv l
    d := by
  have hdist := h.distinct
  have hback : (l ++ (s.worker.node.toList ++ (d ++ s.held))).Perm
      (a :: (l ++ (s.worker.node.toList ++ (d ++ s.held.erase a)))) := by
    refine List.Perm.trans ?_ List.perm_middle
    refine List.Perm.append_left l ?_
    refine List.Perm.trans ?_ List.perm_middle
    refine List.Perm.append_left _ ?_
    exact (List.Perm.append_left d (List.perm_cons_erase ha)).trans List.perm_middle
  have hnodup := List.nodup_cons.1 (hback.nodup_iff.1 hdist)
  have hne : ∀ b ∈ l ++ (s.worker.node.toList ++ (d ++ s.held.erase a)), Function.update s.task a
    none b = s.task b :=
    fun b hb => Function.update_of_ne (fun hba : b = a => hnodup.1 (hba ▸ hb)) ..
  refine ⟨h.pending, h.done, hnodup.2, ?_, ?_, ?_, h.waiting, h.exited, h.joined,
    h.finished, h.notified⟩
  · intro b hb
    show (Function.update s.task a none b).isSome
    rw [hne b hb]
    exact h.live b (hback.mem_iff.2 (List.mem_cons_of_mem _ hb))
  · rw [h.accepted]
    congr 2
    · unfold DbPool.running
      cases hw : s.worker with
      | running b =>
        show (s.task b).toList = (Function.update s.task a none b).toList
        rw [hne b (by simp [hw, DbWorker.node])]
      | _ => rfl
    · exact (List.filterMap_congr fun b hb => hne b (List.mem_append_left _ hb)).symm
  · rw [h.executed]
    congr 2
    · apply List.filterMap_congr
      intro b hb
      show (s.task b).map _ = (Function.update s.task a none b).map _
      rw [hne b (by simp [hb])]
    · unfold DbPool.unpushed
      cases hw : s.worker with
      | executed b =>
        show ((s.task b).map _).toList = ((Function.update s.task a none b).map _).toList
        rw [hne b (by simp [hw, DbWorker.node])]
      | _ => rfl

/-! ## runs -/

theorem dbPoolExecQuery_some {query : Bytes} {data : Nat}
    (h : s.dbPoolExecQuery (some a) query data = some s') :
    s.stop = false ∧ s' = s.enqueue a { query := query, data := data } := by
  unfold DbPool.dbPoolExecQuery at h
  split at h
  · cases h
  · next hok =>
    simp only [not_or, Bool.not_eq_true] at hok
    exact ⟨hok.2, (Option.some.inj h).symm⟩

/-- without memory the call fails -/
theorem dbPoolExecQuery_mem {mem : Option Nat} {query : Bytes} {data : Nat}
    (h : s.dbPoolExecQuery mem query data = some s') :
    ∃ a, mem = some a := by
  cases mem with
  | none =>
    unfold DbPool.dbPoolExecQuery at h
    split at h <;> cases h
  | some a => exact ⟨a, rfl⟩

theorem dbExecQueryParam_mem {mem : Option Nat} {query : Bytes} {params : List DbParam} {data : Nat}
    (h : s.dbExecQueryParam mem query params data = some s') : ∃ a, mem = some a := by
  cases mem with
  | none =>
    unfold DbPool.dbExecQueryParam at h
    repeat' split at h
    all_goals cases h
  | some a => exact ⟨a, rfl⟩

theorem dbExecQueryParam_some {query : Bytes} {params : List DbParam} {data : Nat}
    (h : s.dbExecQueryParam (some a) query params data = some s') :
    s.stop = false ∧ s' = s.enqueue a ⟨query, some params, data⟩ := by
  unfold DbPool.dbExecQueryParam at h
  split at h
  · cases h
  next hok =>
  split at h
  · cases h
  split at h
  · cases h
  · simp only [not_or, Bool.not_eq_true] at hok
    exact ⟨hok.1, (Option.some.inj h).symm⟩

/-- **every step keeps the invariant** -/
theorem DbPool.Inv.step (h : s.Inv l d) (hs : DbPool.Step s s') : ∃ l' d', s'.Inv l' d' := by
  cases hs with
  | execQuery hmain hfresh hx =>
    obtain ⟨hstop, rfl⟩ := dbPoolExecQuery_some hx
    exact ⟨_, _, h.enqueue _ hfresh hstop⟩
  | execQueryParam hmain hfresh hx =>
    obtain ⟨hstop, rfl⟩ := dbExecQueryParam_some hx
    exact ⟨_, _, h.enqueue _ hfresh hstop⟩
  | worker r hx => exact h.worker hx
  | spurious hw =>
    have hwake := h.wakes (Bool.le_refl s.stop)
    rw [hw] at hwake
    exact ⟨_, _, hwake⟩
  | notice hmain hr hc =>
    exact ⟨_, _, h.tells h.joined (fun hdone => by cases hdone) fun _ => .inr (.inr rfl)⟩
  | stale hmain hr hc =>
    refine ⟨_, _, h.tells h.joined h.finished fun hne => ?_⟩
    rcases h.notified hne with hr | hp
    · exact absurd hr.2 (by omega)
    · exact .inr hp
  | read hmain =>
    exact ⟨_, _, h.tells h.joined (fun hdone => by cases hdone) fun _ => .inr (.inr rfl)⟩
  | turn hmain =>
    obtain ⟨d', hinv⟩ := h.turn hmain
    exact ⟨_, _, hinv⟩
  | free hmain ha => exact ⟨_, _, h.free ha⟩
  | stop hmain hj =>
    exact ⟨_, _, (h.wakes (Bool.le_true s.stop)).tells (fun hj' => by rw [hj] at hj'; cases hj')
      (fun hdone => by cases hdone) fun _ => .inr (.inr rfl)⟩
  | join hmain hw =>
    exact ⟨_, _, h.tells (fun _ => hw) (fun hdone => by cases hdone) fun _ => .inr (.inr rfl)⟩

/-- **the invariant holds in every state of a pool** -/
theorem DbPool.Run.inv {connected : Bool} (h : DbPool.Run connected s) : ∃ l d, s.Inv l d := by
  induction h with
  | new => exact ⟨_, _, .new connected⟩
  | step _ hs ih =>
    obtain ⟨l, d, hinv⟩ := ih
    exact hinv.step hs

/-! ## the main result -/

/-- the steps that the worker has to take for the tasks that were accepted -/
def DbPool.todo (s : DbPool) : Nat :=
  4 * (s.accepted.length - s.executed.length) +
    match s.worker with
    | .checking => 1
    | .executed _ => 3
    | .pushed => 2
    | .waiting | .running _ | .exited => 0

/-- the pool neither loses, duplicates nor reorders work -/
structure DbPool.KeepsWork (s : DbPool) : Prop where
  /-- a call that returns 0 has its statement accepted, last, with its parameters and its data -/
  accepted : ∀ mem query data s', s.dbPoolExecQuery mem query data = some s' →
    s'.accepted = s.accepted ++ [{ query := query, data := data }]
  acceptedParam : ∀ mem query params data s', s.dbExecQueryParam mem query params data = some s' →
    s'.accepted = s.accepted ++ [⟨query, some params, data⟩]
  /-- the worker executes the task that it holds -/
  ran : ∀ a r s', s.worker = .running a → s.workerStep r = some s' → ∃ t, s.task a = some t ∧
    s'.executed = s.executed ++ [(t, s'.result a)]
  /-- the tasks are executed once each, in the order in which they were accepted -/
  executed : s.executed.map Prod.fst <+: s.accepted
  /-- they are handed out once each in this order, with the result of their execution -/
  handed : s.handed <+: s.executed
  /-- `db_pool_get_latest_completed_task` hands out the next one -/
  fetched : ∀ a, s.dbPoolGetLatestCompletedTask.1 = some a → ∃ t, s.task a = some t ∧
    s.dbPoolGetLatestCompletedTask.2.handed = s.handed ++ [(t, s.result a)]
  /-- it finds none only when all that were pushed are handed out -/
  empty : s.dbPoolGetLatestCompletedTask.1 = none → s.handed ++ s.unpushed = s.executed
  /-- the worker can go on until no task is left -/
  progress : s.worker ≠ .waiting → s.worker ≠ .exited → ∀ r, ∃ s', s.workerStep r = some s' ∧
    s'.todo < s.todo
  idle : s.worker = .waiting ∨ s.worker = .exited → s.executed.map Prod.fst = s.accepted
  /-- it does not wait once the pool is stopped -/
  awake : s.worker = .waiting → s.stop = false
  /-- after `db_pool_stop` every task is executed, and those not handed out can be fetched -/
  stopped : s.joined = true → s.executed.map Prod.fst = s.accepted ∧
    (s.dbPoolGetLatestCompletedTask.1 = none → s.handed.map Prod.fst = s.accepted)
  /-- once the last call of `db_handler` has returned, every task was handed out -/
  finished : s.main = .done → s.handed.map Prod.fst = s.accepted
  /-- both queues have no head exactly when they have no tail, and their tail is the last node -/
  ends : (s.taskQueue.head = none ↔ s.taskQueue.tail = none) ∧
    (s.doneQueue.head = none ↔ s.doneQueue.tail = none)
  last : ∃ l d, Path s.next s.taskQueue.head l ∧ s.taskQueue.tail = l.getLast? ∧
    Path s.next s.doneQueue.head d ∧
    s.doneQueue.tail = d.getLast?
  /-- a completed task does not wait unnoticed -/
  notified : s.doneQueue.head ≠ none → s.Notified

theorem todo_lt (h : s.Inv l d) {r : DbResult} (hs : s.workerStep r = some s') :
    s'.todo < s.todo := by
  have hlen := congrArg List.length h.accepted
  rw [List.length_append, List.length_append, List.length_map] at hlen
  unfold DbPool.workerStep at hs
  split at hs
  · next hw =>
    split at hs
    · next a q hp =>
      cases hs
      simp only [DbPool.todo, hw]
      omega
    · next hp =>
      cases hs
      simp only [DbPool.todo, hw]
      cases s.stop <;> simp
  · next a hw =>
    cases hs
    obtain ⟨t, ht⟩ := Option.isSome_iff_exists.1 (h.live a (by simp [hw, DbWorker.node]))
    simp only [DbPool.running, hw, ht, Option.toList_some, List.length_singleton] at hlen
    simp only [DbPool.todo, hw, ht, Option.toList_some, List.map_cons, List.map_nil,
      List.length_append,
      List.length_singleton]
    omega
  · next a hw =>
    cases hs
    simp only [DbPool.todo, hw]
    omega
  · next hw =>
    cases hs
    simp only [DbPool.todo, hw]
    omega
  · cases hs
  · cases hs

theorem workerStep_some (hwait : s.worker ≠ .waiting) (hex : s.worker ≠ .exited) (r : DbResult) :
    ∃ s', s.workerStep r = some s' := by
  unfold DbPool.workerStep
  cases hw : s.worker with
  | checking => cases hp : pop s.next s.taskQueue <;> exact ⟨_, rfl⟩
  | waiting => exact absurd hw hwait
  | exited => exact absurd hw hex
  | _ => exact ⟨_, rfl⟩

theorem executes_task (h : s.Inv l d) {r : DbResult} (hw : s.worker = .running a)
    (hs : s.workerStep r = some s') :
    ∃ t, s.task a = some t ∧ s'.executed = s.executed ++ [(t, s'.result a)] := by
  obtain ⟨t, ht⟩ := Option.isSome_iff_exists.1 (h.live a (by simp [hw, DbWorker.node]))
  unfold DbPool.workerStep at hs
  simp only [hw] at hs
  cases hs
  refine ⟨t, ht, ?_⟩
  dsimp only
  rw [ht, Function.update_self]
  rfl

/-- **no task is lost, duplicated or reordered**, however the two threads interleave -/
theorem pool_keeps_work {connected : Bool} (hrun : DbPool.Run connected s) : s.KeepsWork := by
  obtain ⟨l, d, h⟩ := hrun.inv
  have hidle : s.worker = .waiting ∨ s.worker = .exited → s.executed.map Prod.fst = s.accepted := by
    intro hw
    have hl : l = [] := hw.elim (fun hw => (h.waiting hw).1) fun hw => (h.exited hw).1
    have hrun : s.running = [] := by
      unfold DbPool.running
      rcases hw with hw | hw <;> rw [hw]
    rw [h.accepted, hl, hrun]
    simp
  have hempty : s.dbPoolGetLatestCompletedTask.1 = none → s.handed ++ s.unpushed = s.executed := by
    intro hnone
    rcases h.take with ⟨rfl, -, -⟩ | ⟨a, t, rest, -, -, hsome, -⟩
    · exact h.executed.symm
    · rw [hnone] at hsome
      cases hsome
  have hstopped : s.joined = true → s.executed.map Prod.fst = s.accepted ∧
      (s.dbPoolGetLatestCompletedTask.1 = none → s.handed.map Prod.fst = s.accepted) := by
    intro hj
    have hex := h.joined hj
    refine ⟨hidle (.inr hex), fun hnone => ?_⟩
    have hall := hempty hnone
    rw [DbPool.unpushed, hex, List.append_nil] at hall
    rw [hall]
    exact hidle (.inr hex)
  refine ⟨?_, ?_, fun a r s' => executes_task h, ⟨_, h.accepted.symm⟩, ⟨_, h.executed.symm⟩, ?_,
    hempty, ?_, hidle,
    fun hw => (h.waiting hw).2, hstopped, ?_, ⟨h.pending.head_iff_tail, h.done.head_iff_tail⟩,
    ⟨l, d, h.pending.path, h.pending.last, h.done.path, h.done.last⟩, ?_⟩
  · intro mem query data s' hs
    obtain ⟨a, rfl⟩ := dbPoolExecQuery_mem hs
    obtain ⟨-, rfl⟩ := dbPoolExecQuery_some hs
    rfl
  · intro mem query params data s' hs
    obtain ⟨a, rfl⟩ := dbExecQueryParam_mem hs
    obtain ⟨-, rfl⟩ := dbExecQueryParam_some hs
    rfl
  · intro a ha
    rcases h.take with ⟨-, hnone, -⟩ | ⟨a', t, rest, -, ht, hsome, hhanded, -⟩
    · rw [hnone] at ha
      cases ha
    · rw [hsome] at ha
      cases ha
      exact ⟨t, ht, hhanded⟩
  · intro hwait hex r
    obtain ⟨s', hs⟩ := workerStep_some hwait hex r
    exact ⟨s', hs, todo_lt h hs⟩
  · intro hdone
    obtain ⟨hj, rfl⟩ := h.finished hdone
    refine (hstopped hj).2 ?_
    rcases h.take with ⟨-, hnone, -⟩ | ⟨a, t, rest, hcons, -⟩
    · exact hnone
    · cases hcons
  · intro hne
    apply h.notified
    rintro rfl
    exact hne h.done.head

/-! ## the queues as lists -/

/-- the tasks that wait or run, and the completed ones that were not handed out -/
def DbPool.view (s : DbPool) : List Task × List (Task × DbResult) :=
  (s.accepted.drop s.executed.length, s.executed.drop s.handed.length)

/-- a step on two lists: a task comes in, the first one is executed, a completed one goes out -/
inductive Moves : List Task × List (Task × DbResult) → List Task × List
    (Task × DbResult) → Prop where
  | stays (v : List Task × List (Task × DbResult)) : Moves v v
  | comes (tasks : List Task) (done : List (Task × DbResult)) (t : Task) :
      Moves (tasks, done) (tasks ++ [t], done)
  | executed (t : Task) (tasks : List Task) (done : List (Task × DbResult)) (r : DbResult) :
      Moves (t :: tasks, done) (tasks, done ++ [(t, r)])
  | goes (e : Task × DbResult) (tasks : List Task) (done : List (Task × DbResult)) :
      Moves (tasks, e :: done) (tasks, done)

theorem enqueue_moves (h : s.Inv l d) (t : Task) : Moves s.view (s.enqueue a t).view := by
  have hle : s.executed.length ≤ s.accepted.length := by
    rw [h.accepted]
    simp
  have hview : (s.enqueue a t).view = (s.accepted.drop s.executed.length ++ [t],
    s.executed.drop s.handed.length) := by
    show ((s.accepted ++ [t]).drop s.executed.length, _) = _
    rw [List.drop_append_of_le_length hle]
    rfl
  rw [hview]
  exact .comes ..

theorem executes_moves (h : s.Inv l d) (hw : s.worker = .running a) (r : DbResult) :
    Moves s.view ({ s with
      result := Function.update s.result a r
      worker := .executed a
      executed := s.executed ++ (s.task a).toList.map fun t => (t, r) } : DbPool).view := by
  obtain ⟨t, ht⟩ := Option.isSome_iff_exists.1 (h.live a (by simp [hw, DbWorker.node]))
  have hacc : s.accepted = s.executed.map Prod.fst ++ t :: l.filterMap s.task := by
    have hrun : s.running = [t] := by
      rw [DbPool.running, hw]
      show (s.task a).toList = [t]
      rw [ht]
      rfl
    rw [h.accepted, hrun]
    rfl
  have hle : s.handed.length ≤ s.executed.length := by
    rw [h.executed]
    simp
  have hbefore : s.view = (t :: l.filterMap s.task, s.executed.drop s.handed.length) := by
    unfold DbPool.view
    rw [hacc, List.drop_left' (List.length_map _)]
  have hafter : (s.accepted.drop (s.executed ++ [(t, r)]).length, (s.executed ++ [(t, r)]).drop
    s.handed.length) =
      (l.filterMap s.task, s.executed.drop s.handed.length ++ [(t, r)]) := by
    rw [List.drop_append_of_le_length hle, hacc, List.length_append, List.length_singleton,
      ← List.drop_drop,
      List.drop_left' (List.length_map _)]
    rfl
  unfold DbPool.view at hbefore ⊢
  rw [ht, hbefore]
  show Moves _ (s.accepted.drop (s.executed ++ [(t, r)]).length, (s.executed ++ [(t, r)]).drop
    s.handed.length)
  rw [hafter]
  exact .executed ..

theorem take_moves (h : s.Inv l d) : Moves s.view s.dbPoolGetLatestCompletedTask.2.view := by
  unfold DbPool.dbPoolGetLatestCompletedTask
  cases hp : pop s.next s.doneQueue with
  | none => exact .stays _
  | some p =>
    obtain ⟨a, q⟩ := p
    obtain ⟨rest, rfl, -⟩ := h.done.of_pop hp
    obtain ⟨t, ht⟩ := Option.isSome_iff_exists.1 (h.live a (by simp))
    have hentry : s.entry a = some (t, s.result a) := by rw [DbPool.entry, ht]; rfl
    have hexec : s.executed = s.handed ++ (t, s.result a) ::
      (rest.filterMap s.entry ++ s.unpushed) := by
      rw [h.executed, List.filterMap_cons_some hentry]
      rfl
    have hbefore : s.view =
        (s.accepted.drop s.executed.length, (t, s.result a) ::
          (rest.filterMap s.entry ++ s.unpushed)) := by
      unfold DbPool.view
      conv_lhs => rw [hexec]
      rw [List.drop_left, ← hexec]
    have hafter : s.executed.drop (s.handed ++ [(t, s.result a)]).length = rest.filterMap s.entry ++
      s.unpushed := by
      rw [hexec, List.length_append, List.length_singleton, ← List.drop_drop, List.drop_left]
      rfl
    rw [hbefore]
    show Moves _ (s.accepted.drop s.executed.length, s.executed.drop
      (s.handed ++ (s.entry a).toList).length)
    rw [hentry, Option.toList_some, hafter]
    exact .goes ..

theorem turn_moves (h : s.Inv l d) : Moves s.view s.dbHandlerTurn.view := by
  have htake := take_moves h
  unfold DbPool.dbHandlerTurn
  cases s.dbPoolGetLatestCompletedTask.1 <;> exact htake

/-- **the pool is a queue of tasks and a queue of completed tasks** -/
theorem DbPool.Inv.moves (h : s.Inv l d) (hs : DbPool.Step s s') : Moves s.view s'.view := by
  cases hs with
  | execQuery hmain hfresh hx =>
    obtain ⟨-, rfl⟩ := dbPoolExecQuery_some hx
    exact enqueue_moves h _
  | execQueryParam hmain hfresh hx =>
    obtain ⟨-, rfl⟩ := dbExecQueryParam_some hx
    exact enqueue_moves h _
  | worker r hx =>
    unfold DbPool.workerStep at hx
    split at hx
    · split at hx <;> cases hx <;> exact .stays _
    · next a hw =>
      cases hx
      exact executes_moves h hw _
    · cases hx
      exact .stays _
    · cases hx
      exact .stays _
    · cases hx
    · cases hx
  | turn hmain => exact turn_moves h
  | _ => exact .stays _

end

/-! ## a task -/

def sampleTask : Task := { query := ascii "SELECT 1", data := 7 }

/-- steps of the worker, with a database that answers `r` -/
def DbPool.work (r : DbResult) : Nat → DbPool → DbPool
  | 0, s => s
  | n + 1, s => ((s.workerStep r).getD s).work r n

theorem work_run {connected : Bool} (r : DbResult) (n : Nat) {s : DbPool}
    (h : DbPool.Run connected s) :
    DbPool.Run connected (s.work r n) := by
  induction n generalizing s with
  | zero => exact h
  | succ n ih =>
    unfold DbPool.work
    apply ih
    cases hs : s.workerStep r with
    | none => exact h
    | some s' => exact h.step (.worker r hs)

/-- a task is enqueued, the pool is stopped, and the worker goes on for `n` steps -/
def DbPool.samplePool (n : Nat) : DbPool :=
  DbPool.work { success := true, affected := 1 } n
    { (DbPool.new true).enqueue 0 sampleTask with stop := true, main := .joining }

theorem samplePool_run (n : Nat) : DbPool.Run true (DbPool.samplePool n) := by
  apply work_run
  have hq : (DbPool.new true).dbPoolExecQuery (some 0) sampleTask.query sampleTask.data =
      some ((DbPool.new true).enqueue 0 sampleTask) := by
    unfold DbPool.dbPoolExecQuery
    rw [if_neg (by decide +kernel)]
    rfl
  exact (DbPool.Run.new.step (.execQuery rfl rfl hq)).step (.stop (.inl rfl) rfl)

theorem pool_keeps_work_stopped :
    (DbPool.samplePool 5).worker = .exited ∧
      (DbPool.samplePool 5).dbPoolGetLatestCompletedTask.2.handed =
      [(sampleTask, { success := true, affected := 1 })] ∧
      (DbPool.samplePool 5).KeepsWork :=
  ⟨by decide +kernel, by decide +kernel, pool_keeps_work (samplePool_run 5)⟩

end Workers
