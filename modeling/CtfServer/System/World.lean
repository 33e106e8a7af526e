import CtfServer.App.Replies
import CtfServer.Store.Tables
import CtfServer.Lib.History

/-!
# The server, its database and its password worker

The event loop (server.c) hands requests to the handlers, the db pool (db.c) runs their
statements, the password worker (password_worker.c) their jobs, and the two come back through
`db_handler` and `password_worker_handler`.  A step is one of these, or a client that comes or
goes; the steps of different requests interleave in any order.

* `World`     the state of all of it, with a log of what happened;
* `Step`      one step;
* `Run`       the states of a server that starts with a given database.
-/

set_option linter.unusedVariables false

namespace System

open App Store
open Json (validPassword)

def PASSWORD_QUEUE_CAPACITY : Nat := 16

/-- `db_task_t`: `data` is the request -/
structure Task where
  data : Nat
  query : Query
  deriving DecidableEq

/-- a task of the done queue -/
structure DoneTask extends Task where
  result : DbResult
  deriving DecidableEq

/-- `password_job_t` -/
structure Job where
  data : Nat
  job : PasswordJob
  deriving DecidableEq

/-- a job of the done queue -/
structure DoneJob extends Job where
  result : PasswordResult
  deriving DecidableEq

/-- a request of a client: its connection, while it is open, and its state -/
structure Client where
  request : Request
  conn : Bool
  state : ReqState

/-- a statement of the request `id` was executed when the clock of the database was at `now` -/
structure Execution where
  id : Nat
  query : Query
  now : Int
  before : Db
  after : Db
  result : DbResult

/-- what is logged -/
inductive Entry where
  /-- a handler was called for the request `id` -/
  | call (id : Nat) (events : List Event)
  | exec (x : Execution)

structure World where
  db : Db
  clients : Nat → Option Client := fun _ => none
  /-- `task_queue` and `done_queue` of the pool -/
  tasks : List Task := []
  done : List DoneTask := []
  /-- the queues of the password worker, and the job it is at -/
  pending : List Job := []
  running : Option Job := none
  doneJobs : List DoneJob := []
  stopped : Bool := false
  log : List Entry := []

def World.start (db : Db) : World := { db := db }

/-- the tasks and jobs that the events of a call of request `id` enqueue -/
def tasksOf (id : Nat) (events : List Event) : List Task :=
  events.filterMap fun
    | .query q => some ⟨id, q⟩
    | _ => none

def jobsOf (id : Nat) (events : List Event) : List Job :=
  events.filterMap fun
    | .submit job => some ⟨id, job⟩
    | _ => none

/-- request `id` after a call that left it in `state` with the new `events` -/
def World.settle (w : World) (id : Nat) (client : Client) (events : List Event) : World :=
  { w with
    clients := Function.update w.clients id (some client)
    tasks := w.tasks ++ tasksOf id events
    pending := w.pending ++ jobsOf id events
    log := w.log ++ [.call id events] }

/-- request `id` in another state, without a call -/
def World.put (w : World) (id : Nat) (client : Client) : World :=
  { w with clients := Function.update w.clients id (some client) }

/-- the answer of `password_worker_submit` is that of the queue -/
def World.Admits (w : World) (env : Env) : Prop :=
  match env.queue with
  | .stopped => w.stopped = true
  | .full => w.stopped = false ∧ w.pending.length = PASSWORD_QUEUE_CAPACITY
  | _ => w.stopped = false ∧ w.pending.length ≠ PASSWORD_QUEUE_CAPACITY

/-- the result of a job in `run_password_worker` -/
inductive JobResult (passwords : PasswordLib) : PasswordJob → PasswordResult → Prop where
  | hash {job : PasswordJob} (computed : Option Bytes) (ho : job.operation = .hash)
      (hc : ∀ h, computed = some h → passwords.produced job.password h) :
      JobResult passwords job (authPasswordHash computed job.password)
  | verify {job : PasswordJob} (ho : job.operation = .verify)
      (hk : job.unknownUser = false ∨
        (authPasswordVerify passwords job.storedHash job.password).failure ≠ none) :
      JobResult passwords job (authPasswordVerify passwords job.storedHash job.password)
  | unknown {job : PasswordJob} (ho : job.operation = .verify) (hk : job.unknownUser = true)
      (hr : (authPasswordVerify passwords job.storedHash job.password).failure = none) :
      JobResult passwords job { failure := some .invalid }

section
variable (lib : AuthLib) (passwords : PasswordLib) (runtime : Runtime) (dateFormat : Int → Bytes)
  (meets : Nat → Env → Prop)

/-- `meets` are the surroundings that the calls of each request may find -/
inductive Step : World → World → Prop where
  /-- `client_handler`: a request was parsed and goes to its route -/
  | accept {w : World} {id : Nat} (request : Request) (env : Env) (hmeets : meets id env)
      (hid : w.clients id = none) (hadm : w.Admits env) :
      Step w (w.settle id ⟨request, true, .start (dispatch lib runtime env request)⟩
        (dispatch lib runtime env request).events)
  /-- `db_worker_thread`: a task is executed; with several threads it need not be the first one -/
  | work {w : World} {front rest : List Task} {task : Task} {r : DbResult} {db' : Db} (now : Int)
      (ht : w.tasks = front ++ task :: rest) (hx : Exec dateFormat now task.query w.db r db') :
      Step w { w with
        db := db'
        tasks := front ++ rest
        done := w.done ++ [⟨task, r⟩]
        log := w.log ++ [.exec ⟨task.data, task.query, now, w.db, db', r⟩] }
  /-- `db_handler` -/
  | deliver {w : World} {t : DoneTask} {rest : List DoneTask} {client : Client} (env : Env)
      (hmeets : meets t.data env)
      (ht : w.done = t :: rest) (hc : w.clients t.data = some client) (hconn : client.conn = true)
      (hadm : w.Admits env) :
      Step w (({ w with done := rest } : World).settle t.data
        ⟨client.request, true, client.state.resume (.db t.query) [.completed t.query t.result]
          (runStages lib runtime env { task := some ⟨t.query, t.result⟩ } client.state.ctx
            client.state.ctx.chain)⟩
        (runStages lib runtime env { task := some ⟨t.query, t.result⟩ } client.state.ctx
          client.state.ctx.chain).events)
  /-- `db_handler`, when the connection is closed -/
  | drop {w : World} {t : DoneTask} {rest : List DoneTask} {client : Client}
      (ht : w.done = t :: rest)
      (hc : w.clients t.data = some client) (hconn : client.conn = false) :
      Step w (({ w with done := rest } : World).put t.data
        ⟨client.request, false, client.state.discard (.db t.query) [.discarded t.query t.result]⟩)
  /-- the connection of a client is closed -/
  | hangup {w : World} {id : Nat} {client : Client} (hc : w.clients id = some client) :
      Step w (w.put id { client with conn := false })
  /-- `run_password_worker` takes a job -/
  | take {w : World} {j : Job} {rest : List Job} (hs : w.stopped = false) (hr : w.running = none)
      (hp : w.pending = j :: rest) :
      Step w { w with pending := rest, running := some j }
  /-- `run_password_worker` is done with its job -/
  | finish {w : World} {j : Job} {result : PasswordResult} (hr : w.running = some j)
      (hx : JobResult passwords j.job result) :
      Step w { w with running := none, doneJobs := w.doneJobs ++ [⟨j, result⟩] }
  /-- `password_worker_stop` -/
  | stop {w : World} :
      Step w { w with
        stopped := true
        pending := []
        doneJobs := w.doneJobs ++ w.pending.map fun j =>
          ⟨j, { failure := some .error, cancelled := true }⟩ }
  /-- `password_worker_handler` -/
  | deliverJob {w : World} {j : DoneJob} {rest : List DoneJob} {client : Client} (env : Env)
      (hmeets : meets j.data env)
      (hj : w.doneJobs = j :: rest) (hc : w.clients j.data = some client)
      (hconn : client.conn = true)
      (hcancel : j.result.cancelled = false) (hadm : w.Admits env) :
      Step w (({ w with doneJobs := rest } : World).settle j.data
        ⟨client.request, true, client.state.resume (.password j.job) [.finished j.job j.result]
          (runStages lib runtime env { workerResult := some j.result } client.state.ctx
            client.state.ctx.chain)⟩
        (runStages lib runtime env { workerResult := some j.result } client.state.ctx
          client.state.ctx.chain).events)
  /-- `password_worker_handler`, for a job that was cancelled -/
  | cancelJob {w : World} {j : DoneJob} {rest : List DoneJob} {client : Client}
      (hj : w.doneJobs = j :: rest)
      (hc : w.clients j.data = some client) (hconn : client.conn = true)
      (hcancel : j.result.cancelled = true) :
      Step w (({ w with doneJobs := rest } : World).settle j.data
        ⟨client.request, true, client.state.cancel (.password j.job)⟩ [.respond cancelledResponse])
  /-- `password_worker_handler`, when the connection is closed -/
  | dropJob {w : World} {j : DoneJob} {rest : List DoneJob} {client : Client}
      (hj : w.doneJobs = j :: rest)
      (hc : w.clients j.data = some client) (hconn : client.conn = false) :
      Step w (({ w with doneJobs := rest } : World).put j.data
        ⟨client.request, false, client.state.discard (.password j.job) []⟩)

/-- the states of a server that starts with the database `db` -/
inductive Run (db : Db) : World → Prop where
  | start : Run db (World.start db)
  | step {w w' : World} : Run db w → Step lib passwords runtime dateFormat meets w w' → Run db w'

end

end System
