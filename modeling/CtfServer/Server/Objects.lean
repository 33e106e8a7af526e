import CtfServer.Lib.Arena

/-!
# The objects of the server and who releases them

server_connection.c, http_server.c, and what server.c, db.c and password_worker_http.c do with
connections, requests, contexts, db tasks, password jobs and header buffers.  A function gives
`none` where the C code would use an object that was released, release it again, or follow a null
pointer.  What the outside decides (memory, sockets, the parser, the handlers) is an argument.

* `State`                       the objects, the lists and the queues;
* `removeConnection`, `reapConnections`   server_connection.c;
* `httpRequestContextDispose`, `httpServerHandleRequest`   http_server.c;
* `startSendHttpResponse`, `clientHandler`, `dbHandlerTurn`   server.c;
* `passwordWorkerHandlerTurn`   password_worker_http.c.
-/

set_option linter.unusedVariables false

namespace Server

/-! ## the objects -/

/-- the header buffer of a response, and the request whose memory holds its body -/
structure Outgoing where
  header : Nat
  body : Nat
  deriving DecidableEq, Repr

/-- `connection_t` of a client -/
structure Connection where
  /-- `fd >= 0` -/
  isOpen : Bool
  request : Option Nat
  /-- `header_buffer` and the iovecs -/
  outgoing : Option Outgoing
  deriving DecidableEq, Repr

/-- `http_request_t` -/
structure Request where
  conn : Option Nat
  context : Option Nat
  deriving DecidableEq, Repr

/-- `http_request_context_t` -/
structure Context where
  request : Nat
  deriving DecidableEq, Repr

/-- `db_task_t` -/
structure Task where
  data : Nat
  deriving DecidableEq, Repr

/-- `password_job_t` -/
structure Job where
  data : Nat
  cancelled : Bool
  deriving DecidableEq, Repr

/-- a response that was started: for which request, on which connection, and what that
connection was at this moment -/
structure Sent where
  request : Nat
  conn : Nat
  onto : Connection
  deriving DecidableEq, Repr

/-- `server_t` with what it leads to, and a log of the responses and of the requests as they
were released -/
structure State where
  conns : Arena Connection
  requests : Arena Request
  contexts : Arena Context
  tasks : Arena Task
  jobs : Arena Job
  headers : Arena Unit
  /-- `clients` and `retired_clients` -/
  clients : List Nat
  retired : List Nat
  /-- the queues of the pool, and the tasks that its threads hold -/
  taskQueue : List Nat
  running : List Nat
  doneQueue : List Nat
  dbStop : Bool
  /-- the queues of the password worker, and the job that it holds -/
  pending : List Nat
  computing : Option Nat
  doneJobs : List Nat
  stopped : Bool
  sent : List Sent
  disposed : List Request

def State.start : State where
  conns := .empty
  requests := .empty
  contexts := .empty
  tasks := .empty
  jobs := .empty
  headers := .empty
  clients := []
  retired := []
  taskQueue := []
  running := []
  doneQueue := []
  dbStop := false
  pending := []
  computing := none
  doneJobs := []
  stopped := false
  sent := []
  disposed := []

/-! ## requests and connections -/

/-- `http_request_dispose` -/
def httpRequestDispose (s : State) (req : Nat) : Option State := do
  let request ← s.requests.get req
  let requests ← s.requests.free req
  some { s with requests := requests, disposed := s.disposed ++ [request] }

/-- a turn of `listen_handler` with a client: `registered` is what `add_connection` says -/
def acceptConnection (s : State) (registered : Bool) : Option State := do
  let conn := s.conns.next
  let s := { s with conns := s.conns.alloc ⟨true, none, none⟩ }
  if registered then some { s with clients := conn :: s.clients }
  else
    let conns ← s.conns.free conn
    some { s with conns := conns }

/-- what `remove_connection` does with the request of the connection -/
def detachRequest (s : State) : Option Nat → Option State
  | none => some s
  | some req => do
    let request ← s.requests.get req
    let request := { request with conn := none }
    let requests ← s.requests.set req request
    let s := { s with requests := requests }
    if request.context = none then httpRequestDispose s req else some s

/-- `free(conn->state.client.header_buffer)` -/
def freeHeader (s : State) : Option Outgoing → Option State
  | none => some s
  | some outgoing => do
    let headers ← s.headers.free outgoing.header
    some { s with headers := headers }

/-- `remove_connection` -/
def removeConnection (s : State) (conn : Nat) : Option State := do
  let c ← s.conns.get conn
  if c.isOpen = false then some s
  else
    let conns ← s.conns.set conn ⟨false, none, none⟩
    let s := { s with conns := conns, clients := s.clients.erase conn }
    let s ← detachRequest s c.request
    let s ← freeHeader s c.outgoing
    some { s with retired := conn :: s.retired }

/-- releases the connections of a list -/
def freeConnections : List Nat → Arena Connection → Option (Arena Connection)
  | [], conns => some conns
  | conn :: rest, conns => (conns.free conn).bind (freeConnections rest)

/-- `reap_connections` -/
def reapConnections (s : State) : Option State := do
  let conns ← freeConnections s.retired s.conns
  some { s with conns := conns, retired := [] }

/-- `http_request_context_dispose` -/
def httpRequestContextDispose (s : State) (ctx : Nat) : Option State := do
  let context ← s.contexts.get ctx
  let request ← s.requests.get context.request
  let request := { request with context := none }
  let requests ← s.requests.set context.request request
  let s := { s with requests := requests }
  let s ← if request.conn = none then httpRequestDispose s context.request else some s
  let contexts ← s.contexts.free ctx
  some { s with contexts := contexts }

/-! ## responses -/

/-- `connection_send_buffer` returns 1, 0 or -1 -/
inductive SendResult where
  | all | partially | failed
  deriving DecidableEq, Repr, Inhabited

/-- what `start_send_http_response` meets: `http_response_build_header`, the first writes, and
`epoll_ctl` when they were partial -/
structure Sending where
  header : Bool
  result : SendResult
  registered : Bool
  deriving DecidableEq, Repr, Inhabited

/-- `connection_send_buffer` reads the header and the body -/
def connectionSendBuffer (s : State) (conn : Nat) (result : SendResult) : Option SendResult := do
  let c ← s.conns.get conn
  match c.outgoing with
  | none => some .all
  | some outgoing =>
    let _ ← s.headers.get outgoing.header
    let _ ← s.requests.get outgoing.body
    some result

/-- `start_send_http_response` with a response of the request `req` -/
def startSendHttpResponse (s : State) (conn req : Nat) (sending : Sending) : Option State := do
  if sending.header = false then removeConnection s conn
  else
    let c ← s.conns.get conn
    let conns ← s.conns.set conn { c with outgoing := some ⟨s.headers.next, req⟩ }
    let s := { s with
      conns := conns
      headers := s.headers.alloc ()
      sent := s.sent ++ [⟨req, conn, c⟩] }
    let result ← connectionSendBuffer s conn sending.result
    match result, sending.registered with
    | .partially, true => some s
    | _, _ => removeConnection s conn

/-! ## handlers -/

/-- how a call of a handler function ends: it answers, or it enqueues a task or a job -/
inductive Outcome where
  | answer | query | submit
  deriving DecidableEq, Repr, Inhabited

def PASSWORD_QUEUE_CAPACITY : Nat := 16

/-- `db_task_free` -/
def dbTaskFree (s : State) (task : Nat) : Option State := do
  let tasks ← s.tasks.free task
  some { s with tasks := tasks }

/-- `db_pool_exec_query` or `db_exec_query_param`, and whether it was refused -/
def execQuery (s : State) (ctx : Nat) : State × Bool :=
  if s.dbStop then (s, true)
  else ({ s with tasks := s.tasks.alloc ⟨ctx⟩, taskQueue := s.taskQueue ++ [s.tasks.next] }, false)

/-- `password_worker_submit`, and whether it was refused -/
def submitPassword (s : State) (ctx : Nat) : State × Bool :=
  if s.stopped ∨ s.pending.length = PASSWORD_QUEUE_CAPACITY then (s, true)
  else ({ s with jobs := s.jobs.alloc ⟨ctx, false⟩, pending := s.pending ++ [s.jobs.next] }, false)

/-- the end of a handler function, and whether it has answered -/
def endHandler (s : State) (ctx : Nat) : Outcome → State × Bool
  | .answer => (s, true)
  | .query => execQuery s ctx
  | .submit => submitPassword s ctx

/-- `ctx->current_handler->func`: it reads its context and its request, releases its task, and
says whether it has answered -/
def callHandler (s : State) (ctx : Nat) (task : Option Nat) (outcome : Outcome) :
    Option (State × Bool) := do
  let context ← s.contexts.get ctx
  let _ ← s.requests.get context.request
  let s ←
    match task with
    | none => some s
    | some task => dbTaskFree s task
  some (endHandler s ctx outcome)

/-- what `http_server_handle_request` meets -/
structure Routing where
  found : Bool
  memory : Bool
  outcome : Outcome
  deriving DecidableEq, Repr, Inhabited

/-- `http_server_handle_request`, and `is_complete` -/
def httpServerHandleRequest (s : State) (req : Nat) (routing : Routing) :
    Option (State × Bool) := do
  if routing.found = false ∨ routing.memory = false then some (s, true)
  else
    let request ← s.requests.get req
    let ctx := s.contexts.next
    let requests ← s.requests.set req { request with context := some ctx }
    let s := { s with contexts := s.contexts.alloc ⟨req⟩, requests := requests }
    let (s, completed) ← callHandler s ctx none routing.outcome
    if completed then
      let s ← httpRequestContextDispose s ctx
      some (s, true)
    else some (s, false)

/-- what `client_handler` meets: `gone` is what `recv` says of a client that waits, `valid` what
`parse_http_request` says -/
structure Incoming where
  gone : Bool
  memory : Bool
  valid : Bool
  routing : Routing
  sending : Sending
  deriving DecidableEq, Repr, Inhabited

/-- `client_handler` -/
def clientHandler (s : State) (conn : Nat) (incoming : Incoming) : Option State := do
  let c ← s.conns.get conn
  if c.request.isSome then if incoming.gone then removeConnection s conn else some s
  else if incoming.memory = false then removeConnection s conn
  else
    let req := s.requests.next
    let conns ← s.conns.set conn { c with request := some req }
    let s := { s with conns := conns, requests := s.requests.alloc ⟨some conn, none⟩ }
    if incoming.valid = false then startSendHttpResponse s conn req incoming.sending
    else
      let (s, complete) ← httpServerHandleRequest s req incoming.routing
      if complete then startSendHttpResponse s conn req incoming.sending else some s

/-! ## completions -/

/-- the answer of a context: `start_send_http_response` and `http_request_context_dispose` -/
def finish (s : State) (ctx : Nat) (sending : Sending) : Option State := do
  let context ← s.contexts.get ctx
  let request ← s.requests.get context.request
  let conn ← request.conn
  let s ← startSendHttpResponse s conn context.request sending
  httpRequestContextDispose s ctx

/-- what a completion meets -/
structure Completion where
  outcome : Outcome
  sending : Sending
  deriving DecidableEq, Repr, Inhabited

/-- a turn of the loop of `db_handler`, with the first task of the done queue -/
def dbHandlerTurn (s : State) (task : Nat) (rest : List Nat) (completion : Completion) :
    Option State := do
  let s := { s with doneQueue := rest }
  let t ← s.tasks.get task
  let context ← s.contexts.get t.data
  let request ← s.requests.get context.request
  if request.conn = none then
    let s ← dbTaskFree s task
    httpRequestContextDispose s t.data
  else
    let (s, complete) ← callHandler s t.data (some task) completion.outcome
    if complete then finish s t.data completion.sending else some s

/-- `password_job_free` -/
def passwordJobFree (s : State) (job : Nat) : Option State := do
  let jobs ← s.jobs.free job
  some { s with jobs := jobs }

/-- a turn of the loop of `password_worker_handler`, with the first job that is done; one that was
cancelled is answered without its handler -/
def passwordWorkerHandlerTurn (s : State) (job : Nat) (rest : List Nat) (completion : Completion) :
    Option State := do
  let s := { s with doneJobs := rest }
  let j ← s.jobs.get job
  let context ← s.contexts.get j.data
  let request ← s.requests.get context.request
  if request.conn = none then
    let s ← passwordJobFree s job
    httpRequestContextDispose s j.data
  else
    let (s, complete) ←
      if j.cancelled then some (s, true) else callHandler s j.data none completion.outcome
    let s ← passwordJobFree s job
    if complete then finish s j.data completion.sending else some s

/-! ## the threads, and the end -/

/-- the thread of the pool takes the first task, if there is one -/
def dbTake (s : State) : Option State :=
  match s.taskQueue with
  | [] => some s
  | task :: rest => do
    let _ ← s.tasks.get task
    some { s with taskQueue := rest, running := s.running ++ [task] }

/-- a task has its result -/
def dbDone (s : State) (task : Nat) : Option State := do
  let _ ← s.tasks.get task
  some { s with running := s.running.erase task, doneQueue := s.doneQueue ++ [task] }

/-- the thread of the password worker takes the first job, if there is one -/
def jobTake (s : State) : Option State :=
  match s.pending with
  | [] => some s
  | job :: rest => do
    let _ ← s.jobs.get job
    some { s with pending := rest, computing := some job }

/-- the job has its result -/
def jobDone (s : State) : Option State :=
  match s.computing with
  | none => some s
  | some job => do
    let _ ← s.jobs.get job
    some { s with computing := none, doneJobs := s.doneJobs ++ [job] }

def cancelJobs : List Nat → Arena Job → Option (Arena Job)
  | [], jobs => some jobs
  | job :: rest, jobs => do
    let j ← jobs.get job
    let jobs ← jobs.set job { j with cancelled := true }
    cancelJobs rest jobs

/-- `password_worker_stop`, up to `pthread_join` -/
def passwordWorkerStop (s : State) : Option State := do
  let jobs ← cancelJobs s.pending s.jobs
  some { s with stopped := true, jobs := jobs, pending := [], doneJobs := s.doneJobs ++ s.pending }

end Server
