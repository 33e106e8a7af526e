import CtfServer.System.World
import CtfServer.Store.Evolution

/-!
# A server that runs

One order of the steps, as a function: every task is executed and handed to its request before the
next one is, and nothing fails.

* `Db.run`       the execution of a statement, and `run_exec`: it is one;
* `World.turn`   the first task and the first job are done and handed over;
* `turn_run`     **a turn stays within the runs of the server**.
-/

set_option linter.unusedVariables false

namespace Store

open App (Query DbResult)

section
variable (dateFormat : Int → Bytes) (now : Int) (db : Db) (q : Query)

theorem rows_wf : ∀ row ∈ db.rows dateFormat now q, row.length = columns q := by
  intro row hrow
  cases q
  case selectAnswers | selectSessions =>
    simp only [Db.rows, List.mem_filterMap, Option.map_eq_some_iff] at hrow
    obtain ⟨a, -, user, -, rfl⟩ := hrow
    rfl
  all_goals
    simp only [Db.rows, List.mem_map, List.not_mem_nil] at hrow
    try
      obtain ⟨a, -, rfl⟩ := hrow
      rfl

/-- the execution of a statement with the next id -/
def Db.run : DbResult × Db :=
  if q.isSelect then
    ({ success := true, res :=
      some ⟨columns q, db.rows dateFormat now q, rows_wf dateFormat now db q⟩,
       affected := (db.rows dateFormat now q).length }, db)
  else
    match db.write now (match q with | .insertChallenge .. => db.nextChallenge | _ => db.nextAnswer) q with
    | some (db', affected, insertId) =>
      ({ success := true, affected := affected, insertId := insertId }, db')
    | none => (.failed, db)

theorem run_exec : Exec dateFormat now q db (db.run dateFormat now q).1
    (db.run dateFormat now q).2 := by
  unfold Db.run
  split
  · next hq => exact .select hq rfl rfl rfl (.refl _) fun _ => rfl
  · split
    · next db' affected insertId hw => exact .write _ rfl rfl hw
    · exact .failed rfl

end

end Store

namespace System

open App Store

/-- `run_password_worker` with a function that makes the hashes -/
def runJob (passwords : PasswordLib) (hash : Bytes → Option Bytes) (job : PasswordJob) :
    PasswordResult :=
  match job.operation with
  | .hash => authPasswordHash (hash job.password) job.password
  | .verify =>
    let result := authPasswordVerify passwords job.storedHash job.password
    if job.unknownUser ∧ result.failure = none then { failure := some .invalid } else result

theorem runJob_result {passwords : PasswordLib} {hash : Bytes → Option Bytes}
    (hh : ∀ p h, hash p = some h → passwords.produced p h) (job : PasswordJob) :
    JobResult passwords job (runJob passwords hash job) := by
  unfold runJob
  cases ho : job.operation with
  | hash => exact .hash (hash job.password) ho fun h => hh job.password h
  | verify =>
    dsimp only
    split
    · next hu => exact .unknown ho hu.1 hu.2
    · next hu =>
      refine .verify ho ?_
      rw [Decidable.not_and_iff_not_or_not, Bool.not_eq_true] at hu
      exact hu

section
variable (lib : AuthLib) (passwords : PasswordLib) (hash : Bytes → Option Bytes) (runtime : Runtime)
  (dateFormat : Int → Bytes)

/-- nothing keeps a call in `env` from enqueuing a job -/
def World.ready (w : World) (env : Env) : Bool :=
  env.queue == .queued && !w.stopped && w.pending.length != PASSWORD_QUEUE_CAPACITY

/-- a request comes in -/
def World.request (id : Nat) (request : Request) (env : Env) (w : World) : World :=
  if (w.clients id).isNone ∧ w.ready env then
    w.settle id ⟨request, true, .start (dispatch lib runtime env request)⟩
      (dispatch lib runtime env request).events
  else w

/-- the first task is executed -/
def World.workFirst (now : Int) (w : World) : World :=
  match w.tasks with
  | [] => w
  | task :: rest =>
    let (r, db') := w.db.run dateFormat now task.query
    { w with
      db := db'
      tasks := rest
      done := w.done ++ [⟨task, r⟩]
      log := w.log ++ [.exec ⟨task.data, task.query, now, w.db, db', r⟩] }

/-- the first executed task is handed to its request -/
def World.deliverFirst (env : Env) (w : World) : World :=
  match w.done with
  | [] => w
  | t :: rest =>
    match w.clients t.data with
    | none => w
    | some client =>
      if client.conn ∧ w.ready env then
        let o := runStages lib runtime env { task := some ⟨t.query, t.result⟩ } client.state.ctx
          client.state.ctx.chain
        ({ w with done := rest } : World).settle t.data
          ⟨client.request, true, client.state.resume (.db t.query) [.completed t.query t.result] o⟩
          o.events
      else w

/-- the first job is done -/
def World.jobFirst (w : World) : World :=
  match w.pending with
  | [] => w
  | j :: rest =>
    if w.stopped = false ∧ w.running.isNone then
      { w with pending := rest, running := none, doneJobs :=
        w.doneJobs ++ [⟨j, runJob passwords hash j.job⟩] }
    else w

/-- the first finished job is handed to its request -/
def World.deliverJobFirst (env : Env) (w : World) : World :=
  match w.doneJobs with
  | [] => w
  | j :: rest =>
    match w.clients j.data with
    | none => w
    | some client =>
      if client.conn ∧ j.result.cancelled = false ∧ w.ready env then
        let o := runStages lib runtime env { workerResult := some j.result } client.state.ctx
          client.state.ctx.chain
        ({ w with doneJobs := rest } : World).settle j.data
          ⟨client.request, true, client.state.resume (.password j.job) [.finished j.job j.result] o⟩
          o.events
      else w

def World.turn (now : Int) (env : Env) (w : World) : World :=
  (((w.workFirst dateFormat now).jobFirst passwords hash).deliverFirst lib runtime
    env).deliverJobFirst lib runtime env

end

section
variable {lib : AuthLib} {passwords : PasswordLib} {hash : Bytes → Option Bytes} {runtime : Runtime}
  {dateFormat : Int → Bytes} {meets : Nat → Env → Prop} {db : Db} {w : World}

theorem admits_ready {env : Env} (h : w.ready env = true) : w.Admits env := by
  simp only [World.ready, Bool.and_eq_true, beq_iff_eq, Bool.not_eq_true', bne_iff_ne] at h
  unfold World.Admits
  rw [h.1.1]
  exact ⟨h.1.2, h.2⟩

theorem request_run (h : Run lib passwords runtime dateFormat meets db w) (id : Nat)
    (request : Request) {env : Env}
    (hmeets : meets id env) : Run lib passwords runtime dateFormat meets db
    (w.request lib runtime id request env) := by
  unfold World.request
  split
  · next hok => exact h.step (.accept request env hmeets (Option.isNone_iff_eq_none.1 hok.1)
      (admits_ready hok.2))
  · exact h

theorem workFirst_run (h : Run lib passwords runtime dateFormat meets db w) (now : Int) :
    Run lib passwords runtime dateFormat meets db (w.workFirst dateFormat now) := by
  unfold World.workFirst
  split
  · exact h
  · next task rest ht =>
    exact h.step (.work now (show w.tasks = [] ++ task :: rest from ht)
      (run_exec dateFormat now w.db task.query))

theorem deliverFirst_run (h : Run lib passwords runtime dateFormat meets db w) {env : Env}
    (hmeets : ∀ id, meets id env) : Run lib passwords runtime dateFormat meets db
    (w.deliverFirst lib runtime env) := by
  unfold World.deliverFirst
  split
  · exact h
  next t rest ht =>
  split
  · exact h
  next client hc =>
  split
  · next hok => exact h.step (.deliver env (hmeets t.data) ht hc hok.1 (admits_ready hok.2))
  · exact h

theorem jobFirst_run (h : Run lib passwords runtime dateFormat meets db w)
    (hh : ∀ p h, hash p = some h → passwords.produced p h) :
    Run lib passwords runtime dateFormat meets db (w.jobFirst passwords hash) := by
  unfold World.jobFirst
  split
  · exact h
  next j rest hp =>
  split
  · next hok =>
    exact (h.step (.take hok.1 (Option.isNone_iff_eq_none.1 hok.2) hp)).step
      (.finish rfl (runJob_result hh j.job))
  · exact h

theorem deliverJobFirst_run (h : Run lib passwords runtime dateFormat meets db w) {env : Env}
    (hmeets : ∀ id, meets id env) :
    Run lib passwords runtime dateFormat meets db (w.deliverJobFirst lib runtime env) := by
  unfold World.deliverJobFirst
  split
  · exact h
  next j rest hj =>
  split
  · exact h
  next client hc =>
  split
  · next hok => exact h.step (.deliverJob env (hmeets j.data) hj hc hok.1 hok.2.1
      (admits_ready hok.2.2))
  · exact h

/-- **a turn stays within the runs of the server** -/
theorem turn_run (h : Run lib passwords runtime dateFormat meets db w)
    (hh : ∀ p h, hash p = some h → passwords.produced p h) (now : Int) {env : Env}
    (hmeets : ∀ id, meets id env) :
    Run lib passwords runtime dateFormat meets db
      (w.turn lib passwords hash runtime dateFormat now env) :=
  deliverJobFirst_run (deliverFirst_run (jobFirst_run (workFirst_run h now) hh) hmeets) hmeets

end

/-- the responses of request `id` -/
def World.responses (w : World) (id : Nat) : List Response :=
  match w.clients id with
  | none => []
  | some client => client.state.trace.filterMap fun
    | .respond r => some r
    | _ => none

/-! ## a sample -/

/-- one user with a session and a challenge -/
def sampleDb : Db where
  users := [⟨sampleUser, ascii "alice", ascii "$argon2id$correct horse", 900⟩]
  challenges := [⟨1, sampleUser, ascii "warmup", ascii "", ascii "flag", 0⟩]
  sessions := [⟨sampleSession, sampleUser, 1000, 4600⟩]
  nextChallenge := 2

theorem sampleDb_keyed : Keyed sampleDb := by constructor <;> decide +kernel

/-- a hash is the password behind the prefix of Argon2id -/
def sampleHash (password : Bytes) : Option Bytes := some (ascii "$argon2id$" ++ password)

def samplePasswords : PasswordLib where
  produced password h := h = ascii "$argon2id$" ++ password
  verify h password := h == ascii "$argon2id$" ++ password

/-- a request of `sampleUser` that is served from the sample database in the given number of
turns -/
def serveSample (request : Request) (turns : Nat) : World :=
  (·.turn sampleLib samplePasswords sampleHash sampleRuntime intText 2000 (sampleEnv 2000))^[turns]
    ((World.start sampleDb).request sampleLib sampleRuntime 1 request (sampleEnv 2000))

theorem serveSample_run (request : Request) (turns : Nat) :
    Run sampleLib samplePasswords sampleRuntime intText (fun _ _ => True) sampleDb
    (serveSample request turns) := by
  unfold serveSample
  induction turns with
  | zero => exact request_run .start 1 request trivial
  | succ n ih =>
    rw [Function.iterate_succ_apply']
    exact turn_run ih (fun p h hh => (Option.some.inj hh).symm) 2000 fun _ => trivial

/-! ## an account -/

/-- the bytes of an id that ends in `n` -/
def sampleRandom (n : UInt8) : IdBytes := ⟨List.replicate 15 0 ++ [n], rfl⟩

/-- a hash is the prefix of Argon2id and the digits of the password -/
def argonHash (password : Bytes) : Option Bytes :=
  if password.length ≤ 58 then some (ascii "$argon2id$" ++ bin2hex password) else none

def argonPasswords : PasswordLib where
  produced password h := argonHash password = some h
  verify h password := argonHash password == some h

section
variable (lib : AuthLib) (runtime : Runtime) (now : Int)

/-- a request that is served at `now`, in the given number of turns -/
def World.serve (w : World) (id : Nat) (request : Request) (random : IdBytes) (turns : Nat) :
    World :=
  let env := { sampleEnv now with random := some random }
  (·.turn lib argonPasswords argonHash runtime intText now env)^[turns]
  (w.request lib runtime id request env)

end

theorem serve_run {lib : AuthLib} {runtime : Runtime} {meets : Nat → Env → Prop} {db : Db}
    {now : Int} {w : World}
    (h : Run lib argonPasswords runtime intText meets db w) (id : Nat) (request : Request)
    (random : IdBytes)
    (turns : Nat) (hmeets : ∀ id, meets id { sampleEnv now with random := some random }) :
    Run lib argonPasswords runtime intText meets db
      (w.serve lib runtime now id request random turns) := by
  unfold World.serve
  induction turns with
  | zero => exact request_run h id request (hmeets id)
  | succ n ih =>
    dsimp only at ih ⊢
    rw [Function.iterate_succ_apply']
    exact turn_run ih (fun p h hh => hh) now hmeets

/-- the credentials of `alice` -/
def sampleAccount (uri : Bytes) : Request :=
  { method := .post, uri := uri, body :=
    ascii "\x7b\"username\":\"alice\",\"password\":\"correct horse\"\x7d" }

/-- a server with empty tables after a signup -/
def signedUp : World :=
  (World.start {}).serve sampleLib sampleRuntime 1000 1 (sampleAccount (ascii "/signup"))
    (sampleRandom 1) 3

theorem signedUp_run : Run sampleLib argonPasswords sampleRuntime intText (fun _ _ => True)
    {} signedUp :=
  serve_run .start 1 _ _ 3 fun _ => trivial

end System
