import CtfServer.Server.Completions

/-!
# The server loop

`serve` and `destroy_server` of server.c, with the thread of the db pool and that of the password
worker between any two of their steps.  A step of the main thread is a turn of a loop.

* `mainStep`, `step`    the steps; `none` is a use of a released object or a second release;
* `Possible`, `Reached`   what may happen, and the states that are reached;
* `Reached.inv`         the invariant;
* `objects_released_once`   **no object is used after its release, and in the end each was released
                            once**;
* `shutdown_ends`       **from the removal of the clients on, every step brings the end closer, and
                        one is possible**.
-/

set_option linter.unusedVariables false
set_option linter.unusedSimpArgs false

namespace Server

/-! ## the loop -/

/-- what `epoll_wait` reports -/
inductive Event where
  | listen
  /-- with `EPOLLERR` or `EPOLLHUP`, with `EPOLLOUT` -/
  | client (conn : Nat) (hangup writable : Bool)
  | signal
  | password
  | db
  deriving DecidableEq, Repr

/-- where the main thread is; the events are those left of `epoll_wait` -/
inductive Phase where
  | polling
  | handling (events : List Event)
  /-- in the loops of `listen_handler`, `password_worker_handler` and `db_handler` -/
  | accepting (events : List Event)
  | drainingPassword (events : List Event)
  | drainingDb (events : List Event)
  /-- in `destroy_server`: the loop over the clients, `pthread_join`, the last completions -/
  | closing
  | joiningPassword
  | finishingPassword
  | joiningDb
  | finishingDb
  | returned
  deriving DecidableEq, Repr

/-- the main thread, and the objects -/
structure Loop where
  phase : Phase
  state : State

def Loop.start : Loop := ⟨.polling, .start⟩

/-- what the main thread meets in a step -/
structure Turn where
  /-- of `epoll_wait`, unless it fails -/
  events : Option (List Event)
  /-- of `accept`, and then of `add_connection` -/
  accepted : Option Bool
  incoming : Incoming
  result : SendResult
  completion : Completion
  deriving DecidableEq, Repr, Inhabited

/-- the part of `serve` about an event of a client -/
def clientEvent (s : State) (conn : Nat) (hangup writable : Bool) (turn : Turn) : Option State := do
  let c ← s.conns.get conn
  if c.isOpen = false then some s
  else if hangup then removeConnection s conn
  else if writable then
    let result ← connectionSendBuffer s conn turn.result
    if result = .partially then some s else removeConnection s conn
  else clientHandler s conn turn.incoming

/-- `serve` and `destroy_server` -/
def mainStep (turn : Turn) (s : State) : Phase → Option Loop
  | .polling =>
    match turn.events with
    | none => some ⟨.closing, s⟩
    | some events => some ⟨.handling events, s⟩
  | .handling [] => do
    let s ← reapConnections s
    some ⟨.polling, s⟩
  | .handling (.listen :: rest) => some ⟨.accepting rest, s⟩
  | .handling (.password :: rest) => some ⟨.drainingPassword rest, s⟩
  | .handling (.db :: rest) => some ⟨.drainingDb rest, s⟩
  | .handling (.signal :: _) => do
    let s ← reapConnections s
    some ⟨.closing, s⟩
  | .handling (.client conn hangup writable :: rest) => do
    let s ← clientEvent s conn hangup writable turn
    some ⟨.handling rest, s⟩
  | .accepting rest =>
    match turn.accepted with
    | none => some ⟨.handling rest, s⟩
    | some registered => do
      let s ← acceptConnection s registered
      some ⟨.accepting rest, s⟩
  | .drainingPassword rest =>
    match s.doneJobs with
    | [] => some ⟨.handling rest, s⟩
    | job :: jobs => do
      let s ← passwordWorkerHandlerTurn s job jobs turn.completion
      some ⟨.drainingPassword rest, s⟩
  | .drainingDb rest =>
    match s.doneQueue with
    | [] => some ⟨.handling rest, s⟩
    | task :: tasks => do
      let s ← dbHandlerTurn s task tasks turn.completion
      some ⟨.drainingDb rest, s⟩
  | .closing =>
    match s.clients with
    | [] => do
      let s ← passwordWorkerStop s
      some ⟨.joiningPassword, s⟩
    | conn :: _ => do
      let s ← removeConnection s conn
      some ⟨.closing, s⟩
  | .joiningPassword => some ⟨.finishingPassword, s⟩
  | .finishingPassword =>
    match s.doneJobs with
    | [] => some ⟨.joiningDb, { s with dbStop := true }⟩
    | job :: jobs => do
      let s ← passwordWorkerHandlerTurn s job jobs turn.completion
      some ⟨.finishingPassword, s⟩
  | .joiningDb => some ⟨.finishingDb, s⟩
  | .finishingDb =>
    match s.doneQueue with
    | [] => do
      let s ← reapConnections s
      some ⟨.returned, s⟩
    | task :: tasks => do
      let s ← dbHandlerTurn s task tasks turn.completion
      some ⟨.finishingDb, s⟩
  | .returned => some ⟨.returned, s⟩

/-- a step of the main thread or of another one -/
inductive Move where
  | main (turn : Turn)
  | dbTake
  | dbDone (task : Nat)
  | jobTake
  | jobDone
  deriving DecidableEq, Repr

def step (l : Loop) : Move → Option Loop
  | .main turn => mainStep turn l.state l.phase
  | .dbTake => (dbTake l.state).map (Loop.mk l.phase)
  | .dbDone task => (dbDone l.state task).map (Loop.mk l.phase)
  | .jobTake => (jobTake l.state).map (Loop.mk l.phase)
  | .jobDone => (jobDone l.state).map (Loop.mk l.phase)

/-- `epoll_wait` reports clients that were not removed -/
def Event.Registered (s : State) : Event → Prop
  | .client conn _ _ => conn ∈ s.clients
  | _ => True

/-- the main thread goes on from `pthread_join` when the thread has exited -/
def Proceeds (s : State) (turn : Turn) : Phase → Prop
  | .polling => ∀ e ∈ turn.events.getD [], e.Registered s
  | .joiningPassword => s.computing = none
  | .joiningDb => s.taskQueue = [] ∧ s.running = []
  | .returned => False
  | _ => True

def NUM_DB_WORKER_THREADS : Nat := 1

/-- the thread of the password worker exits when it finds `stopped`; that of the pool works on -/
def Possible (l : Loop) : Move → Prop
  | .main turn => Proceeds l.state turn l.phase
  | .dbTake => l.state.taskQueue ≠ [] ∧ l.state.running.length < NUM_DB_WORKER_THREADS
  | .dbDone task => task ∈ l.state.running
  | .jobTake => l.state.stopped = false ∧ l.state.computing = none ∧ l.state.pending ≠ []
  | .jobDone => l.state.computing ≠ none

instance (s : State) : DecidablePred (Event.Registered s)
  | .client conn _ _ => List.instDecidableMemOfLawfulBEq conn s.clients
  | .listen | .signal | .password | .db => .isTrue trivial

instance (s : State) (turn : Turn) : DecidablePred (Proceeds s turn)
  | .polling => List.decidableBAll (Event.Registered s) (turn.events.getD [])
  | .joiningPassword => inferInstanceAs (Decidable (s.computing = none))
  | .joiningDb => inferInstanceAs (Decidable (s.taskQueue = [] ∧ s.running = []))
  | .returned => .isFalse id
  | .handling _ | .accepting _ | .drainingPassword _ | .drainingDb _ | .closing | .finishingPassword
    | .finishingDb => .isTrue trivial

instance (l : Loop) : DecidablePred (Possible l)
  | .main turn => inferInstanceAs (Decidable (Proceeds l.state turn l.phase))
  | .dbTake =>
    inferInstanceAs (Decidable
      (l.state.taskQueue ≠ [] ∧ l.state.running.length < NUM_DB_WORKER_THREADS))
  | .dbDone task => List.instDecidableMemOfLawfulBEq task l.state.running
  | .jobTake =>
    inferInstanceAs (Decidable (l.state.stopped = false ∧ l.state.computing = none ∧
      l.state.pending ≠ []))
  | .jobDone => inferInstanceAs (Decidable (l.state.computing ≠ none))

/-- some steps, if they are possible -/
def run (l : Loop) : List Move → Option Loop
  | [] => some l
  | m :: ms => if Possible l m then (step l m).bind fun l => run l ms else none

/-- the states of the server -/
inductive Reached : Loop → Prop where
  | start : Reached .start
  | step {l l' : Loop} {m : Move} : Reached l → Possible l m → step l m = some l' → Reached l'

/-! ## the invariant -/

/-- the events that are left -/
def Phase.events : Phase → List Event
  | .handling events | .accepting events | .drainingPassword events | .drainingDb events => events
  | _ => []

/-- the main thread handles the events of one `epoll_wait` -/
def Phase.InBatch : Phase → Prop
  | .handling _ | .accepting _ | .drainingPassword _ | .drainingDb _ => True
  | _ => False

/-- how far `destroy_server` is -/
def Phase.rank : Phase → Nat
  | .polling | .handling _ | .accepting _ | .drainingPassword _ | .drainingDb _ => 0
  | .closing => 1
  | .joiningPassword => 2
  | .finishingPassword => 3
  | .joiningDb => 4
  | .finishingDb => 5
  | .returned => 6

/-- what `destroy_server` has emptied -/
structure Emptied (rank : Nat) (s : State) : Prop where
  clients : 2 ≤ rank → s.clients = []
  pending : 2 ≤ rank → s.pending = []
  computing : 3 ≤ rank → s.computing = none
  doneJobs : 4 ≤ rank → s.doneJobs = []
  taskQueue : 5 ≤ rank → s.taskQueue = []
  running : 5 ≤ rank → s.running = []
  doneQueue : 6 ≤ rank → s.doneQueue = []
  retired : 6 ≤ rank → s.retired = []

structure Inv (l : Loop) : Prop where
  safe : Safe none l.state
  /-- the connections of the batch were not released -/
  pointers : ∀ conn hangup writable, .client conn hangup writable ∈ l.phase.events →
    (l.state.conns.get conn).isSome = true
  emptied : Emptied l.phase.rank l.state

section
variable {s s' : State} {phase phase' : Phase}

/-- nothing was emptied before the clients are -/
theorem Emptied.early {rank : Nat} (h : rank ≤ 1) : Emptied rank s := by
  refine ⟨?_, ?_, ?_, ?_, ?_, ?_, ?_, ?_⟩ <;> intro hr <;> omega

/-- a step in a batch -/
theorem Inv.within (h : Inv ⟨phase, s⟩) (hsafe : Safe none s') (honward : Onward s s')
    (hevents : phase'.events ⊆ phase.events) (hrank : phase'.rank = 0) : Inv ⟨phase', s'⟩ where
  safe := hsafe
  pointers conn hangup writable hmem :=
    honward.keeps conn (h.pointers conn hangup writable (hevents hmem))
  emptied := .early (hrank ▸ Nat.zero_le 1)

/-- a step without events -/
theorem Inv.without (hsafe : Safe none s') (hevents : phase'.events = [])
    (hemptied : Emptied phase'.rank s') : Inv ⟨phase', s'⟩ where
  safe := hsafe
  pointers conn hangup writable hmem := by
    rw [show (⟨phase', s'⟩ : Loop).phase.events = phase'.events from rfl, hevents] at hmem
    cases hmem
  emptied := hemptied

/-- the part of `serve` about a client finds the connection and its objects alive -/
theorem Safe.clientEvent (h : Safe none s) {conn : Nat} (hconn : (s.conns.get conn).isSome = true)
    (hangup writable : Bool)
    (turn : Turn) : ∃ s', clientEvent s conn hangup writable turn = some s' ∧ Safe none s' ∧
    Onward s s' := by
  obtain ⟨c, hk⟩ := Option.isSome_iff_exists.mp hconn
  unfold Server.clientEvent
  simp only [Option.bind_eq_bind, hk, Option.bind_some]
  by_cases hclosed : c.isOpen = false
  · rw [if_pos hclosed]
    exact ⟨s, rfl, h, Onward.refl s⟩
  rw [if_neg hclosed]
  rw [Bool.not_eq_false] at hclosed
  have hremove : ∃ s', Server.removeConnection s conn = some s' ∧ Safe none s' ∧ Onward s s' := by
    obtain ⟨s', heq, hsafe, hframe, -⟩ := h.removeConnection hk hclosed
    exact ⟨s', heq, hsafe, hframe.onward⟩
  by_cases hhangup : hangup = true
  · rw [if_pos hhangup]
    exact hremove
  rw [if_neg hhangup]
  by_cases hwritable : writable = true
  · rw [if_pos hwritable]
    have hsend : ∃ result, connectionSendBuffer s conn turn.result = some result := by
      unfold connectionSendBuffer
      simp only [Option.bind_eq_bind, hk, Option.bind_some]
      cases hout : c.outgoing with
      | none => exact ⟨.all, rfl⟩
      | some o =>
        -- the header is the connection's own, and its request holds the body
        have hheader : (s.headers.get o.header).isSome = true := by
          refine h.answers.headers.value (a := conn) ?_
          unfold headerOf
          rw [hk]
          simp only [Option.bind_some, hout, Option.map_some]
        have hbody := (h.answers.body conn c o hk hout).1
        have hrequest : requestOf s.conns conn = some o.body := by
          unfold requestOf
          rw [hk]
          exact hbody
        obtain ⟨u, hu⟩ := Option.isSome_iff_exists.mp hheader
        obtain ⟨q, hq, -⟩ := Option.bind_eq_some_iff.mp (h.links.attached.left hrequest)
        simp only [hu, Option.bind_some, hq]
        exact ⟨_, rfl⟩
    obtain ⟨result, hresult⟩ := hsend
    rw [hresult, Option.bind_some]
    by_cases hpartial : result = .partially
    · rw [if_pos hpartial]
      exact ⟨s, rfl, h, Onward.refl s⟩
    · rw [if_neg hpartial]
      exact hremove
  · rw [if_neg hwritable]
    exact h.clientHandler hk hclosed turn.incoming

/-! ## the main thread, phase by phase -/

/-- a step from `s` keeps the invariant, the connections within a batch, and changes the lists by
calls -/
def Goes (s : State) (o : Option Loop) : Prop :=
  ∃ l', o = some l' ∧ Inv l' ∧ (l'.phase.InBatch → Keeps s l'.state) ∧ Relation.ReflTransGen Change
    s.lists l'.state.lists

/-- within a batch -/
theorem Goes.within (h : Inv ⟨phase, s⟩) (hsafe : Safe none s') (honward : Onward s s')
    (hevents : phase'.events ⊆ phase.events) (hrank : phase'.rank = 0) :
    Goes s (some ⟨phase', s'⟩) :=
  ⟨_, rfl, h.within hsafe honward hevents hrank, fun _ => honward.keeps, honward.lists⟩

/-- on to other events, without a change -/
theorem Goes.on (h : Inv ⟨phase, s⟩) (hevents : phase'.events ⊆ phase.events)
    (hrank : phase'.rank = 0) :
    Goes s (some ⟨phase', s⟩) :=
  .within h h.safe (Onward.refl s) hevents hrank

/-- without events, outside of a batch -/
theorem Goes.without (hsafe : Safe none s') (hevents : phase'.events = [])
    (hbatch : ¬ phase'.InBatch)
    (hemptied : Emptied phase'.rank s') (hlists : Relation.ReflTransGen Change s.lists s'.lists) :
    Goes s (some ⟨phase', s'⟩) :=
  ⟨_, rfl, .without hsafe hevents hemptied, fun hin => absurd hin hbatch, hlists⟩

theorem Inv.pollingStep {turn : Turn} (h : Inv ⟨.polling, s⟩) (hp : Proceeds s turn .polling) :
    Goes s (mainStep turn s .polling) := by
  have hsafe : Safe none s := h.safe
  unfold mainStep
  cases hevents : turn.events with
  | none => exact .without hsafe rfl (fun hin => hin) (.early (by decide)) .refl
  | some events =>
    refine ⟨_, rfl, ⟨hsafe, fun conn hangup writable hmem => ?_, .early (Nat.zero_le 1)⟩, fun _ =>
      (Onward.refl s).keeps, .refl⟩
    have hregistered : conn ∈ s.clients := hp (.client conn hangup writable)
      (by rw [hevents]; exact hmem)
    obtain ⟨c, hc, -⟩ := (hsafe.lists.open_iff conn).mp hregistered
    show (s.conns.get conn).isSome = true
    rw [hc]
    rfl

/-- the retired connections are released at the end of a batch, and at the end of `serve` -/
theorem Goes.reap (hsafe : Safe none s) (hevents : phase'.events = []) (hbatch : ¬ phase'.InBatch)
    (hrank : phase'.rank ≤ 1) :
    Goes s ((reapConnections s).bind fun s => some ⟨phase', s⟩) := by
  obtain ⟨conns', hreap, hsafe'⟩ := Safe.reapConnections hsafe
  rw [hreap, Option.bind_some]
  exact .without hsafe' hevents hbatch (.early hrank) (.single .reap)

theorem Inv.handlingStep {turn : Turn} {e : Event} {rest : List Event}
    (h : Inv ⟨.handling (e :: rest), s⟩) :
    Goes s (mainStep turn s (.handling (e :: rest))) := by
  have hsub : rest ⊆ (Phase.handling (e :: rest)).events := List.subset_cons_self e rest
  cases e with
  | listen => exact .on h hsub rfl
  | password => exact .on h hsub rfl
  | db => exact .on h hsub rfl
  | signal => exact .reap h.safe rfl (fun hin => hin) (Nat.le_refl 1)
  | client conn hangup writable =>
    have hconn : (s.conns.get conn).isSome = true :=
      h.pointers conn hangup writable List.mem_cons_self
    obtain ⟨s', heq, hsafe', honward⟩ := Safe.clientEvent h.safe hconn hangup writable turn
    unfold mainStep
    simp only [Option.bind_eq_bind, heq, Option.bind_some]
    exact .within h hsafe' honward hsub rfl

theorem Inv.acceptingStep {turn : Turn} {rest : List Event} (h : Inv ⟨.accepting rest, s⟩) :
    Goes s (mainStep turn s (.accepting rest)) := by
  unfold mainStep
  cases turn.accepted with
  | none => exact .on h (List.Subset.refl rest) rfl
  | some registered =>
    obtain ⟨s', heq, hsafe', honward⟩ := Safe.acceptConnection h.safe registered
    simp only [Option.bind_eq_bind, heq, Option.bind_some]
    exact .within h hsafe' honward (List.Subset.refl rest) rfl

theorem Inv.drainingPasswordStep {turn : Turn} {rest : List Event}
    (h : Inv ⟨.drainingPassword rest, s⟩) :
    Goes s (mainStep turn s (.drainingPassword rest)) := by
  have hsafe : Safe none s := h.safe
  unfold mainStep
  cases hdone : s.doneJobs with
  | nil => exact .on h (List.Subset.refl rest) rfl
  | cons j jobs =>
    obtain ⟨s', heq, hsafe', honward⟩ := hsafe.passwordWorkerHandlerTurn hdone turn.completion
    simp only [Option.bind_eq_bind, heq, Option.bind_some]
    exact .within h hsafe' honward (List.Subset.refl rest) rfl

theorem Inv.drainingDbStep {turn : Turn} {rest : List Event} (h : Inv ⟨.drainingDb rest, s⟩) :
    Goes s (mainStep turn s (.drainingDb rest)) := by
  have hsafe : Safe none s := h.safe
  unfold mainStep
  cases hdone : s.doneQueue with
  | nil => exact .on h (List.Subset.refl rest) rfl
  | cons t tasks =>
    obtain ⟨s', heq, hsafe', honward⟩ := hsafe.dbHandlerTurn hdone turn.completion
    simp only [Option.bind_eq_bind, heq, Option.bind_some]
    exact .within h hsafe' honward (List.Subset.refl rest) rfl

/-- the clients are removed one by one, then the jobs that wait are cancelled -/
theorem Inv.closingStep {turn : Turn} (h : Inv ⟨.closing, s⟩) :
    Goes s (mainStep turn s .closing) := by
  have hsafe : Safe none s := h.safe
  unfold mainStep
  cases hclients : s.clients with
  | nil =>
    obtain ⟨jobs', hstop, hsafe'⟩ := Safe.passwordWorkerStop hsafe
    simp only [Option.bind_eq_bind, hstop, Option.bind_some]
    refine .without hsafe' rfl (fun hin => hin) ⟨fun _ => hclients, fun _ => rfl, ?_, ?_, ?_, ?_,
      ?_, ?_⟩ .refl
    all_goals
      intro (hr : _ ≤ 2)
      omega
  | cons k rest =>
    obtain ⟨c, hk, ho⟩ := (hsafe.lists.open_iff k).mp (hclients ▸ List.mem_cons_self)
    obtain ⟨s', heq, hsafe', hframe, -⟩ := Safe.removeConnection hsafe hk ho
    simp only [Option.bind_eq_bind, heq, Option.bind_some]
    exact .without hsafe' rfl (fun hin => hin) (.early (Nat.le_refl 1)) hframe.lists

theorem Inv.joiningPasswordStep {turn : Turn} (h : Inv ⟨.joiningPassword, s⟩)
    (hp : Proceeds s turn .joiningPassword) :
    Goes s (mainStep turn s .joiningPassword) := by
  have hempty : Emptied 2 s := h.emptied
  refine .without h.safe rfl (fun hin => hin) ⟨fun _ => hempty.clients (by decide), fun _ =>
    hempty.pending (by decide),
    fun _ => hp, ?_, ?_, ?_, ?_, ?_⟩ .refl
  all_goals
    intro (hr : _ ≤ 3)
    omega

/-- the computed jobs are handed out, though no connection is left to answer on -/
theorem Inv.finishingPasswordStep {turn : Turn} (h : Inv ⟨.finishingPassword, s⟩) :
    Goes s (mainStep turn s .finishingPassword) := by
  have hsafe : Safe none s := h.safe
  have hempty : Emptied 3 s := h.emptied
  have hclients := hempty.clients (by decide)
  have hpending := hempty.pending (by decide)
  have hcomputing := hempty.computing (by decide)
  unfold mainStep
  cases hdone : s.doneJobs with
  | nil =>
    have hwork := hsafe.work
    rw [hdone] at hwork
    have hsafe' : Safe none { s with dbStop := true, doneJobs := [] } :=
      ⟨hsafe.lists, hsafe.links, hsafe.answers, hwork, hsafe.disposed⟩
    refine ⟨_, rfl, .without hsafe' rfl ⟨fun _ => hclients, fun _ => hpending, fun _ => hcomputing,
      fun _ => rfl,
      ?_, ?_, ?_, ?_⟩, False.elim, .refl⟩
    all_goals
      intro (hr : _ ≤ 4)
      omega
  | cons j jobs =>
    obtain ⟨jobs', requests', contexts', disposed', heq, hsafe'⟩ :=
      Safe.passwordWorkerHandlerTurn_orphan hsafe hclients hdone turn.completion
    simp only [Option.bind_eq_bind, heq, Option.bind_some]
    refine .without hsafe' rfl (fun hin => hin) ⟨fun _ => hclients, fun _ => hpending,
      fun _ => hcomputing,
      ?_, ?_, ?_, ?_, ?_⟩ .refl
    all_goals
      intro (hr : _ ≤ 3)
      omega

theorem Inv.joiningDbStep {turn : Turn} (h : Inv ⟨.joiningDb, s⟩)
    (hp : Proceeds s turn .joiningDb) :
    Goes s (mainStep turn s .joiningDb) := by
  have hempty : Emptied 4 s := h.emptied
  refine .without h.safe rfl (fun hin => hin) ⟨fun _ => hempty.clients (by decide), fun _ =>
    hempty.pending (by decide),
    fun _ => hempty.computing (by decide), fun _ => hempty.doneJobs (by decide), fun _ => hp.1,
    fun _ => hp.2, ?_, ?_⟩ .refl
  all_goals
    intro (hr : _ ≤ 5)
    omega

/-- the completed tasks are handed out, and then nothing is left -/
theorem Inv.finishingDbStep {turn : Turn} (h : Inv ⟨.finishingDb, s⟩) :
    Goes s (mainStep turn s .finishingDb) := by
  have hsafe : Safe none s := h.safe
  have hempty : Emptied 5 s := h.emptied
  have hclients := hempty.clients (by decide)
  unfold mainStep
  cases hdone : s.doneQueue with
  | nil =>
    obtain ⟨conns', hreap, hsafe'⟩ := Safe.reapConnections hsafe
    simp only [Option.bind_eq_bind, hreap, Option.bind_some]
    exact .without hsafe' rfl (fun hin => hin)
      ⟨fun _ => hclients, fun _ => hempty.pending (by decide),
      fun _ => hempty.computing (by decide), fun _ => hempty.doneJobs (by decide), fun _ =>
      hempty.taskQueue (by decide),
      fun _ => hempty.running (by decide), fun _ => hdone, fun _ => rfl⟩ (.single .reap)
  | cons t tasks =>
    obtain ⟨tasks', requests', contexts', disposed', heq, hsafe'⟩ :=
      Safe.dbHandlerTurn_orphan hsafe hclients hdone turn.completion
    simp only [Option.bind_eq_bind, heq, Option.bind_some]
    refine .without hsafe' rfl (fun hin => hin)
      ⟨fun _ => hclients, fun _ => hempty.pending (by decide),
      fun _ => hempty.computing (by decide), fun _ => hempty.doneJobs (by decide), fun _ =>
      hempty.taskQueue (by decide),
      fun _ => hempty.running (by decide), ?_, ?_⟩ .refl
    all_goals
      intro (hr : _ ≤ 5)
      omega

/-- **a step of the main thread** -/
theorem Inv.mainStep {turn : Turn} (h : Inv ⟨phase, s⟩) (hp : Proceeds s turn phase) :
    Goes s (mainStep turn s phase) := by
  cases phase with
  | polling => exact h.pollingStep hp
  | handling events =>
    cases events with
    | nil => exact .reap h.safe rfl (fun hin => hin) (Nat.zero_le 1)
    | cons e rest => exact h.handlingStep
  | accepting rest => exact h.acceptingStep
  | drainingPassword rest => exact h.drainingPasswordStep
  | drainingDb rest => exact h.drainingDbStep
  | closing => exact h.closingStep
  | joiningPassword => exact h.joiningPasswordStep hp
  | finishingPassword => exact h.finishingPasswordStep
  | joiningDb => exact h.joiningDbStep hp
  | finishingDb => exact h.finishingDbStep
  | returned => exact hp.elim

/-- a step of a thread about the queues -/
theorem Inv.thread (h : Inv ⟨phase, s⟩) (hsafe : Safe none s') (hconns : s'.conns = s.conns)
    (hemptied : Emptied phase.rank s') : Inv ⟨phase, s'⟩ where
  safe := hsafe
  pointers conn hangup writable hmem := by
    show (s'.conns.get conn).isSome = true
    rw [hconns]
    exact h.pointers conn hangup writable hmem
  emptied := hemptied

end

/-- **a possible step finds its objects alive and keeps the invariant** -/
theorem Inv.step {l : Loop} {m : Move} (h : Inv l) (hp : Possible l m) :
    ∃ l', step l m = some l' ∧ Inv l' ∧
    (l'.phase.InBatch → Keeps l.state l'.state) ∧ Relation.ReflTransGen Change l.state.lists
    l'.state.lists := by
  obtain ⟨phase, s⟩ := l
  have hsafe : Safe none s := h.safe
  have hempty : Emptied phase.rank s := h.emptied
  cases m with
  | main turn => exact h.mainStep hp
  | dbTake =>
    obtain ⟨t, rest, hqueue⟩ := List.exists_cons_of_ne_nil (show s.taskQueue ≠ [] from hp.1)
    obtain ⟨heq, hsafe'⟩ := hsafe.dbTake hqueue
    have hrank : phase.rank < 5 := by
      by_contra hrank
      rw [hempty.taskQueue (by omega)] at hqueue
      cases hqueue
    refine ⟨_, congrArg (Option.map (Loop.mk phase)) heq, h.thread hsafe' rfl ?_, fun _ =>
      (Onward.refl s).keeps, .refl⟩
    exact { hempty with taskQueue := fun hr => by omega, running := fun hr => by omega }
  | dbDone t =>
    have hrunning : t ∈ s.running := hp
    obtain ⟨heq, hsafe'⟩ := hsafe.dbDone hrunning
    have hrank : phase.rank < 5 := by
      by_contra hrank
      rw [hempty.running (by omega)] at hrunning
      cases hrunning
    refine ⟨_, congrArg (Option.map (Loop.mk phase)) heq, h.thread hsafe' rfl ?_, fun _ =>
      (Onward.refl s).keeps, .refl⟩
    exact { hempty with running := fun hr => by omega, doneQueue := fun hr => by omega }
  | jobTake =>
    obtain ⟨hstopped, hidle, hpending⟩ := hp
    obtain ⟨j, rest, hqueue⟩ := List.exists_cons_of_ne_nil (show s.pending ≠ [] from hpending)
    obtain ⟨heq, hsafe'⟩ := hsafe.jobTake hidle hqueue
    have hrank : phase.rank < 2 := by
      by_contra hrank
      rw [hempty.pending (by omega)] at hqueue
      cases hqueue
    refine ⟨_, congrArg (Option.map (Loop.mk phase)) heq, h.thread hsafe' rfl ?_, fun _ =>
      (Onward.refl s).keeps, .refl⟩
    exact { hempty with pending := fun hr => by omega, computing := fun hr => by omega }
  | jobDone =>
    obtain ⟨j, hcomputing⟩ := Option.ne_none_iff_exists'.mp (show s.computing ≠ none from hp)
    obtain ⟨heq, hsafe'⟩ := hsafe.jobDone hcomputing
    have hrank : phase.rank < 3 := by
      by_contra hrank
      rw [hempty.computing (by omega)] at hcomputing
      cases hcomputing
    refine ⟨_, congrArg (Option.map (Loop.mk phase)) heq, h.thread hsafe' rfl ?_, fun _ =>
      (Onward.refl s).keeps, .refl⟩
    exact { hempty with computing := fun hr => by omega, doneJobs := fun hr => by omega }

theorem Safe.start : Safe none .start where
  lists := by
    refine ⟨.nil, .nil, fun k => ⟨fun hk => ?_, ?_⟩, fun k => ⟨fun hk => ?_, ?_⟩⟩
    · cases hk
    · rintro ⟨c, hc, -⟩
      cases hc
    · cases hk
    · rintro ⟨c, hc, -⟩
      cases hc
  links := by
    refine ⟨Paired.empty, Paired.empty, fun r q hq => ?_, fun k c hk => ?_⟩
    · cases hq
    · cases hk
  answers := by
    refine ⟨Covers.empty fun h hh => ?_, fun k c o hk => ?_, List.forall_mem_nil _, .nil,
      List.forall_mem_nil _, List.forall_mem_nil _⟩
    · cases hh
    · cases hk
  work := by
    have hop : opData State.start.tasks State.start.jobs = fun _ => none := by
      funext o
      cases o <;> rfl
    refine ⟨?_, Arena.Listed.empty, Arena.Listed.empty⟩
    rw [hop]
    refine Covers.empty fun x hx => ?_
    cases hx.1
  disposed := List.forall_mem_nil _

theorem Inv.start : Inv .start where
  safe := Safe.start
  pointers conn hangup writable hmem := by cases hmem
  emptied := .early (Nat.zero_le 1)

/-- **the invariant of every run** -/
theorem Reached.inv {l : Loop} (h : Reached l) : Inv l := by
  induction h with
  | start => exact .start
  | step hreached hp hs ih =>
    obtain ⟨l', heq, hinv, -⟩ := ih.step hp
    rw [hs] at heq
    cases heq
    exact hinv

/-! ## a request that is answered in parts, and the shutdown -/

theorem Reached.run {l l' : Loop} {ms : List Move} (h : Reached l) (hrun : run l ms = some l') :
    Reached l' := by
  induction ms generalizing l with
  | nil =>
    cases hrun
    exact h
  | cons m ms ih =>
    unfold Server.run at hrun
    by_cases hp : Possible l m
    · rw [if_pos hp] at hrun
      obtain ⟨l1, hstep, hrest⟩ := Option.bind_eq_some_iff.mp hrun
      exact ih (.step h hp hstep) hrest
    · rw [if_neg hp] at hrun
      cases hrun

/-- a turn of the main thread with these events and this client -/
def sampleTurn (events : List Event) (accepted : Option Bool) : Move :=
  .main {
    events := some events
    accepted := accepted
    incoming := ⟨false, true, true, ⟨true, true, .query⟩, ⟨true, .all, true⟩⟩
    result := .all
    completion := ⟨.answer, ⟨true, .partially, true⟩⟩ }

/-- a client is accepted, sends a request, and gets the first part of the answer -/
def sampleServed : List Move :=
  [sampleTurn [.listen] none, sampleTurn [] none, sampleTurn [] (some true), sampleTurn [] none,
    sampleTurn [] none,
    sampleTurn [.client 0 false false] none, sampleTurn [] none, sampleTurn [] none,
    .dbTake, .dbDone 0,
    sampleTurn [.db, .signal] none, sampleTurn [] none, sampleTurn [] none, sampleTurn [] none,
    sampleTurn [] none]

/-- `destroy_server` -/
def sampleShutdown : List Move := List.replicate 6 (sampleTurn [] none)

/-! ## the end -/

/-- each object was released, and once -/
structure AllReleased (s : State) : Prop where
  conns : s.conns.released.Perm (List.range s.conns.next)
  requests : s.requests.released.Perm (List.range s.requests.next)
  contexts : s.contexts.released.Perm (List.range s.contexts.next)
  tasks : s.tasks.released.Perm (List.range s.tasks.next)
  jobs : s.jobs.released.Perm (List.range s.jobs.next)
  headers : s.headers.released.Perm (List.range s.headers.next)

theorem Safe.released {s : State} (h : Safe none s) (hempty : Emptied 6 s) : AllReleased s := by
  have hconns : ∀ k, s.conns.get k = none := by
    intro k
    cases hk : s.conns.get k with
    | none => rfl
    | some c =>
      cases ho : c.isOpen with
      | true =>
        have hmem := (h.lists.open_iff k).mpr ⟨c, hk, ho⟩
        rw [hempty.clients (by decide)] at hmem
        cases hmem
      | false =>
        have hmem := (h.lists.closed_iff k).mpr ⟨c, hk, ho⟩
        rw [hempty.retired (by decide)] at hmem
        cases hmem
  have htasks := h.work.listedTasks
  rw [hempty.taskQueue (by decide), hempty.running (by decide), hempty.doneQueue
    (by decide)] at htasks
  have hjobs := h.work.listedJobs
  rw [hempty.pending (by decide), hempty.computing (by decide), hempty.doneJobs
    (by decide)] at hjobs
  -- without tasks and jobs there is no context, and without contexts and connections no request
  have hcontexts : ∀ x, s.contexts.get x = none := by
    intro x
    cases hx : s.contexts.get x with
    | none => rfl
    | some cx =>
      obtain ⟨o, ho⟩ := h.work.covers.surjective (b := x)
        ⟨by rw [hx]; rfl, Option.some_ne_none x |>.symm⟩
      cases o with
      | inl t =>
        rw [opData_inl, htasks.get_none] at ho
        cases ho
      | inr j =>
        rw [opData_inr, hjobs.get_none] at ho
        cases ho
  have hrequests : ∀ r, s.requests.get r = none := by
    intro r
    cases hr : s.requests.get r with
    | none => rfl
    | some q =>
      rcases h.links.kept r q hr with hconn | hcontext
      · exact absurd (h.orphan (hempty.clients (by decide)) hr) hconn
      · obtain ⟨x, hx⟩ := Option.ne_none_iff_exists'.mp hcontext
        have hholder : holderOf s.contexts x = some r := by
          refine h.links.held.left ?_
          unfold contextOf
          rw [hr]
          exact hx
        unfold holderOf at hholder
        rw [hcontexts] at hholder
        cases hholder
  have hheaders : ∀ i, s.headers.get i = none := by
    intro i
    cases hi : s.headers.get i with
    | none => rfl
    | some u =>
      obtain ⟨k, hk⟩ := h.answers.headers.surjective (b := i) (by rw [hi]; rfl)
      unfold headerOf at hk
      rw [hconns] at hk
      cases hk
  exact ⟨Arena.released_perm hconns, Arena.released_perm hrequests, Arena.released_perm hcontexts,
    Arena.released_perm htasks.get_none,
    Arena.released_perm hjobs.get_none, Arena.released_perm hheaders⟩

/-- **no object is used after its release or released twice, a request is released when neither a
connection nor a context has it, responses go out on the connection of their request while it is
open, no connection is released within a batch, and in the end each object was released once** -/
theorem objects_released_once {l : Loop} (h : Reached l) :
    (∀ m, Possible l m → ∃ l', step l m = some l' ∧ (l'.phase.InBatch → Keeps l.state l'.state)) ∧
    (∀ q ∈ l.state.disposed, q.conn = none ∧ q.context = none) ∧
    (∀ e ∈ l.state.sent, e.onto.isOpen = true ∧ e.onto.request = some e.request) ∧
    (∀ k c o, l.state.conns.get k = some c → c.outgoing = some o → c.isOpen = true ∧
      c.request = some o.body) ∧
    (l.phase = .returned → AllReleased l.state) := by
  have hinv := h.inv
  refine ⟨fun m hp => ?_, hinv.safe.disposed, hinv.safe.answers.onto, fun k c o hk hout => ⟨?_, ?_⟩,
    fun hphase => ?_⟩
  · obtain ⟨l', heq, -, hkeeps, -⟩ := hinv.step hp
    exact ⟨l', heq, hkeeps⟩
  · by_contra hclosed
    rw [Bool.not_eq_true] at hclosed
    rw [hinv.safe.links.closed k c hk hclosed] at hout
    cases hout
  · exact (hinv.safe.answers.body k c o hk hout).1
  · have hempty := hinv.emptied
    rw [hphase] at hempty
    exact hinv.safe.released hempty

theorem objects_released_once_sample :
    ∃ l, run .start (sampleServed ++ sampleShutdown) = some l ∧ l.phase = .returned ∧
      l.state.requests.next = 1 ∧ AllReleased l.state := by
  have hrun : ((run .start (sampleServed ++ sampleShutdown)).map fun l =>
    (l.phase, l.state.requests.next)) =
      some (.returned, 1) := by decide +kernel
  obtain ⟨l, hl, hdata⟩ := Option.map_eq_some_iff.mp hrun
  obtain ⟨hphase, hnext⟩ := Prod.mk.inj hdata
  exact ⟨l, hl, hphase, hnext, (objects_released_once (Reached.run .start hl)).2.2.2.2 hphase⟩

/-- **no request is answered twice** -/
theorem responses_once {l : Loop} (h : Reached l) :
    (l.state.sent.map Sent.request).Nodup ∧ ∀ e ∈ l.state.sent, e.request < l.state.requests.next :=
  ⟨h.inv.safe.answers.once, h.inv.safe.answers.born⟩

theorem responses_once_sample :
    ∃ l, run .start sampleServed = some l ∧ l.state.sent.map Sent.request = [0] ∧
    (l.state.sent.map Sent.request).Nodup := by
  have hrun : ((run .start sampleServed).map fun l => l.state.sent.map Sent.request) = some
    [0] := by decide +kernel
  obtain ⟨l, hl, hsent⟩ := Option.map_eq_some_iff.mp hrun
  exact ⟨l, hl, hsent, (responses_once (Reached.run .start hl)).1⟩

/-- **a request that waits has one operation**, a task or a job in one of the queues or with its
thread, and no response of it is under way -/
theorem one_operation {l : Loop} (h : Reached l) {x : Nat} {cx : Context}
    (hx : l.state.contexts.get x = some cx) :
    (∃ o, opData l.state.tasks l.state.jobs o = some x ∧ ∀ o', opData l.state.tasks l.state.jobs o'
      = some x → o' = o) ∧
    l.state.tasks.Listed (l.state.taskQueue ++ (l.state.running ++ l.state.doneQueue)) ∧
    l.state.jobs.Listed (l.state.pending ++ (l.state.computing.toList ++ l.state.doneJobs)) ∧
    (∃ q, l.state.requests.get cx.request = some q ∧ q.context = some x) ∧
    Idle l.state.conns cx.request := by
  have hsafe := h.inv.safe
  refine ⟨?_, hsafe.work.listedTasks, hsafe.work.listedJobs, ?_, hsafe.idle hx⟩
  · obtain ⟨o, ho⟩ := hsafe.work.covers.surjective (b := x)
      ⟨by rw [hx]; rfl, Option.some_ne_none x |>.symm⟩
    exact ⟨o, ho, fun o' ho' => hsafe.work.covers.injective ho' ho⟩
  · have hholder : holderOf l.state.contexts x = some cx.request := by
      unfold holderOf
      rw [hx]
      rfl
    exact Option.bind_eq_some_iff.mp (hsafe.links.held.right hholder)

theorem one_operation_sample :
    ∃ l, run .start (sampleServed.take 8) = some l ∧ l.state.contexts.get 0 = some ⟨0⟩ ∧
    l.state.taskQueue = [0] ∧
      (∃ o, opData l.state.tasks l.state.jobs o = some 0 ∧ ∀ o', opData l.state.tasks l.state.jobs
        o' = some 0 → o' = o) := by
  have hrun : ((run .start (sampleServed.take 8)).map fun l =>
    (l.state.contexts.get 0, l.state.taskQueue)) =
      some (some ⟨0⟩, [0]) := by decide +kernel
  obtain ⟨l, hl, hdata⟩ := Option.map_eq_some_iff.mp hrun
  obtain ⟨hcontext, hqueue⟩ := Prod.mk.inj hdata
  exact ⟨l, hl, hcontext, hqueue, (one_operation (Reached.run .start hl) hcontext).1⟩

/-! ## the shutdown -/

/-- the main thread is in `destroy_server`, or has left it -/
def Phase.Destroying (phase : Phase) : Prop := 1 ≤ phase.rank

/-- how many steps of all threads are left at most -/
def remaining (l : Loop) : Nat :=
  (6 - l.phase.rank) + l.state.clients.length +
    (3 * l.state.taskQueue.length + 2 * l.state.running.length + l.state.doneQueue.length) +
    (3 * l.state.pending.length + 2 * l.state.computing.toList.length + l.state.doneJobs.length)

section
variable {s : State} {phase : Phase}

theorem Inv.remaining_main {turn : Turn} {l' : Loop} (h : Inv ⟨phase, s⟩) (hd : phase.Destroying)
    (hp : Proceeds s turn phase)
    (hs : Server.mainStep turn s phase = some l') : remaining l' < remaining ⟨phase, s⟩ ∧
    l'.phase.Destroying := by
  have hsafe : Safe none s := h.safe
  have hempty : Emptied phase.rank s := h.emptied
  unfold Server.mainStep at hs
  cases phase with
  | polling | handling _ | accepting _ | drainingPassword _ | drainingDb _ =>
    exact absurd hd (by decide : ¬ 1 ≤ 0)
  | closing =>
    cases hclients : s.clients with
    | nil =>
      obtain ⟨jobs', hstop, -⟩ := Safe.passwordWorkerStop hsafe
      simp only [hclients, Option.bind_eq_bind, hstop, Option.bind_some] at hs
      cases hs
      refine ⟨?_, (by decide : 1 ≤ 2)⟩
      simp only [remaining, Phase.rank, hclients, List.length_nil, List.length_append]
      omega
    | cons k rest =>
      obtain ⟨c, hk, ho⟩ := (hsafe.lists.open_iff k).mp (hclients ▸ List.mem_cons_self)
      obtain ⟨s', heq, -, hframe, herase⟩ := Safe.removeConnection hsafe hk ho
      simp only [hclients, Option.bind_eq_bind, heq, Option.bind_some] at hs
      cases hs
      refine ⟨?_, Nat.le_refl 1⟩
      rw [hclients, List.erase_cons_head] at herase
      simp only [remaining, Phase.rank, herase, hclients, hframe.taskQueue, hframe.running,
        hframe.doneQueue, hframe.pending,
        hframe.computing, hframe.doneJobs, List.length_cons]
      omega
  | joiningPassword =>
    cases hs
    refine ⟨?_, (by decide : 1 ≤ 3)⟩
    simp only [remaining, Phase.rank]
    omega
  | finishingPassword =>
    cases hdone : s.doneJobs with
    | nil =>
      simp only [hdone] at hs
      cases hs
      refine ⟨?_, (by decide : 1 ≤ 4)⟩
      simp only [remaining, Phase.rank, hdone]
      omega
    | cons j jobs =>
      obtain ⟨jobs', requests', contexts', disposed', heq, -⟩ :=
        Safe.passwordWorkerHandlerTurn_orphan hsafe (hempty.clients (by decide)) hdone
          turn.completion
      simp only [hdone, Option.bind_eq_bind, heq, Option.bind_some] at hs
      cases hs
      refine ⟨?_, (by decide : 1 ≤ 3)⟩
      simp only [remaining, Phase.rank, hdone, List.length_cons]
      omega
  | joiningDb =>
    cases hs
    refine ⟨?_, (by decide : 1 ≤ 5)⟩
    simp only [remaining, Phase.rank]
    omega
  | finishingDb =>
    cases hdone : s.doneQueue with
    | nil =>
      obtain ⟨conns', hreap, -⟩ := Safe.reapConnections hsafe
      simp only [hdone, Option.bind_eq_bind, hreap, Option.bind_some] at hs
      cases hs
      refine ⟨?_, (by decide : 1 ≤ 6)⟩
      simp only [remaining, Phase.rank, hdone]
      omega
    | cons t tasks =>
      obtain ⟨tasks', requests', contexts', disposed', heq, -⟩ :=
        Safe.dbHandlerTurn_orphan hsafe (hempty.clients (by decide)) hdone turn.completion
      simp only [hdone, Option.bind_eq_bind, heq, Option.bind_some] at hs
      cases hs
      refine ⟨?_, (by decide : 1 ≤ 5)⟩
      simp only [remaining, Phase.rank, hdone, List.length_cons]
      omega
  | returned => exact hp.elim

end

/-- **every step of a thread brings the shutdown closer to its end** -/
theorem Inv.remaining_lt {l l' : Loop} {m : Move} (h : Inv l) (hd : l.phase.Destroying)
    (hp : Possible l m)
    (hs : Server.step l m = some l') : remaining l' < remaining l ∧ l'.phase.Destroying := by
  obtain ⟨phase, s⟩ := l
  have hsafe : Safe none s := h.safe
  cases m with
  | main turn => exact h.remaining_main hd hp hs
  | dbTake =>
    obtain ⟨t, rest, hqueue⟩ := List.exists_cons_of_ne_nil (show s.taskQueue ≠ [] from hp.1)
    obtain ⟨heq, -⟩ := hsafe.dbTake hqueue
    have hl' := hs.symm.trans (congrArg (Option.map (Loop.mk phase)) heq)
    cases hl'
    refine ⟨?_, hd⟩
    simp only [remaining, hqueue, List.length_append, List.length_cons, List.length_nil]
    omega
  | dbDone t =>
    have hrunning : t ∈ s.running := hp
    obtain ⟨heq, -⟩ := hsafe.dbDone hrunning
    have hl' := hs.symm.trans (congrArg (Option.map (Loop.mk phase)) heq)
    cases hl'
    refine ⟨?_, hd⟩
    have hlength := List.length_erase_of_mem hrunning
    have hpos := List.length_pos_of_mem hrunning
    simp only [remaining, hlength, List.length_append, List.length_cons, List.length_nil]
    omega
  | jobTake =>
    obtain ⟨-, hidle, hpending⟩ := hp
    obtain ⟨j, rest, hqueue⟩ := List.exists_cons_of_ne_nil (show s.pending ≠ [] from hpending)
    obtain ⟨heq, -⟩ := hsafe.jobTake hidle hqueue
    have hl' := hs.symm.trans (congrArg (Option.map (Loop.mk phase)) heq)
    cases hl'
    refine ⟨?_, hd⟩
    have hidle : s.computing = none := hidle
    simp only [remaining, hqueue, hidle, Option.toList, List.length_cons, List.length_nil]
    omega
  | jobDone =>
    obtain ⟨j, hcomputing⟩ := Option.ne_none_iff_exists'.mp (show s.computing ≠ none from hp)
    obtain ⟨heq, -⟩ := hsafe.jobDone hcomputing
    have hl' := hs.symm.trans (congrArg (Option.map (Loop.mk phase)) heq)
    cases hl'
    refine ⟨?_, hd⟩
    simp only [remaining, hcomputing, Option.toList, List.length_append, List.length_cons,
      List.length_nil]
    omega

/-- the shutdown is never stuck -/
theorem possible_of_destroying {l : Loop} (hd : l.phase.Destroying)
    (hreturned : l.phase ≠ .returned) (turn : Turn) :
    ∃ m, Possible l m := by
  obtain ⟨phase, s⟩ := l
  cases phase with
  | polling | handling _ | accepting _ | drainingPassword _ | drainingDb _ =>
    exact absurd hd (by decide : ¬ 1 ≤ 0)
  | closing | finishingPassword | finishingDb => exact ⟨.main turn, trivial⟩
  | joiningPassword =>
    by_cases hcomputing : s.computing = none
    · exact ⟨.main turn, hcomputing⟩
    · exact ⟨.jobDone, hcomputing⟩
  | joiningDb =>
    cases hrunning : s.running with
    | nil =>
      by_cases hqueue : s.taskQueue = []
      · exact ⟨.main turn, hqueue, hrunning⟩
      · refine ⟨.dbTake, hqueue, ?_⟩
        rw [hrunning]
        exact Nat.zero_lt_one
    | cons t rest =>
      refine ⟨.dbDone t, ?_⟩
      show t ∈ s.running
      rw [hrunning]
      exact List.mem_cons_self
  | returned => exact absurd rfl hreturned

/-- the steps of all threads, one after the other -/
inductive Steps : Loop → List Move → Loop → Prop where
  | nil {l : Loop} : Steps l [] l
  | cons {l l1 l2 : Loop} {m : Move} {ms : List Move} : Possible l m → step l m = some l1 →
      Steps l1 ms l2 →
    Steps l (m :: ms) l2

theorem Steps.shorter {l l' : Loop} {ms : List Move} (hs : Steps l ms l') (h : Reached l)
    (hd : l.phase.Destroying) :
    ms.length + remaining l' ≤ remaining l ∧ l'.phase.Destroying := by
  induction hs with
  | nil => exact ⟨by rw [List.length_nil, Nat.zero_add], hd⟩
  | cons hp hstep hrest ih =>
    obtain ⟨hlt, hd'⟩ := h.inv.remaining_lt hd hp hstep
    obtain ⟨hle, hd''⟩ := ih (.step h hp hstep) hd'
    refine ⟨?_, hd''⟩
    rw [List.length_cons]
    omega

theorem Reached.returns {l : Loop} (h : Reached l) (hd : l.phase.Destroying) (n : Nat)
    (hn : remaining l ≤ n) :
    ∃ ms l', Steps l ms l' ∧ l'.phase = .returned := by
  induction n generalizing l with
  | zero =>
    by_contra hnot
    -- a step is left, and would bring `remaining` below zero
    have hreturned : l.phase ≠ .returned := fun hphase => hnot ⟨[], l, .nil, hphase⟩
    obtain ⟨m, hp⟩ := possible_of_destroying hd hreturned default
    obtain ⟨l1, hstep, -⟩ := h.inv.step hp
    have hlt := (h.inv.remaining_lt hd hp hstep).1
    omega
  | succ n ih =>
    by_cases hphase : l.phase = .returned
    · exact ⟨[], l, .nil, hphase⟩
    · obtain ⟨m, hp⟩ := possible_of_destroying hd hphase default
      obtain ⟨l1, hstep, -⟩ := h.inv.step hp
      obtain ⟨hlt, hd1⟩ := h.inv.remaining_lt hd hp hstep
      obtain ⟨ms, l', hsteps, hl'⟩ := ih (.step h hp hstep) hd1 (by omega)
      exact ⟨m :: ms, l', .cons hp hstep hsteps, hl'⟩

/-- **however the threads take turns, `destroy_server` returns**: no order of steps goes on for
ever, and none is stuck before -/
theorem shutdown_ends {l : Loop} (h : Reached l) (hd : l.phase.Destroying) :
    (∀ ms l', Steps l ms l' → ms.length ≤ remaining l) ∧
    (∀ ms l', Steps l ms l' → (∀ m, ¬ Possible l' m) → l'.phase = .returned) ∧
    ∃ ms l', Steps l ms l' ∧ l'.phase = .returned := by
  refine ⟨fun ms l' hs => ?_, fun ms l' hs hnone => ?_, h.returns hd _ (Nat.le_refl _)⟩
  · have hle := (hs.shorter h hd).1
    omega
  · by_contra hphase
    obtain ⟨m, hp⟩ := possible_of_destroying (hs.shorter h hd).2 hphase default
    exact hnone m hp

theorem shutdown_ends_sample :
    ∃ l, run .start sampleServed = some l ∧ l.phase = .closing ∧ ∃ ms l', Steps l ms l' ∧
    l'.phase = .returned := by
  have hrun : ((run .start sampleServed).map Loop.phase) = some .closing := by decide +kernel
  obtain ⟨l, hl, hphase⟩ := Option.map_eq_some_iff.mp hrun
  have hd : l.phase.Destroying := by
    rw [hphase]
    exact Nat.le_refl 1
  exact ⟨l, hl, hphase, (shutdown_ends (Reached.run .start hl) hd).2.2⟩

end Server
