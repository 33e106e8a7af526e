import Mathlib.Logic.Relation
import CtfServer.Lib.Pairing
import CtfServer.Server.Objects

/-!
# Who owns what

A request is held by its connection, by its context, or by both; a context is held by the task or
the job that is under way for it, or by the handler that runs; a header buffer by its connection.

* `Lists`, `Links`, `Answers`, `Work`   the parts of the invariant;
* `Safe busy`          the invariant, while no operation is under way for the context `busy`;
* `Safe.removeConnection`, `Safe.startSend`, ..   **each function keeps it and finds its objects
                                                  alive**.
-/

set_option linter.unusedVariables false
set_option linter.unusedSimpArgs false

namespace Server

/-! ## the invariant -/

def requestOf (conns : Arena Connection) (k : Nat) : Option Nat :=
  (conns.get k).bind Connection.request

def connOf (requests : Arena Request) (r : Nat) : Option Nat := (requests.get r).bind Request.conn

def contextOf (requests : Arena Request) (r : Nat) : Option Nat :=
  (requests.get r).bind Request.context

def holderOf (contexts : Arena Context) (x : Nat) : Option Nat :=
  (contexts.get x).bind fun c => some c.request

def headerOf (conns : Arena Connection) (k : Nat) : Option Nat :=
  (conns.get k).bind fun c => c.outgoing.map Outgoing.header

/-- the context that a task or a job is for -/
def opData (tasks : Arena Task) (jobs : Arena Job) : Nat ⊕ Nat → Option Nat
  | .inl t => (tasks.get t).bind fun t => some t.data
  | .inr j => (jobs.get j).bind fun j => some j.data

/-- the two lists hold the open and the closed connections -/
structure Lists (conns : Arena Connection) (clients retired : List Nat) : Prop where
  clients_nodup : clients.Nodup
  retired_nodup : retired.Nodup
  open_iff : ∀ k, k ∈ clients ↔ ∃ c, conns.get k = some c ∧ c.isOpen = true
  closed_iff : ∀ k, k ∈ retired ↔ ∃ c, conns.get k = some c ∧ c.isOpen = false

/-- connections, requests and contexts point at each other -/
structure Links (conns : Arena Connection) (requests : Arena Request) (contexts : Arena Context) :
    Prop where
  attached : Paired (requestOf conns) (connOf requests)
  held : Paired (contextOf requests) (holderOf contexts)
  kept : ∀ r q, requests.get r = some q → q.conn ≠ none ∨ q.context ≠ none
  closed : ∀ k c, conns.get k = some c → c.isOpen = false → c = ⟨false, none, none⟩

/-- the responses that were started, and the header buffers of those under way -/
structure Answers (busy : Option Nat) (conns : Arena Connection) (requests : Arena Request)
    (headers : Arena Unit) (sent : List Sent) : Prop where
  headers : Covers (headerOf conns) fun h => (headers.get h).isSome = true
  body : ∀ k c o, conns.get k = some c → c.outgoing = some o → c.request = some o.body ∧
    ∀ q, requests.get o.body = some q → q.context = none ∨ q.context = busy
  onto : ∀ e ∈ sent, e.onto.isOpen = true ∧ e.onto.request = some e.request
  once : (sent.map Sent.request).Nodup
  born : ∀ e ∈ sent, e.request < requests.next
  known : ∀ e ∈ sent, ∀ k c, conns.get k = some c → c.request = some e.request → c.outgoing ≠ none

/-- one task or one job is under way for each context but `busy` -/
structure Work (busy : Option Nat) (contexts : Arena Context) (tasks : Arena Task)
    (jobs : Arena Job)
    (taskQueue running doneQueue pending : List Nat) (computing : Option Nat)
    (doneJobs : List Nat) : Prop where
  covers : Covers (opData tasks jobs) fun x => (contexts.get x).isSome = true ∧ busy ≠ some x
  listedTasks : tasks.Listed (taskQueue ++ (running ++ doneQueue))
  listedJobs : jobs.Listed (pending ++ (computing.toList ++ doneJobs))

structure Safe (busy : Option Nat) (s : State) : Prop where
  lists : Lists s.conns s.clients s.retired
  links : Links s.conns s.requests s.contexts
  answers : Answers busy s.conns s.requests s.headers s.sent
  work : Work busy s.contexts s.tasks s.jobs s.taskQueue s.running s.doneQueue s.pending
    s.computing s.doneJobs
  disposed : ∀ q ∈ s.disposed, q.conn = none ∧ q.context = none

/-- `clients` and `retired_clients` -/
def State.lists (s : State) : List Nat × List Nat := (s.clients, s.retired)

/-- what happens to the two lists: a client comes, a client goes, the batch ends -/
inductive Change : List Nat × List Nat → List Nat × List Nat → Prop where
  | accept {clients retired : List Nat} {conn : Nat} : conn ∉ clients → conn ∉ retired →
    Change (clients, retired) (conn :: clients, retired)
  | remove {clients retired : List Nat} {conn : Nat} : conn ∈ clients →
    Change (clients, retired) (clients.erase conn, conn :: retired)
  | reap {clients retired : List Nat} : Change (clients, retired) (clients, [])

/-- what a step about one connection leaves alone -/
structure Frame (s s' : State) : Prop where
  contexts : s'.contexts = s.contexts
  tasks : s'.tasks = s.tasks
  jobs : s'.jobs = s.jobs
  taskQueue : s'.taskQueue = s.taskQueue
  running : s'.running = s.running
  doneQueue : s'.doneQueue = s.doneQueue
  dbStop : s'.dbStop = s.dbStop
  pending : s'.pending = s.pending
  computing : s'.computing = s.computing
  doneJobs : s'.doneJobs = s.doneJobs
  stopped : s'.stopped = s.stopped
  lists : Relation.ReflTransGen Change s.lists s'.lists
  conns : ∀ k, (s.conns.get k).isSome = true → (s'.conns.get k).isSome = true

theorem Frame.trans {s s' s'' : State} (h : Frame s s') (h' : Frame s' s'') : Frame s s'' where
  contexts := h'.contexts.trans h.contexts
  tasks := h'.tasks.trans h.tasks
  jobs := h'.jobs.trans h.jobs
  taskQueue := h'.taskQueue.trans h.taskQueue
  running := h'.running.trans h.running
  doneQueue := h'.doneQueue.trans h.doneQueue
  dbStop := h'.dbStop.trans h.dbStop
  pending := h'.pending.trans h.pending
  computing := h'.computing.trans h.computing
  doneJobs := h'.doneJobs.trans h.doneJobs
  stopped := h'.stopped.trans h.stopped
  lists := h.lists.trans h'.lists
  conns k hk := h'.conns k (h.conns k hk)

/-! ## updates, seen by the maps -/

section
variable {conns conns' : Arena Connection} {requests requests' : Arena Request}
  {contexts contexts' : Arena Context}
  {tasks tasks' : Arena Task} {jobs jobs' : Arena Job}

theorem requestOf_update {k : Nat} {v : Option Connection}
    (h : conns'.get = Function.update conns.get k v) :
    requestOf conns' = Function.update (requestOf conns) k (v.bind Connection.request) := by
  unfold requestOf
  rw [h]
  exact Arena.bind_update _ _ _ _

theorem headerOf_update {k : Nat} {v : Option Connection}
    (h : conns'.get = Function.update conns.get k v) :
    headerOf conns' = Function.update (headerOf conns) k
      (v.bind fun c => c.outgoing.map Outgoing.header) := by
  unfold headerOf
  rw [h]
  exact Arena.bind_update _ _ _ _

theorem connOf_update {r : Nat} {v : Option Request}
    (h : requests'.get = Function.update requests.get r v) :
    connOf requests' = Function.update (connOf requests) r (v.bind Request.conn) := by
  unfold connOf
  rw [h]
  exact Arena.bind_update _ _ _ _

theorem contextOf_update {r : Nat} {v : Option Request}
    (h : requests'.get = Function.update requests.get r v) :
    contextOf requests' = Function.update (contextOf requests) r (v.bind Request.context) := by
  unfold contextOf
  rw [h]
  exact Arena.bind_update _ _ _ _

theorem holderOf_update {x : Nat} {v : Option Context}
    (h : contexts'.get = Function.update contexts.get x v) :
    holderOf contexts' = Function.update (holderOf contexts) x
      (v.bind fun c => some c.request) := by
  unfold holderOf
  rw [h]
  exact Arena.bind_update _ _ _ _

theorem opData_task {t : Nat} {v : Option Task} (h : tasks'.get = Function.update tasks.get t v) :
    opData tasks' jobs = Function.update (opData tasks jobs) (.inl t)
    (v.bind fun t => some t.data) := by
  funext o
  cases o with
  | inl t' =>
    by_cases ht : t' = t
    · subst ht
      rw [Function.update_self, opData, h, Function.update_self]
    · rw [Function.update_of_ne (by simpa using ht), opData, h, Function.update_of_ne ht, opData]
  | inr j => rw [Function.update_of_ne (by simp), opData, opData]

theorem opData_job {j : Nat} {v : Option Job} (h : jobs'.get = Function.update jobs.get j v) :
    opData tasks jobs' = Function.update (opData tasks jobs) (.inr j)
    (v.bind fun j => some j.data) := by
  funext o
  cases o with
  | inl t => rw [Function.update_of_ne (by simp), opData, opData]
  | inr j' =>
    by_cases hj : j' = j
    · subst hj
      rw [Function.update_self, opData, h, Function.update_self]
    · rw [Function.update_of_ne (by simpa using hj), opData, h, Function.update_of_ne hj, opData]

end

/-! ## a connection goes -/

section
variable {busy : Option Nat} {s : State} {k : Nat} {c : Connection}

theorem Lists.close {conns conns' : Arena Connection} {clients retired : List Nat}
    (h : Lists conns clients retired) (hk : conns.get k = some c) (ho : c.isOpen = true)
    (hconns : conns'.get = Function.update conns.get k (some ⟨false, none, none⟩)) :
    Lists conns' (clients.erase k) (k :: retired) where
  clients_nodup := h.clients_nodup.erase k
  retired_nodup := by
    refine List.nodup_cons.mpr ⟨?_, h.retired_nodup⟩
    intro hmem
    obtain ⟨c', hc', hclosed⟩ := (h.closed_iff k).mp hmem
    rw [hk] at hc'
    cases hc'
    rw [ho] at hclosed
    cases hclosed
  open_iff j := by
    rw [h.clients_nodup.mem_erase_iff, h.open_iff, hconns]
    by_cases hj : j = k
    · subst hj
      rw [Function.update_self]
      simp
    · rw [Function.update_of_ne hj]
      simp [hj]
  closed_iff j := by
    rw [List.mem_cons, h.closed_iff, hconns]
    by_cases hj : j = k
    · subst hj
      rw [Function.update_self]
      simp
    · rw [Function.update_of_ne hj]
      simp [hj]

/-- what `remove_connection` does to the requests -/
structure Detached (requests requests' : Arena Request) (req : Option Nat) : Prop where
  next : requests'.next = requests.next
  conn : ∀ r, connOf requests' r = if req = some r then none else connOf requests r
  context : contextOf requests' = contextOf requests
  other : ∀ r, req ≠ some r → requests'.get r = requests.get r
  kept : ∀ r q, req = some r → requests'.get r = some q → q.context ≠ none

theorem detachRequest_spec (hlinks : Links s.conns s.requests s.contexts)
    (conns' : Arena Connection) (clients' : List Nat)
    (hk : s.conns.get k = some c) (hdisposed : ∀ q ∈ s.disposed, q.conn = none ∧ q.context = none) :
    ∃ requests' disposed',
      detachRequest { s with conns := conns', clients := clients' } c.request =
        some { s with conns := conns', clients := clients', requests := requests', disposed :=
          disposed' } ∧
      Detached s.requests requests' c.request ∧
        (∀ q ∈ disposed', q.conn = none ∧ q.context = none) := by
  cases hc : c.request with
  | none =>
    refine ⟨s.requests, s.disposed, rfl, ⟨rfl, fun r => ?_, rfl, fun r _ => rfl, fun r q hr =>
      ?_⟩, hdisposed⟩
    · rw [if_neg (by simp)]
    · cases hr
  | some r =>
    have hrequest : requestOf s.conns k = some r := by
      unfold requestOf
      rw [hk]
      exact hc
    have hconn := hlinks.attached.left hrequest
    obtain ⟨q, hq, hqconn⟩ := Option.bind_eq_some_iff.mp hconn
    obtain ⟨requests1, hset, hget1, hnext1⟩ := Arena.set_alive hq { q with conn := none }
    by_cases hctx : q.context = none
    · -- without a context the request is released
      have hget2 : requests1.get r =
        some { q with conn := none } := by rw [hget1, Function.update_self]
      obtain ⟨requests2, hfree, hget, hnext⟩ := Arena.free_alive hget2
      have hupdate : requests2.get = Function.update s.requests.get r none := by
        rw [hget, hget1, Function.update_idem]
      refine ⟨requests2, s.disposed ++ [{ q with conn := none }], ?_,
        ⟨hnext.trans hnext1, fun r' => ?_, ?_, fun r' hr' => ?_,
        fun r' q' hr' hq' => ?_⟩, ?_⟩
      · unfold detachRequest httpRequestDispose
        simp only [Option.bind_eq_bind, hq, Option.bind_some, hset]
        rw [if_pos hctx]
        simp only [hget2, hfree, Option.bind_some]
      · rw [connOf_update hupdate]
        by_cases hr' : r' = r
        · subst hr'
          rw [Function.update_self, if_pos rfl]
          rfl
        · rw [Function.update_of_ne hr', if_neg (by simpa using Ne.symm hr')]
      · rw [contextOf_update hupdate]
        refine Function.update_eq_self_iff.mpr ?_
        unfold contextOf
        rw [hq]
        exact hctx.symm
      · rw [hupdate, Function.update_of_ne (by simpa using Ne.symm hr')]
      · cases hr'
        rw [hupdate, Function.update_self] at hq'
        cases hq'
      · intro d hd
        rcases List.mem_append.mp hd with hd | hd
        · exact hdisposed d hd
        · rw [List.mem_singleton.mp hd]
          exact ⟨rfl, hctx⟩
    · refine ⟨requests1, s.disposed, ?_,
        ⟨hnext1, fun r' => ?_, ?_, fun r' hr' => ?_, fun r' q' hr' hq' => ?_⟩, hdisposed⟩
      · unfold detachRequest
        simp only [Option.bind_eq_bind, hq, Option.bind_some, hset]
        rw [if_neg hctx]
      · rw [connOf_update hget1]
        by_cases hr' : r' = r
        · subst hr'
          rw [Function.update_self, if_pos rfl]
          rfl
        · rw [Function.update_of_ne hr', if_neg (by simpa using Ne.symm hr')]
      · rw [contextOf_update hget1]
        refine Function.update_eq_self_iff.mpr ?_
        unfold contextOf
        rw [hq]
        rfl
      · rw [hget1, Function.update_of_ne (by simpa using Ne.symm hr')]
      · cases hr'
        rw [hget1, Function.update_self] at hq'
        cases hq'
        exact hctx

theorem Links.close {conns conns' : Arena Connection} {requests requests' : Arena Request}
    {contexts : Arena Context} (h : Links conns requests contexts) (hk : conns.get k = some c)
    (hconns : conns'.get = Function.update conns.get k (some ⟨false, none, none⟩))
    (hdetached : Detached requests requests' c.request) : Links conns' requests' contexts where
  attached := by
    rw [requestOf_update hconns]
    have hself : requestOf conns k = c.request := by
      unfold requestOf
      rw [hk]
      rfl
    cases hc : c.request with
    | none =>
      rw [hc] at hself
      have hsame : connOf requests' = connOf requests := by
        funext r
        rw [hdetached.conn, hc, if_neg (by simp)]
      have hnone : Function.update (requestOf conns) k
        ((some (⟨false, none, none⟩ : Connection)).bind Connection.request) =
          requestOf conns := Function.update_eq_self_iff.mpr hself.symm
      rw [hsame, hnone]
      exact h.attached
    | some r =>
      rw [hc] at hself
      have hnone : connOf requests' = Function.update (connOf requests) r none := by
        funext r'
        rw [hdetached.conn, hc]
        by_cases hr' : r' = r
        · subst hr'
          rw [if_pos rfl, Function.update_self]
        · rw [if_neg (by simpa using Ne.symm hr'), Function.update_of_ne hr']
      rw [hnone]
      exact h.attached.unlink hself
  held := by
    rw [hdetached.context]
    exact h.held
  kept r q hq := by
    by_cases hr : c.request = some r
    · exact .inr (hdetached.kept r q hr hq)
    · rw [hdetached.other r hr] at hq
      exact h.kept r q hq
  closed j c' hj hclosed := by
    rw [hconns] at hj
    by_cases hjk : j = k
    · rw [hjk, Function.update_self] at hj
      exact (Option.some.inj hj).symm
    · rw [Function.update_of_ne hjk] at hj
      exact h.closed j c' hj hclosed

/-- the header buffers without that of a connection -/
structure Unbuffered (headers headers' : Arena Unit) (outgoing : Option Outgoing) : Prop where
  alive : ∀ h, (headers'.get h).isSome = true ↔ (headers.get h).isSome = true ∧ ∀ o, outgoing =
    some o → h ≠ o.header

theorem freeHeader_spec {outgoing : Option Outgoing} (t : State)
    (h : ∀ o, outgoing = some o → (t.headers.get o.header).isSome = true) :
    ∃ headers', freeHeader t outgoing = some { t with headers := headers' } ∧
      Unbuffered t.headers headers' outgoing := by
  cases outgoing with
  | none => exact ⟨t.headers, rfl, ⟨fun h => by simp⟩⟩
  | some o =>
    obtain ⟨u, hu⟩ := Option.isSome_iff_exists.mp (h o rfl)
    obtain ⟨headers', hfree, hget, -⟩ := Arena.free_alive hu
    refine ⟨headers', ?_, ⟨fun i => ?_⟩⟩
    · unfold freeHeader
      simp only [Option.bind_eq_bind, hfree, Option.bind_some]
    · rw [hget]
      by_cases hi : i = o.header
      · subst hi
        simp
      · rw [Function.update_of_ne hi]
        simp [hi]

theorem Answers.close {conns conns' : Arena Connection} {requests requests' : Arena Request}
    {headers headers' : Arena Unit}
    {contexts : Arena Context} {sent : List Sent} (h : Answers busy conns requests headers sent)
    (hlinks : Links conns requests contexts) (hk : conns.get k = some c)
    (hconns : conns'.get = Function.update conns.get k (some ⟨false, none, none⟩))
    (hdetached : Detached requests requests' c.request)
    (hheaders : Unbuffered headers headers' c.outgoing) :
    Answers busy conns' requests' headers' sent where
  headers := by
    rw [headerOf_update hconns]
    have hself : headerOf conns k = c.outgoing.map Outgoing.header := by
      unfold headerOf
      rw [hk]
      rfl
    cases ho : c.outgoing with
    | none =>
      rw [ho] at hself
      have hnone : Function.update (headerOf conns) k
          ((some (⟨false, none, none⟩ : Connection)).bind fun c => c.outgoing.map Outgoing.header) =
          headerOf conns :=
        Function.update_eq_self_iff.mpr hself.symm
      rw [hnone]
      refine h.headers.congr fun i => ?_
      rw [hheaders.alive, ho]
      simp
    | some o =>
      rw [ho] at hself
      refine (h.headers.remove hself).congr fun i => ?_
      rw [hheaders.alive, ho]
      simp
  body j c' o hj ho := by
    rw [hconns] at hj
    by_cases hjk : j = k
    · rw [hjk, Function.update_self] at hj
      cases hj
      cases ho
    · rw [Function.update_of_ne hjk] at hj
      obtain ⟨hbody, hcontext⟩ := h.body j c' o hj ho
      refine ⟨hbody, fun q hq => hcontext q ?_⟩
      rw [← hdetached.other o.body]
      · exact hq
      · -- the request belongs to one connection only
        intro hc
        refine hjk (hlinks.attached.injective (b := o.body) ?_ ?_)
        · unfold requestOf
          rw [hj]
          exact hbody
        · unfold requestOf
          rw [hk]
          exact hc
  onto := h.onto
  once := h.once
  born e he := by
    rw [hdetached.next]
    exact h.born e he
  known e he j c' hj hrequest := by
    rw [hconns] at hj
    by_cases hjk : j = k
    · rw [hjk, Function.update_self] at hj
      cases hj
      cases hrequest
    · rw [Function.update_of_ne hjk] at hj
      exact h.known e he j c' hj hrequest

/-- **`remove_connection` on an open connection** -/
theorem Safe.removeConnection (h : Safe busy s) (hk : s.conns.get k = some c)
    (ho : c.isOpen = true) :
    ∃ s', removeConnection s k = some s' ∧ Safe busy s' ∧ Frame s s' ∧ s'.clients =
      s.clients.erase k := by
  have hmem : k ∈ s.clients := (h.lists.open_iff k).mpr ⟨c, hk, ho⟩
  obtain ⟨conns', hset, hconns, hnext⟩ := Arena.set_alive hk ⟨false, none, none⟩
  obtain ⟨requests', disposed', hdetach, hdetached, hdisposed⟩ :=
    detachRequest_spec h.links conns' (s.clients.erase k) hk h.disposed
  have hbuffers : ∀ o, c.outgoing = some o → (s.headers.get o.header).isSome = true := by
    intro o hout
    refine h.answers.headers.value (a := k) ?_
    unfold headerOf
    rw [hk]
    simp only [Option.bind_some, hout, Option.map_some]
  obtain ⟨headers', hfree, hheaders⟩ := freeHeader_spec
    { s with conns := conns', clients := s.clients.erase k, requests := requests', disposed :=
      disposed' } hbuffers
  let s' : State := { s with
    conns := conns', clients := s.clients.erase k, requests := requests', disposed :=
    disposed', headers := headers',
    retired := k :: s.retired }
  refine ⟨s', ?_, ⟨h.lists.close hk ho hconns, h.links.close hk hconns hdetached,
    h.answers.close h.links hk hconns hdetached hheaders, h.work, hdisposed⟩, ?_, rfl⟩
  · unfold Server.removeConnection
    simp only [Option.bind_eq_bind, hk, Option.bind_some, ho, hset, hdetach, hfree,
      reduceCtorEq, if_false]
    rfl
  · refine ⟨rfl, rfl, rfl, rfl, rfl, rfl, rfl, rfl, rfl, rfl, rfl, .single (.remove hmem),
      fun j hj => ?_⟩
    show (conns'.get j).isSome = true
    rw [hconns]
    by_cases hjk : j = k
    · rw [hjk, Function.update_self]
      rfl
    · rw [Function.update_of_ne hjk]
      exact hj

end

/-! ## a context goes -/

section
variable {s : State} {x : Nat} {cx : Context}

/-- the request loses its context, and goes too when it has no connection -/
structure Released (requests requests' : Arena Request) (r : Nat) (q : Request) : Prop where
  next : requests'.next = requests.next
  get : requests'.get = Function.update requests.get r
    (if q.conn = none then none else some { q with context := none })

theorem contextDispose_spec {busy : Option Nat} (h : Safe busy s)
    (hx : s.contexts.get x = some cx) :
    ∃ q requests' contexts' disposed', s.requests.get cx.request = some q ∧
      httpRequestContextDispose s x =
        some { s with requests := requests', contexts := contexts', disposed := disposed' } ∧
      Released s.requests requests' cx.request q ∧
      contexts'.get = Function.update s.contexts.get x none ∧
      ∀ d ∈ disposed', d.conn = none ∧ d.context = none := by
  have hholder : holderOf s.contexts x = some cx.request := by
    unfold holderOf
    rw [hx]
    rfl
  obtain ⟨q, hq, -⟩ := Option.bind_eq_some_iff.mp (h.links.held.right hholder)
  obtain ⟨requests1, hset, hget1, hnext1⟩ := Arena.set_alive hq { q with context := none }
  obtain ⟨contexts', hfreeContext, hcontexts, -⟩ := Arena.free_alive hx
  by_cases hconn : q.conn = none
  · have hget2 : requests1.get cx.request =
      some { q with context := none } := by rw [hget1, Function.update_self]
    obtain ⟨requests2, hfree, hget, hnext⟩ := Arena.free_alive hget2
    refine ⟨q, requests2, contexts', s.disposed ++ [{ q with context := none }], hq, ?_,
      ⟨hnext.trans hnext1, ?_⟩, hcontexts, ?_⟩
    · unfold httpRequestContextDispose httpRequestDispose
      simp only [Option.bind_eq_bind, hx, Option.bind_some, hq, hset]
      rw [if_pos hconn]
      simp only [hget2, Option.bind_some, hfree, hfreeContext]
    · rw [hget, hget1, Function.update_idem, if_pos hconn]
    · intro d hd
      rcases List.mem_append.mp hd with hd | hd
      · exact h.disposed d hd
      · rw [List.mem_singleton.mp hd]
        exact ⟨hconn, rfl⟩
  · refine ⟨q, requests1, contexts', s.disposed, hq, ?_, ⟨hnext1, ?_⟩, hcontexts, h.disposed⟩
    · unfold httpRequestContextDispose
      simp only [Option.bind_eq_bind, hx, Option.bind_some, hq, hset]
      rw [if_neg hconn]
      simp only [Option.bind_some, hfreeContext]
    · rw [hget1, if_neg hconn]

theorem Links.release {conns : Arena Connection} {requests requests' : Arena Request}
    {contexts contexts' : Arena Context}
    {q : Request} (h : Links conns requests contexts) (hx : contexts.get x = some cx)
    (hq : requests.get cx.request = some q) (hreleased : Released requests requests' cx.request q)
    (hcontexts : contexts'.get = Function.update contexts.get x none) :
    Links conns requests' contexts' where
  attached := by
    rw [connOf_update hreleased.get, Function.update_eq_self_iff.mpr]
    · exact h.attached
    · unfold connOf
      rw [hq]
      by_cases hconn : q.conn = none
      · rw [if_pos hconn]
        exact hconn.symm
      · rw [if_neg hconn]
        rfl
  held := by
    have hnone : (if q.conn = none then none else some { q with context := none }).bind
      Request.context = none := by
      split <;> rfl
    rw [contextOf_update hreleased.get, holderOf_update hcontexts, hnone]
    refine h.held.unlink (h.held.right ?_)
    unfold holderOf
    rw [hx]
    rfl
  kept r q' hr := by
    rw [hreleased.get] at hr
    by_cases hreq : r = cx.request
    · rw [hreq, Function.update_self] at hr
      by_cases hconn : q.conn = none
      · rw [if_pos hconn] at hr
        cases hr
      · rw [if_neg hconn] at hr
        cases hr
        exact .inl hconn
    · rw [Function.update_of_ne hreq] at hr
      exact h.kept r q' hr
  closed := h.closed

theorem Answers.release {conns : Arena Connection} {requests requests' : Arena Request}
    {contexts : Arena Context}
    {headers : Arena Unit} {sent : List Sent} {q : Request}
    (h : Answers (some x) conns requests headers sent)
    (hlinks : Links conns requests contexts) (hx : contexts.get x = some cx)
    (hreleased : Released requests requests' cx.request q) :
    Answers none conns requests' headers sent where
  headers := h.headers
  body j c o hj ho := by
    obtain ⟨hbody, hcontext⟩ := h.body j c o hj ho
    refine ⟨hbody, fun q' hq' => .inl ?_⟩
    rw [hreleased.get] at hq'
    by_cases hreq : o.body = cx.request
    · rw [hreq, Function.update_self] at hq'
      split at hq'
      · cases hq'
      · cases hq'
        rfl
    · rw [Function.update_of_ne hreq] at hq'
      rcases hcontext q' hq' with hnone | hsome
      · exact hnone
      · -- the context has one request only
        have hheld : contextOf requests o.body = some x := by
          unfold contextOf
          rw [hq']
          exact hsome
        have hholder := hlinks.held.left hheld
        unfold holderOf at hholder
        rw [hx] at hholder
        exact absurd (Option.some.inj hholder).symm hreq
  onto := h.onto
  once := h.once
  born e he := by
    rw [hreleased.next]
    exact h.born e he
  known := h.known

/-- **`http_request_context_dispose`, when nothing is under way for the context any more** -/
theorem Safe.contextDispose (h : Safe (some x) s) (hx : s.contexts.get x = some cx) :
    ∃ requests' contexts' disposed',
      httpRequestContextDispose s x =
        some { s with requests := requests', contexts := contexts', disposed := disposed' } ∧
      Safe none { s with requests := requests', contexts := contexts', disposed := disposed' } ∧
      ∃ q, s.requests.get cx.request = some q ∧ Released s.requests requests' cx.request q := by
  obtain ⟨q, requests', contexts', disposed', hq, heq, hreleased, hcontexts, hdisposed⟩ :=
    contextDispose_spec h hx
  refine ⟨requests', contexts', disposed', heq, ⟨h.lists, h.links.release hx hq hreleased hcontexts,
    h.answers.release h.links hx hreleased, ?_, hdisposed⟩, q, hq, hreleased⟩
  refine ⟨h.work.covers.congr fun y => ?_, h.work.listedTasks, h.work.listedJobs⟩
  show (contexts'.get y).isSome = true ∧ _ ↔ _
  rw [hcontexts]
  by_cases hy : y = x
  · subst hy
    simp
  · rw [Function.update_of_ne hy]
    simp [Ne.symm hy]

end

/-! ## a response goes out -/

section
variable {busy : Option Nat} {s : State} {k r : Nat} {c : Connection} {q : Request}

theorem Links.buffer {conns conns' : Arena Connection} {requests : Arena Request}
    {contexts : Arena Context} {o : Outgoing}
    (h : Links conns requests contexts) (hk : conns.get k = some c) (ho : c.isOpen = true)
    (hconns : conns'.get = Function.update conns.get k (some { c with outgoing := some o })) :
    Links conns' requests contexts where
  attached := by
    rw [requestOf_update hconns, Function.update_eq_self_iff.mpr]
    · exact h.attached
    · unfold requestOf
      rw [hk]
      rfl
  held := h.held
  kept := h.kept
  closed j c' hj hclosed := by
    rw [hconns] at hj
    by_cases hjk : j = k
    · rw [hjk, Function.update_self] at hj
      cases hj
      rw [ho] at hclosed
      cases hclosed
    · rw [Function.update_of_ne hjk] at hj
      exact h.closed j c' hj hclosed

theorem Lists.write {conns conns' : Arena Connection} {clients retired : List Nat} {c' : Connection}
    (h : Lists conns clients retired) (hk : conns.get k = some c) (ho : c'.isOpen = c.isOpen)
    (hconns : conns'.get = Function.update conns.get k (some c')) :
    Lists conns' clients retired where
  clients_nodup := h.clients_nodup
  retired_nodup := h.retired_nodup
  open_iff j := by
    rw [h.open_iff, hconns]
    by_cases hj : j = k
    · subst hj
      rw [Function.update_self, hk]
      simp [ho]
    · rw [Function.update_of_ne hj]
  closed_iff j := by
    rw [h.closed_iff, hconns]
    by_cases hj : j = k
    · subst hj
      rw [Function.update_self, hk]
      simp [ho]
    · rw [Function.update_of_ne hj]

theorem Answers.buffer {conns conns' : Arena Connection} {requests : Arena Request}
    {headers : Arena Unit}
    {contexts : Arena Context} {sent : List Sent} (h : Answers busy conns requests headers sent)
    (hlinks : Links conns requests contexts) (hk : conns.get k = some c) (ho : c.isOpen = true)
    (hr : c.request = some r)
    (hnew : c.outgoing = none) (hq : requests.get r = some q)
    (hbusy : q.context = none ∨ q.context = busy)
    (hconns : conns'.get = Function.update conns.get k
      (some { c with outgoing := some ⟨headers.next, r⟩ })) :
    Answers busy conns' requests (headers.alloc ()) (sent ++ [⟨r, k, c⟩]) where
  headers := by
    rw [headerOf_update hconns]
    have hself : headerOf conns k = none := by
      unfold headerOf
      rw [hk]
      simp only [Option.bind_some, hnew, Option.map_none]
    have hfresh : ¬ (headers.get headers.next).isSome = true := by
      rw [headers.get_next]
      decide
    refine (h.headers.add hself hfresh).congr fun i => ?_
    rw [Arena.get_alloc]
    by_cases hi : i = headers.next
    · subst hi
      simp
    · rw [Function.update_of_ne hi]
      simp [hi]
  body j c' o hj hout := by
    rw [hconns] at hj
    by_cases hjk : j = k
    · rw [hjk, Function.update_self] at hj
      cases hj
      cases hout
      refine ⟨hr, fun q' hq' => ?_⟩
      rw [hq] at hq'
      cases hq'
      exact hbusy
    · rw [Function.update_of_ne hjk] at hj
      exact h.body j c' o hj hout
  onto e he := by
    rcases List.mem_append.mp he with he | he
    · exact h.onto e he
    · rw [List.mem_singleton.mp he]
      exact ⟨ho, hr⟩
  once := by
    rw [List.map_append]
    refine List.nodup_append.mpr ⟨h.once, List.nodup_singleton _, ?_⟩
    intro r1 hr1 r2 hr2
    obtain ⟨e, he, rfl⟩ := List.mem_map.mp hr1
    rw [List.map_singleton, List.mem_singleton] at hr2
    rintro rfl
    exact h.known e he k c hk (hr.trans (congrArg some hr2.symm)) hnew
  born e he := by
    rcases List.mem_append.mp he with he | he
    · exact h.born e he
    · rw [List.mem_singleton.mp he]
      exact requests.lt_next r q hq
  known e he j c' hj hrequest := by
    rw [hconns] at hj
    by_cases hjk : j = k
    · rw [hjk, Function.update_self] at hj
      cases hj
      exact Option.some_ne_none _
    · rw [Function.update_of_ne hjk] at hj
      rcases List.mem_append.mp he with he | he
      · exact h.known e he j c' hj hrequest
      · rw [List.mem_singleton.mp he] at hrequest
        refine absurd (hlinks.attached.injective (b := r) ?_ ?_) hjk
        · unfold requestOf
          rw [hj]
          exact hrequest
        · unfold requestOf
          rw [hk]
          exact hr

/-- **`start_send_http_response` on the open connection of the request** -/
theorem Safe.startSend (h : Safe busy s) (hk : s.conns.get k = some c) (ho : c.isOpen = true)
    (hr : c.request = some r)
    (hnew : c.outgoing = none) (hq : s.requests.get r = some q)
    (hbusy : q.context = none ∨ q.context = busy)
    (sending : Sending) : ∃ s', startSendHttpResponse s k r sending = some s' ∧ Safe busy s' ∧
    Frame s s' := by
  by_cases hheader : sending.header = false
  · obtain ⟨s', hremove, hsafe, hframe, -⟩ := h.removeConnection hk ho
    refine ⟨s', ?_, hsafe, hframe⟩
    unfold startSendHttpResponse
    rw [if_pos hheader]
    exact hremove
  obtain ⟨conns', hset, hconns, -⟩ :=
    Arena.set_alive hk { c with outgoing := some ⟨s.headers.next, r⟩ }
  let s1 : State := { s with conns := conns', headers := s.headers.alloc (), sent :=
    s.sent ++ [⟨r, k, c⟩] }
  have hlists : Lists conns' s.clients s.retired := Lists.write h.lists hk (by rfl) hconns
  have hsafe : Safe busy s1 := ⟨hlists, h.links.buffer hk ho hconns,
    h.answers.buffer h.links hk ho hr hnew hq hbusy hconns, h.work, h.disposed⟩
  have hk1 : s1.conns.get k = some { c with outgoing := some ⟨s.headers.next, r⟩ } := by
    show conns'.get k = _
    rw [hconns, Function.update_self]
  have hframe : Frame s s1 := by
    refine ⟨rfl, rfl, rfl, rfl, rfl, rfl, rfl, rfl, rfl, rfl, rfl, .refl, fun j hj => ?_⟩
    show (conns'.get j).isSome = true
    rw [hconns]
    by_cases hjk : j = k
    · rw [hjk, Function.update_self]
      rfl
    · rw [Function.update_of_ne hjk]
      exact hj
  -- the header was just allocated, the request holds the body
  have hsend : connectionSendBuffer s1 k sending.result = some sending.result := by
    have hheaderGet : s1.headers.get s.headers.next = some () := by
      show (s.headers.alloc ()).get _ = _
      rw [Arena.get_alloc, Function.update_self]
    have hbodyGet : s1.requests.get r = some q := hq
    unfold connectionSendBuffer
    simp only [Option.bind_eq_bind, hk1, Option.bind_some, hheaderGet, hbodyGet]
  obtain ⟨s', hremove, hsafe', hframe', -⟩ := hsafe.removeConnection hk1 ho
  unfold startSendHttpResponse
  rw [if_neg hheader]
  simp only [Option.bind_eq_bind, hk, Option.bind_some, hset]
  change ∃ s', Option.bind (connectionSendBuffer s1 k sending.result) _ = some s' ∧ _
  rw [hsend, Option.bind_some]
  split
  · exact ⟨s1, rfl, hsafe, hframe⟩
  · exact ⟨s', hremove, hsafe', hframe.trans hframe'⟩

end

end Server
