import CtfServer.Lib.Intrusive

/-!
# The lists of connections

`listen_handler` (server.c), `remove_connection` and `reap_connections` (server_connection.c), and
the loop of `destroy_server` over the clients.  The memory is kept by fields: `fd a` is `none` where
nothing is allocated, and a function gives `none` when it writes to such a place.

* `Represents live retired`    the lists of the server, and what is allocated;
* `Represents.accept`, `Represents.remove`, `Represents.reap`   what one call does to them;
* `client_lists`               **in every state that can be reached the live list is doubly linked
                               and holds the open connections, the retired list the others**.
-/

set_option linter.unusedVariables false

namespace Http

open Intrusive (Chain Linked)

/-! ## the server -/

inductive FdType where
  | listen | client | signal | db | password
  deriving DecidableEq, Repr

/-- `server_t` with the `connection_t`s of the heap, by fields; the null pointer is `none` -/
structure Server where
  clients : Option Nat
  retiredClients : Option Nat
  fd : Nat → Option Int
  type : Nat → FdType
  next : Nat → Option Nat
  previous : Nat → Option Nat
  retiredNext : Nat → Option Nat

/-- no connection yet -/
def Server.empty : Server :=
  ⟨none, none, fun _ => none, fun _ => .listen, fun _ => none, fun _ => none, fun _ => none⟩

def Server.setNext (s : Server) (conn : Nat) (value : Option Nat) : Option Server :=
  if (s.fd conn).isSome then some { s with next := Function.update s.next conn value } else none

def Server.setPrevious (s : Server) (conn : Nat) (value : Option Nat) : Option Server :=
  if (s.fd conn).isSome then some { s with previous := Function.update s.previous conn value } else
    none

/-- `calloc`, then the two fields of the new client -/
def Server.newClient (s : Server) (conn : Nat) (clientFd : Int) : Server :=
  { s with
    fd := Function.update s.fd conn (some clientFd)
    type := Function.update s.type conn .client
    next := Function.update s.next conn none
    previous := Function.update s.previous conn none
    retiredNext := Function.update s.retiredNext conn none }

/-- a turn of `listen_handler`: what `accept`, `set_nonblocking`, `calloc` and `add_connection`
gave -/
def acceptConnection (s : Server) (clientFd : Int) (nonblocking : Bool) (memory : Option Nat)
    (added : Bool) :
    Option Server :=
  if clientFd < 0 then some s
  else if nonblocking = false then some s
  else
    match memory with
    | none => some s
    | some conn =>
      if added = false then some s
      else do
        let s ← (s.newClient conn clientFd).setNext conn s.clients
        let s ←
          match s.clients with
          | some head => s.setPrevious head (some conn)
          | none => some s
        some { s with clients := some conn }

/-- the two neighbours are linked with each other -/
def unlinkClient (s : Server) (conn : Nat) : Option Server := do
  let s ←
    match s.previous conn with
    | some previous => s.setNext previous (s.next conn)
    | none => some { s with clients := s.next conn }
  match s.next conn with
  | some next => s.setPrevious next (s.previous conn)
  | none => some s

/-- `remove_connection`, without the request and the header buffer -/
def removeConnection (s : Server) (conn : Nat) : Option Server :=
  match s.fd conn with
  | none => none
  | some fd =>
    if fd < 0 then some s
    else do
      let s := { s with fd := Function.update s.fd conn (some (-1)) }
      let s ← if s.type conn = .client then unlinkClient s conn else some s
      some { s with
        retiredNext := Function.update s.retiredNext conn s.retiredClients
        retiredClients := some conn }

/-- `reap_connections`, as far as `fuel` turns of its loop go -/
def reapConnections : Nat → Server → Option Server
  | 0, s => if s.retiredClients = none then some s else none
  | fuel + 1, s =>
    match s.retiredClients with
    | none => some s
    | some conn =>
      if (s.fd conn).isSome then
        reapConnections fuel { s with
          retiredClients := s.retiredNext conn
          fd := Function.update s.fd conn none }
      else none

/-- `while (srv->clients) remove_connection(srv, srv->clients)`, as far as `fuel` turns go -/
def destroyClients : Nat → Server → Option Server
  | 0, s => if s.clients = none then some s else none
  | fuel + 1, s =>
    match s.clients with
    | none => some s
    | some conn => do
      let s ← removeConnection s conn
      destroyClients fuel s

/-! ## what the lists hold -/

/-- the client that a turn of `listen_handler` takes in -/
def accepted (clientFd : Int) (nonblocking : Bool) (memory : Option Nat) (added : Bool) :
    List Nat :=
  if clientFd < 0 ∨ nonblocking = false ∨ added = false then [] else memory.toList

/-- the states of a server, with the connections that were accepted and not removed, and those that
were removed and not reaped; memory that `calloc` gives is in no use -/
inductive Reached : Server → List Nat → List Nat → Prop
  | start : Reached .empty [] []
  | accept {s s' : Server} {live retired : List Nat} {clientFd : Int} {nonblocking added : Bool}
      {memory : Option Nat} :
      Reached s live retired → (∀ conn, memory = some conn → s.fd conn = none) →
      acceptConnection s clientFd nonblocking memory added = some s' →
      Reached s' (accepted clientFd nonblocking memory added ++ live) retired
  | remove {s s' : Server} {live retired : List Nat} {conn : Nat} :
      Reached s live retired → conn ∈ live ++ retired → removeConnection s conn = some s' →
      Reached s' (live.erase conn) (if conn ∈ live then conn :: retired else retired)
  | reap {s s' : Server} {live retired : List Nat} {fuel : Nat} :
      Reached s live retired → reapConnections fuel s = some s' → Reached s' live []

/-- the two lists, and which connections are open, closed or free -/
structure Represents (s : Server) (live retired : List Nat) : Prop where
  linked : Linked s.next s.previous none s.clients live
  chain : Chain s.retiredNext s.retiredClients retired
  live_nodup : live.Nodup
  retired_nodup : retired.Nodup
  live_iff : ∀ a, a ∈ live ↔ ∃ fd, s.fd a = some fd ∧ 0 ≤ fd
  retired_iff : ∀ a, a ∈ retired ↔ ∃ fd, s.fd a = some fd ∧ fd < 0
  client : ∀ a ∈ live, s.type a = .client

section
variable {s : Server} {live retired : List Nat}

theorem Represents.disjoint (h : Represents s live retired) : live.Disjoint retired := by
  intro a hl hr
  obtain ⟨fd, hfd, hpos⟩ := (h.live_iff a).mp hl
  obtain ⟨fd', hfd', hneg⟩ := (h.retired_iff a).mp hr
  rw [hfd] at hfd'
  obtain rfl := Option.some.inj hfd'
  omega

theorem Represents.not_mem (h : Represents s live retired) {a : Nat} (ha : s.fd a = none) :
    a ∉ live ∧ a ∉ retired := by
  constructor
  · intro hl
    obtain ⟨fd, hfd, -⟩ := (h.live_iff a).mp hl
    rw [ha] at hfd
    cases hfd
  · intro hr
    obtain ⟨fd, hfd, -⟩ := (h.retired_iff a).mp hr
    rw [ha] at hfd
    cases hfd

theorem Represents.allocated (h : Represents s live retired) {a : Nat} (ha : a ∈ live) :
    (s.fd a).isSome = true := by
  obtain ⟨fd, hfd, -⟩ := (h.live_iff a).mp ha
  rw [hfd]
  rfl

/-! ## `listen_handler` -/

/-- the server with a new first client -/
def Server.pushed (s : Server) (conn : Nat) (clientFd : Int) : Server :=
  { s with
    clients := some conn
    fd := Function.update s.fd conn (some clientFd)
    type := Function.update s.type conn .client
    next := Function.update s.next conn s.clients
    previous := fun a => if a = conn then none else if s.clients = some a then
      some conn else s.previous a
    retiredNext := Function.update s.retiredNext conn none }

theorem Represents.accepts (h : Represents s live retired) {conn : Nat} {clientFd : Int}
    (hfd : 0 ≤ clientFd) (hfree : s.fd conn = none) :
    acceptConnection s clientFd true (some conn) true = some (s.pushed conn clientFd) := by
  have hself : (Function.update s.fd conn (some clientFd) conn).isSome =
    true := by rw [Function.update_self]; rfl
  unfold acceptConnection Server.pushed
  rw [if_neg (by omega), if_neg (by decide)]
  simp only [if_neg (show ¬ true = false by decide), Server.setNext, Server.newClient, hself,
    if_true, Option.bind_eq_bind,
    Option.bind_some, Function.update_idem]
  cases hc : s.clients with
  | none =>
    have hprev : Function.update s.previous conn none =
        fun a => if a = conn then none else if (none : Option Nat) = some a then some conn else
        s.previous a := by
      funext a
      by_cases ha : a = conn
      · rw [ha, Function.update_self, if_pos rfl]
      · rw [Function.update_of_ne ha, if_neg ha, if_neg (Option.some_ne_none a).symm]
    simp only [hprev]
  | some head =>
    have hmem : head ∈ live := by
      have hlinked := h.linked
      rw [hc] at hlinked
      exact hlinked.head_mem
    have hne : head ≠ conn := by
      rintro rfl
      exact (h.not_mem hfree).1 hmem
    have hhead : (Function.update s.fd conn (some clientFd) head).isSome = true := by
      rw [Function.update_of_ne hne]
      exact h.allocated hmem
    have hprev : Function.update (Function.update s.previous conn none) head (some conn) =
        fun a => if a = conn then none else if some head = some a then some conn else
        s.previous a := by
      funext a
      by_cases hah : a = head
      · rw [hah, Function.update_self, if_neg hne, if_pos rfl]
      · rw [Function.update_of_ne hah,
          if_neg (show some head ≠ some a from fun he => hah (Option.some.inj he).symm)]
        by_cases ha : a = conn
        · rw [ha, Function.update_self, if_pos rfl]
        · rw [Function.update_of_ne ha, if_neg ha]
    simp only [Server.setPrevious, hhead, if_true, Option.bind_some, hprev]

theorem Represents.pushed (h : Represents s live retired) {conn : Nat} {clientFd : Int}
    (hfd : 0 ≤ clientFd)
    (hfree : s.fd conn = none) : Represents (s.pushed conn clientFd) (conn :: live) retired := by
  obtain ⟨hlive, hretired⟩ := h.not_mem hfree
  have hne : ∀ b ∈ live, b ≠ conn := fun b hb he => hlive (he ▸ hb)
  refine ⟨?_, ?_, List.nodup_cons.mpr ⟨hlive, h.live_nodup⟩, h.retired_nodup, ?_, ?_, ?_⟩
  · refine h.linked.push (Function.update_self ..) (if_pos rfl)
      (fun b hb => Function.update_of_ne (hne b hb) ..)
      (fun b hb => if_neg (hne b hb)) h.live_nodup
  · exact h.chain.congr fun a ha => Function.update_of_ne
      (fun he : a = conn => hretired (he ▸ ha)) ..
  · intro a
    by_cases ha : a = conn
    · rw [ha]
      exact ⟨fun _ => ⟨clientFd, Function.update_self .., hfd⟩, fun _ => List.mem_cons_self⟩
    · rw [List.mem_cons, or_iff_right ha, h.live_iff a]
      show _ ↔ ∃ fd, Function.update s.fd conn (some clientFd) a = some fd ∧ 0 ≤ fd
      rw [Function.update_of_ne ha]
  · intro a
    by_cases ha : a = conn
    · rw [ha]
      refine ⟨fun hr => absurd hr hretired, ?_⟩
      rintro ⟨fd, hfd', hneg⟩
      have hsome : (s.pushed conn clientFd).fd conn = some clientFd := Function.update_self ..
      rw [hsome] at hfd'
      rw [← Option.some.inj hfd'] at hneg
      omega
    · rw [h.retired_iff a]
      show _ ↔ ∃ fd, Function.update s.fd conn (some clientFd) a = some fd ∧ fd < 0
      rw [Function.update_of_ne ha]
  · refine List.forall_mem_cons.mpr ⟨Function.update_self .., fun a ha => ?_⟩
    exact (Function.update_of_ne (hne a ha) ..).trans (h.client a ha)

/-- **a turn of the listener**: nothing, or a new first client -/
theorem Represents.accept (h : Represents s live retired) (clientFd : Int)
    (nonblocking added : Bool) (memory : Option Nat)
    (hfree : ∀ conn, memory = some conn → s.fd conn = none) :
    ∃ s', acceptConnection s clientFd nonblocking memory added = some s' ∧
      Represents s' (accepted clientFd nonblocking memory added ++ live) retired := by
  by_cases hno : clientFd < 0 ∨ nonblocking = false ∨ added = false
  · have hsame : acceptConnection s clientFd nonblocking memory added = some s := by
      unfold acceptConnection
      rcases hno with hno | hno | hno
      · rw [if_pos hno]
      · rw [if_pos hno, ite_self]
      · cases memory with
        | none => simp only [ite_self]
        | some conn => simp only [if_pos hno, ite_self]
    refine ⟨s, hsame, ?_⟩
    unfold accepted
    rw [if_pos hno, List.nil_append]
    exact h
  · have hyes : nonblocking = true ∧ added = true := by simpa using fun he => hno (Or.inr he)
    unfold accepted
    rw [if_neg hno, hyes.1, hyes.2]
    cases memory with
    | none =>
      refine ⟨s, ?_, h⟩
      unfold acceptConnection
      rw [if_neg (fun hneg => hno (Or.inl hneg)), if_neg (by decide)]
    | some conn =>
      have hfd : 0 ≤ clientFd := by omega
      exact ⟨_, h.accepts hfd (hfree conn rfl), h.pushed hfd (hfree conn rfl)⟩

/-! ## `remove_connection` -/

/-- the server without a client: its neighbours are linked with each other -/
def Server.unlinked (s : Server) (conn : Nat) : Server :=
  { s with
    clients := if s.clients = some conn then s.next conn else s.clients
    next := fun a => if s.previous conn = some a then s.next conn else s.next a
    previous := fun a => if s.next conn = some a then s.previous conn else s.previous a }

/-- that server, with the client as the first of the retired ones -/
def Server.removed (s : Server) (conn : Nat) : Server :=
  { s.unlinked conn with
    fd := Function.update s.fd conn (some (-1))
    retiredNext := Function.update s.retiredNext conn s.retiredClients
    retiredClients := some conn }

theorem update_eq_ite {β : Type} (f : Nat → β) (a : Nat) (v : β) :
    Function.update f a v = fun b => if some a = some b then v else f b := by
  funext b
  by_cases h : b = a
  · rw [h, Function.update_self, if_pos rfl]
  · rw [Function.update_of_ne h, if_neg (fun he => h (Option.some.inj he).symm)]

theorem unlinkClient_eq {conn : Nat} (hp : ∀ p, s.previous conn = some p → (s.fd p).isSome =
    true ∧ p ≠ conn)
    (hn : ∀ n, s.next conn = some n → (s.fd n).isSome = true)
    (hhead : s.previous conn = none ↔ s.clients = some conn) :
    unlinkClient s conn = some (s.unlinked conn) := by
  unfold unlinkClient Server.unlinked
  cases hprev : s.previous conn with
  | none =>
    have hnone : (fun a => if (none : Option Nat) = some a then s.next conn else s.next a)
      = s.next := by
      funext a
      rw [if_neg (Option.some_ne_none a).symm]
    rw [if_pos (hhead.mp hprev), hnone]
    cases hnext : s.next conn with
    | none =>
      have hnone' : (fun a => if (none : Option Nat) = some a then none else s.previous a) =
        s.previous := by
        funext a
        rw [if_neg (Option.some_ne_none a).symm]
      simp only [Option.bind_eq_bind, Option.bind_some, hnext, hnone']
    | some n =>
      simp only [Option.bind_eq_bind, Option.bind_some, hnext, Server.setPrevious, hn n hnext,
        if_true, hprev,
        update_eq_ite]
  | some p =>
    obtain ⟨hpfd, hpc⟩ := hp p hprev
    have hclients : s.clients ≠ some conn := fun he => by
      rw [hhead.mpr he] at hprev
      cases hprev
    have hself : Function.update s.next p (s.next conn) conn = s.next conn :=
      Function.update_of_ne (Ne.symm hpc) ..
    rw [if_neg hclients]
    simp only [Server.setNext, hpfd, if_true, Option.bind_eq_bind, Option.bind_some, hself]
    cases hnext : s.next conn with
    | none =>
      have hnone' : (fun a => if (none : Option Nat) = some a then some p else s.previous a) =
        s.previous := by
        funext a
        rw [if_neg (Option.some_ne_none a).symm]
      simp only [hnone', update_eq_ite]
    | some n =>
      simp only [Server.setPrevious, hn n hnext, if_true, hprev, update_eq_ite]

theorem Represents.removes (h : Represents s live retired) {conn : Nat} (hc : conn ∈ live) :
    removeConnection s conn = some (s.removed conn) := by
  obtain ⟨fd, hfd, hpos⟩ := (h.live_iff conn).mp hc
  have hupdate : ∀ a, (s.fd a).isSome = true →
    (Function.update s.fd conn (some (-1)) a).isSome = true := by
    intro a ha
    by_cases he : a = conn
    · rw [he, Function.update_self]
      rfl
    · rwa [Function.update_of_ne he]
  have hunlink : unlinkClient { s with fd := Function.update s.fd conn (some (-1)) } conn =
      some (({ s with fd := Function.update s.fd conn (some (-1)) } : Server).unlinked conn) := by
    refine unlinkClient_eq (fun p hp => ?_) (fun n hn => ?_)
      (h.linked.previous_none_iff h.live_nodup hc)
    · rcases h.linked.previous_mem hc hp with ⟨hmem, hnext⟩ | ⟨hnone, -⟩
      · exact ⟨hupdate p (h.allocated hmem), fun he => h.linked.next_ne h.live_nodup hc
          (he ▸ hnext)⟩
      · cases hnone
    · exact hupdate n (h.allocated (h.linked.next_mem hc hn).1)
  unfold removeConnection
  rw [hfd]
  simp only [if_neg (show ¬ fd < 0 by omega), h.client conn hc, if_true, Option.bind_eq_bind,
    hunlink, Option.bind_some]
  rfl

theorem Represents.removed (h : Represents s live retired) {conn : Nat} (hc : conn ∈ live) :
    Represents (s.removed conn) (live.erase conn) (conn :: retired) := by
  have hretired : conn ∉ retired := fun hr => h.disjoint hc hr
  refine ⟨?_, ⟨rfl, ?_⟩, h.live_nodup.erase conn, List.nodup_cons.mpr
    ⟨hretired, h.retired_nodup⟩, ?_, ?_, ?_⟩
  · refine h.linked.erase h.live_nodup hc (Option.some_ne_none conn).symm (fun b hb hbc => ?_)
      (fun b hb hbc => ?_)
    · show (if s.previous conn = some b then s.next conn else s.next b) = _
      simp only [h.linked.inverse hb hc]
    · show (if s.next conn = some b then s.previous conn else s.previous b) = _
      simp only [h.linked.inverse hc hb]
  · have hnext : (s.removed conn).retiredNext conn = s.retiredClients := Function.update_self ..
    rw [hnext]
    exact h.chain.congr fun a ha => Function.update_of_ne
      (fun he : a = conn => hretired (he ▸ ha)) ..
  · intro a
    rw [h.live_nodup.mem_erase_iff, h.live_iff a]
    show _ ↔ ∃ fd, Function.update s.fd conn (some (-1)) a = some fd ∧ 0 ≤ fd
    by_cases ha : a = conn
    · rw [ha, Function.update_self]
      refine ⟨fun he => absurd rfl he.1, ?_⟩
      rintro ⟨fd, hfd, hpos⟩
      rw [← Option.some.inj hfd] at hpos
      omega
    · rw [Function.update_of_ne ha]
      exact and_iff_right ha
  · intro a
    rw [List.mem_cons, h.retired_iff a]
    show _ ↔ ∃ fd, Function.update s.fd conn (some (-1)) a = some fd ∧ fd < 0
    by_cases ha : a = conn
    · rw [ha, Function.update_self]
      exact ⟨fun _ => ⟨-1, rfl, by decide⟩, fun _ => Or.inl rfl⟩
    · rw [Function.update_of_ne ha, or_iff_right ha]
  · exact fun a ha => h.client a (List.mem_of_mem_erase ha)

/-- **`remove_connection`**: the client changes lists, or nothing happens when it did before -/
theorem Represents.remove (h : Represents s live retired) {conn : Nat}
    (hc : conn ∈ live ++ retired) :
    ∃ s', removeConnection s conn = some s' ∧
      Represents s' (live.erase conn) (if conn ∈ live then conn :: retired else retired) := by
  by_cases hl : conn ∈ live
  · rw [if_pos hl]
    exact ⟨_, h.removes hl, h.removed hl⟩
  · obtain ⟨fd, hfd, hneg⟩ := (h.retired_iff conn).mp ((List.mem_append.mp hc).resolve_left hl)
    refine ⟨s, ?_, ?_⟩
    · unfold removeConnection
      rw [hfd]
      exact if_pos hneg
    · rw [if_neg hl, List.erase_of_not_mem hl]
      exact h

/-! ## `reap_connections` -/

/-- a turn frees the first of the retired ones -/
theorem Represents.reapStep {conn : Nat} (h : Represents s live (conn :: retired)) :
    Represents { s with retiredClients := s.retiredNext conn, fd := Function.update s.fd conn none }
    live retired := by
  obtain ⟨hconn, hretired⟩ := List.nodup_cons.mp h.retired_nodup
  have hlive : conn ∉ live := fun hl => h.disjoint hl List.mem_cons_self
  refine ⟨h.linked, h.chain.2, h.live_nodup, hretired, fun a => ?_, fun a => ?_, h.client⟩
  · show _ ↔ ∃ fd, Function.update s.fd conn none a = some fd ∧ 0 ≤ fd
    by_cases ha : a = conn
    · rw [ha, Function.update_self]
      refine ⟨fun hl => absurd hl hlive, ?_⟩
      rintro ⟨fd, hfd, -⟩
      cases hfd
    · rw [Function.update_of_ne ha]
      exact h.live_iff a
  · show _ ↔ ∃ fd, Function.update s.fd conn none a = some fd ∧ fd < 0
    by_cases ha : a = conn
    · rw [ha, Function.update_self]
      refine ⟨fun hr => absurd hr hconn, ?_⟩
      rintro ⟨fd, hfd, -⟩
      cases hfd
    · rw [Function.update_of_ne ha, ← h.retired_iff a, List.mem_cons, or_iff_right ha]

/-- **`reap_connections`** comes to an end, however long the list is -/
theorem Represents.reap (h : Represents s live retired) {fuel : Nat}
    (hfuel : retired.length ≤ fuel) :
    ∃ s', reapConnections fuel s = some s' ∧ Represents s' live [] := by
  induction retired generalizing s fuel with
  | nil =>
    have hnone : s.retiredClients = none := h.chain
    refine ⟨s, ?_, h⟩
    cases fuel with
    | zero => rw [reapConnections, if_pos hnone]
    | succ fuel => rw [reapConnections, hnone]
  | cons conn retired ih =>
    cases fuel with
    | zero => cases hfuel
    | succ fuel =>
      obtain ⟨s', hrun, hs'⟩ := ih h.reapStep (Nat.le_of_succ_le_succ hfuel)
      refine ⟨s', ?_, hs'⟩
      obtain ⟨fd, hfd, -⟩ := (h.retired_iff conn).mp List.mem_cons_self
      have hsome : (s.fd conn).isSome = true := by
        rw [hfd]
        rfl
      rw [reapConnections, h.chain.1]
      simp only [hsome, if_true]
      exact hrun

/-- a run that ends reaped the whole list -/
theorem Represents.reaped (h : Represents s live retired) {fuel : Nat} {s' : Server}
    (hrun : reapConnections fuel s = some s') : Represents s' live [] := by
  induction fuel generalizing s retired with
  | zero =>
    rw [reapConnections] at hrun
    split at hrun
    · next hnone =>
      obtain rfl := Option.some.inj hrun
      cases retired with
      | nil => exact h
      | cons conn retired =>
        have hsome := h.chain.1
        rw [hnone] at hsome
        cases hsome
    · cases hrun
  | succ fuel ih =>
    cases retired with
    | nil =>
      have hnone : s.retiredClients = none := h.chain
      rw [reapConnections, hnone] at hrun
      obtain rfl := Option.some.inj hrun
      exact h
    | cons conn retired =>
      rw [reapConnections, h.chain.1] at hrun
      simp only at hrun
      split at hrun
      · exact ih h.reapStep hrun
      · cases hrun

/-! ## runs -/

/-- the invariant of every run -/
theorem Reached.represents (h : Reached s live retired) : Represents s live retired := by
  induction h with
  | start =>
    refine ⟨rfl, rfl, List.nodup_nil, List.nodup_nil, fun a => ?_, fun a => ?_,
      List.forall_mem_nil _⟩
    · exact ⟨fun hl => absurd hl List.not_mem_nil, fun ⟨fd, hfd, _⟩ =>
        absurd hfd (Option.some_ne_none fd).symm⟩
    · exact ⟨fun hl => absurd hl List.not_mem_nil, fun ⟨fd, hfd, _⟩ =>
        absurd hfd (Option.some_ne_none fd).symm⟩
  | accept _ hfree hrun ih =>
    obtain ⟨s', hs', hrep⟩ := ih.accept _ _ _ _ hfree
    rw [hrun] at hs'
    exact Option.some.inj hs' ▸ hrep
  | remove _ hc hrun ih =>
    obtain ⟨s', hs', hrep⟩ := ih.remove hc
    rw [hrun] at hs'
    exact Option.some.inj hs' ▸ hrep
  | reap _ hrun ih => exact ih.reaped hrun

/-- removing the head over and over empties the live list -/
theorem Reached.destroy (h : Reached s live retired) {fuel : Nat} (hfuel : live.length ≤ fuel) :
    ∃ s', destroyClients fuel s = some s' ∧ Reached s' [] (live.reverse ++ retired) ∧
    s'.clients = none := by
  induction live generalizing s retired fuel with
  | nil =>
    have hnone : s.clients = none := h.represents.linked
    refine ⟨s, ?_, h, hnone⟩
    cases fuel with
    | zero => rw [destroyClients, if_pos hnone]
    | succ fuel => rw [destroyClients, hnone]
  | cons conn live ih =>
    cases fuel with
    | zero => cases hfuel
    | succ fuel =>
      have hrep := h.represents
      have hmem : conn ∈ conn :: live := List.mem_cons_self
      have hrun := hrep.removes hmem
      have hstep := h.remove (List.mem_append_left _ hmem) hrun
      rw [List.erase_cons_head, if_pos hmem] at hstep
      obtain ⟨s', hdestroy, hreached, hnone⟩ := ih hstep (Nat.le_of_succ_le_succ hfuel)
      refine ⟨s', ?_, ?_, hnone⟩
      · rw [destroyClients, hrep.linked.1]
        show (removeConnection s conn >>= destroyClients fuel) = some s'
        rw [hrun]
        exact hdestroy
      · rw [List.reverse_cons, List.append_assoc]
        exact hreached

end

/-- **The lists of connections.**  In every state that accepts, removals (also of one connection
again) and reaps lead to, the live list is doubly linked and without repetition, `next` and
`previous` undo each other on it, and it holds exactly the accepted connections with an open
descriptor; the retired list holds exactly the removed ones that are not reaped, each once; no call
touches memory that is not allocated; reaping ends; and so does the loop of `destroy_server`, with
no client left. -/
theorem client_lists {s : Server} {live retired : List Nat} (h : Reached s live retired) :
    (Linked s.next s.previous none s.clients live ∧ live.Nodup ∧
      (∀ a ∈ live, ∀ b ∈ live, s.next a = some b ↔ s.previous b = some a) ∧
      ∀ a, a ∈ live ↔ ∃ fd, s.fd a = some fd ∧ 0 ≤ fd) ∧
    (Chain s.retiredNext s.retiredClients retired ∧ retired.Nodup ∧
      ∀ a, a ∈ retired ↔ ∃ fd, s.fd a = some fd ∧ fd < 0) ∧
    live.Disjoint retired ∧
    (∀ clientFd nonblocking memory added, (∀ conn, memory = some conn → s.fd conn = none) →
      ∃ s', acceptConnection s clientFd nonblocking memory added = some s') ∧
    (∀ conn ∈ live ++ retired, ∃ s', removeConnection s conn = some s') ∧
    (∃ fuel s', reapConnections fuel s = some s') ∧
    ∃ fuel s', destroyClients fuel s = some s' ∧ s'.clients = none ∧
    Reached s' [] (live.reverse ++ retired) := by
  have hrep := h.represents
  refine ⟨⟨hrep.linked, hrep.live_nodup, fun a ha b hb => hrep.linked.inverse ha hb, hrep.live_iff⟩,
    ⟨hrep.chain, hrep.retired_nodup, hrep.retired_iff⟩, hrep.disjoint, ?_, ?_, ?_, ?_⟩
  · intro clientFd nonblocking memory added hfree
    obtain ⟨s', hrun, -⟩ := hrep.accept clientFd nonblocking added memory hfree
    exact ⟨s', hrun⟩
  · intro conn hc
    obtain ⟨s', hrun, -⟩ := hrep.remove hc
    exact ⟨s', hrun⟩
  · obtain ⟨s', hrun, -⟩ := hrep.reap (Nat.le_refl _)
    exact ⟨_, s', hrun⟩
  · obtain ⟨s', hrun, hreached, hnone⟩ := h.destroy (Nat.le_refl _)
    exact ⟨_, s', hrun, hnone, hreached⟩

/-- two clients, the first of which was removed -/
def sampleServer : Server := ((Server.empty.pushed 10 5).pushed 11 6).removed 10

theorem sampleServer_reached : Reached sampleServer [11] [10] := by
  have hfree1 : ∀ conn, some 10 = some conn → Server.empty.fd conn = none := fun _ _ => rfl
  have h1 : Reached (Server.empty.pushed 10 5) [10] [] :=
    Reached.start.accept hfree1 (Reached.start.represents.accepts (by decide) rfl)
  have hfree2 : ∀ conn, some 11 = some conn → (Server.empty.pushed 10 5).fd conn = none := by
    intro conn hconn
    rw [← Option.some.inj hconn]
    rfl
  have h2 : Reached ((Server.empty.pushed 10 5).pushed 11 6) [11, 10] [] :=
    h1.accept hfree2 (h1.represents.accepts (by decide) rfl)
  exact h2.remove (by decide) (h2.represents.removes (by decide))

theorem client_lists_sample :
    Linked sampleServer.next sampleServer.previous none sampleServer.clients [11] ∧
      Chain sampleServer.retiredNext sampleServer.retiredClients [10] :=
  ⟨(client_lists sampleServer_reached).1.1, (client_lists sampleServer_reached).2.1.1⟩

end Http
