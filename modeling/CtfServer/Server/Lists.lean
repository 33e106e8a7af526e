import CtfServer.Http.Connections
import CtfServer.Server.Loop

/-!
# The lists of the loop, and the pointers behind them

The loop keeps its connections in two lists; `Http.Server` has the pointers of `connection_t`.

* `Call`               one call of the functions with pointers;
* `Pointers l srv`     the server has the lists of the loop, and the same connections;
* `Change.follow`      a change of the two lists is a call;
* `lists_refined`      **every step of the loop is followed by calls that keep the two together**.
-/

set_option linter.unusedVariables false

namespace Server

/-- a call of `listen_handler`, `remove_connection` or `reap_connections` -/
inductive Call (srv srv' : Http.Server) : Prop where
  | accept {clientFd : Int} {nonblocking added : Bool} {memory : Option Nat} :
      (∀ conn, memory = some conn → srv.fd conn = none) →
      Http.acceptConnection srv clientFd nonblocking memory added = some srv' → Call srv srv'
  | remove {conn : Nat} : Http.removeConnection srv conn = some srv' → Call srv srv'
  | reap {fuel : Nat} : Http.reapConnections fuel srv = some srv' → Call srv srv'

/-- the server has the lists of the loop, with the same connections open, closed and released -/
structure Pointers (l : Loop) (srv : Http.Server) : Prop where
  lists : Http.Reached srv l.state.clients l.state.retired
  opened : ∀ k, (∃ fd, srv.fd k = some fd ∧ 0 ≤ fd) ↔ ∃ c, l.state.conns.get k = some c ∧
    c.isOpen = true
  released : ∀ k, srv.fd k = none ↔ l.state.conns.get k = none

/-- a change of the lists, as a call of the functions with pointers -/
theorem Change.follow {lists lists' : List Nat × List Nat} {srv : Http.Server}
    (hchange : Change lists lists')
    (h : Http.Reached srv lists.1 lists.2) :
    ∃ srv', Call srv srv' ∧ Http.Reached srv' lists'.1 lists'.2 := by
  have hrep := h.represents
  cases hchange with
  | @accept clients retired conn hclients hretired =>
    -- neither open nor closed: `calloc` may give this memory
    have hfree : srv.fd conn = none := by
      cases hfd : srv.fd conn with
      | none => rfl
      | some fd =>
        by_cases hpos : 0 ≤ fd
        · exact absurd ((hrep.live_iff conn).mpr ⟨fd, hfd, hpos⟩) hclients
        · exact absurd ((hrep.retired_iff conn).mpr ⟨fd, hfd, by omega⟩) hretired
    have hmemory : ∀ a, some conn = some a → srv.fd a = none := by
      intro a ha
      cases ha
      exact hfree
    obtain ⟨srv', hrun, -⟩ := hrep.accept 0 true true (some conn) hmemory
    exact ⟨srv', .accept hmemory hrun, h.accept hmemory hrun⟩
  | @remove clients retired conn hmem =>
    have hc := List.mem_append_left retired hmem
    obtain ⟨srv', hrun, -⟩ := hrep.remove hc
    have hstep := h.remove hc hrun
    rw [if_pos hmem] at hstep
    exact ⟨srv', .remove hrun, hstep⟩
  | @reap clients retired =>
    obtain ⟨srv', hrun, -⟩ := hrep.reap (Nat.le_refl _)
    exact ⟨srv', .reap hrun, h.reap hrun⟩

theorem follow {lists lists' : List Nat × List Nat} {srv : Http.Server}
    (h : Http.Reached srv lists.1 lists.2) (hchanges : Relation.ReflTransGen Change lists lists') :
    ∃ srv', Relation.ReflTransGen Call srv srv' ∧ Http.Reached srv' lists'.1 lists'.2 := by
  induction hchanges with
  | refl => exact ⟨srv, .refl, h⟩
  | tail hrest hchange ih =>
    obtain ⟨srv1, hcalls, h1⟩ := ih
    obtain ⟨srv2, hcall, h2⟩ := hchange.follow h1
    exact ⟨srv2, hcalls.tail hcall, h2⟩

/-- equal lists are enough: they tell which connections are open, closed and released -/
theorem Pointers.of_lists {l : Loop} {srv : Http.Server} (h : Reached l)
    (hsrv : Http.Reached srv l.state.clients l.state.retired) : Pointers l srv := by
  have hrep := hsrv.represents
  have hlists := h.inv.safe.lists
  refine ⟨hsrv, fun k => (hrep.live_iff k).symm.trans (hlists.open_iff k), fun k => ?_⟩
  constructor
  · intro hnone
    cases hk : l.state.conns.get k with
    | none => rfl
    | some c =>
      cases ho : c.isOpen with
      | true =>
        obtain ⟨fd, hfd, -⟩ := (hrep.live_iff k).mp ((hlists.open_iff k).mpr ⟨c, hk, ho⟩)
        rw [hnone] at hfd
        cases hfd
      | false =>
        obtain ⟨fd, hfd, -⟩ := (hrep.retired_iff k).mp ((hlists.closed_iff k).mpr ⟨c, hk, ho⟩)
        rw [hnone] at hfd
        cases hfd
  · intro hnone
    cases hfd : srv.fd k with
    | none => rfl
    | some fd =>
      by_cases hpos : 0 ≤ fd
      · obtain ⟨c, hc, -⟩ := (hlists.open_iff k).mp ((hrep.live_iff k).mpr ⟨fd, hfd, hpos⟩)
        rw [hnone] at hc
        cases hc
      · obtain ⟨c, hc, -⟩ := (hlists.closed_iff k).mp ((hrep.retired_iff k).mpr ⟨fd, hfd, by omega⟩)
        rw [hnone] at hc
        cases hc

/-- a step of the loop is followed by calls -/
theorem Pointers.step {l l' : Loop} {m : Move} {srv : Http.Server} (h : Reached l)
    (hsrv : Pointers l srv)
    (hp : Possible l m) (hs : step l m = some l') : ∃ srv', Relation.ReflTransGen Call srv srv' ∧
    Pointers l' srv' := by
  obtain ⟨l1, hstep, -, -, hchanges⟩ := h.inv.step hp
  rw [hs] at hstep
  cases hstep
  have hlists : Http.Reached srv l.state.lists.1 l.state.lists.2 := hsrv.lists
  obtain ⟨srv', hcalls, hsrv'⟩ := follow hlists hchanges
  exact ⟨srv', hcalls, .of_lists (h.step hp hs) hsrv'⟩

end Server
