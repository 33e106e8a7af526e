import Mathlib.Data.List.Perm.Subperm
import CtfServer.System.Link
import CtfServer.Store.Evolution

/-!
# The executions of a request

* `Linked.requested`    what is executed for a request was enqueued by it;
* `Linked.statements`   the executions of a request are the completed statements of a waiting
                        state of its chain, and at most the statement it waits for;
* `Linked.answered`     once it is answered they are the completed statements of its trace;
* `Linked.keyed`, `Linked.evolves`   the tables before, after and between executions.
-/

set_option linter.unusedVariables false
set_option linter.unusedSimpArgs false

namespace System

open App Store

/-- request `id` was answered `r` -/
structure World.Answered (w : World) (id : Nat) (client : Client) (r : Response) : Prop where
  found : w.clients id = some client
  response : .respond r ∈ client.state.trace

section
variable {lib : AuthLib} {runtime : Runtime} {request : Request} {meets : Env → Prop}

/-! ## the operations of a trace -/

/-- what is outstanding or completed was started -/
theorem Reach.started {s : ReqState} (h : Reach lib runtime meets request s) :
    (∀ op ∈ s.pending, op ∈ opsOf s.trace) ∧ ∀ e ∈ executed s.trace, .db e.1 ∈ opsOf s.trace := by
  induction h with
  | start env hmeets =>
    refine ⟨fun op hop => hop, fun e he => ?_⟩
    simp only [ReqState.start, executed_own (dispatch_own lib runtime env request),
      List.not_mem_nil] at he
  | @resume s op input done env hmeets _ hop hc ih =>
    rw [executed_resume _ _ (runStages_own ..)]
    simp only [ReqState.resume, opsOf_append, List.mem_append]
    refine ⟨fun o ho => ?_, fun e he => ?_⟩
    · rcases ho with ho | ho
      · exact .inl (.inl (ih.1 o (List.mem_of_mem_erase ho)))
      · exact .inr ho
    · rcases he with he | he
      · exact .inl (.inl (ih.2 e he))
      · refine .inl (.inl ?_)
        cases hc with
        | task query result =>
          cases List.mem_singleton.1 he
          exact ih.1 _ hop
        | job job result => cases he
  | @discard s op done _ hop hc ih =>
    simp only [ReqState.discard, executed_append, opsOf_append, List.mem_append]
    refine ⟨fun o ho => .inl (ih.1 o (List.mem_of_mem_erase ho)), fun e he => .inl ?_⟩
    rcases he with he | he
    · exact ih.2 e he
    · cases hc with
      | task query result =>
        cases List.mem_singleton.1 he
        exact ih.1 _ hop
      | job job => cases he
  | @cancel s job _ hop ih =>
    simp only [ReqState.cancel, executed_append, opsOf_append, List.mem_append]
    refine ⟨fun o ho => .inl (ih.1 o (List.mem_of_mem_erase ho)), fun e he => .inl ?_⟩
    rcases he with he | he
    · exact ih.2 e he
    · cases he

/-- the statements of a trace are those of a waiting state, and at most the one it waits for -/
theorem Reach.waited {s : ReqState} (h : Reach lib runtime meets request s) :
    (opsOf s.trace = [] ∧ s.pending = [] ∧ executed s.trace = []) ∨
      ∃ s0 op, Waiting lib runtime request request.chain s0 ∧ s0.pending = [op] ∧
      s0.trace <+: s.trace ∧
        opsOf s.trace = opsOf s0.trace ∧
        ((s.pending = [op] ∧ executed s.trace = executed s0.trace) ∨
          (s.pending = [] ∧ ∃ es, executed s.trace = executed s0.trace ++ es ∧ es.length ≤ 1 ∧
            ∀ e ∈ es, op = .db e.1)) := by
  rcases h.shape with hw | hf
  · obtain ⟨op, hop⟩ := hw.pending
    exact .inr ⟨s, op, hw, hop, List.prefix_refl _, rfl, .inl ⟨hop, rfl⟩⟩
  cases hf with
  | @atOnce env response hmeets hd =>
    exact .inl ⟨hd.ops, hd.ops, executed_own (dispatch_own lib runtime env request)⟩
  | @last s op input done env response hmeets hw hp hc hd =>
    refine .inr ⟨s, op, hw, hp, ⟨done ++ _, (List.append_assoc ..).symm⟩, ?_,
      .inr ⟨?_, executed done, ?_, ?_, ?_⟩⟩
    · simp only [ReqState.resume, opsOf_append, hd.ops, List.append_nil]
      cases hc <;> simp [opsOf, Event.op]
    · simp [ReqState.resume, hp, hd.ops]
    · rw [executed_resume _ _ (runStages_own ..)]
    · cases hc <;> simp [executed]
    · cases hc <;> simp [executed]
  | @discard s op done hw hp hc =>
    refine .inr ⟨s, op, hw, hp, List.prefix_append _ _, ?_, .inr ⟨?_, executed done, ?_, ?_, ?_⟩⟩
    · simp only [ReqState.discard, opsOf_append]
      cases hc <;> simp [opsOf, Event.op]
    · simp [ReqState.discard, hp]
    · simp only [ReqState.discard, executed_append]
    · cases hc <;> simp [executed]
    · cases hc <;> simp [executed]
  | @cancel s job hw hp =>
    refine .inr ⟨s, _, hw, hp, List.prefix_append _ _, ?_, .inr ⟨?_, [], ?_, by simp, by simp⟩⟩
    · simp [ReqState.cancel, opsOf_append, opsOf, Event.op]
    · simp [ReqState.cancel, hp]
    · simp [ReqState.cancel, executed_append, executed]

end

section
variable {lib : AuthLib} {passwords : PasswordLib} {runtime : Runtime} {dateFormat : Int → Bytes}
  {meets : Nat → Env → Prop} {db : Db} {w : World}

/-! ## the executions of a request -/

theorem execsFor_sublist (w : World) (id : Nat) : (w.execsFor id).Sublist (executions w.log) :=
  List.filter_sublist

theorem mem_execsFor {w : World} {x : Execution} (hx : x ∈ executions w.log) :
    x ∈ w.execsFor x.id :=
  List.mem_filter.2 ⟨hx, beq_self_eq_true _⟩

theorem mem_of_execsFor {w : World} {id : Nat} {x : Execution} (hx : x ∈ w.execsFor id) :
    x ∈ executions w.log ∧ x.id = id := by
  obtain ⟨h, hid⟩ := List.mem_filter.1 hx
  exact ⟨h, beq_iff_eq.1 hid⟩

/-- a statement that is executed but not delivered is one that the request waits for -/
theorem LinkedTo.undelivered_pending {id : Nat} {client : Client} {execs : List Execution}
    {un : List (Query × DbResult)}
    (h : LinkedTo lib runtime (meets id) client (w.opsFor id) execs un) :
    ((w.undelivered id).map fun e => Op.db e.1).Subperm client.state.pending := by
  refine List.Subperm.trans ?_ h.ops.subperm
  simp only [World.undelivered, World.opsFor, List.map_map]
  refine List.Sublist.subperm ?_
  refine List.Sublist.trans ?_ (List.sublist_append_left _ _)
  refine List.Sublist.trans ?_ (List.sublist_append_left _ _)
  refine List.Sublist.trans ?_ (List.sublist_append_left _ _)
  exact List.sublist_append_right _ _

/-- **the executions of a request are the completed statements of a waiting state of its chain,
and at most the one it waits for** -/
theorem Linked.statements {id : Nat} {client : Client}
    (h : Linked lib runtime dateFormat meets db w) (hc : w.clients id = some client) :
    (opsOf client.state.trace = [] ∧ w.execsFor id = []) ∨
      ∃ s op, Waiting lib runtime client.request client.request.chain s ∧ s.pending = [op] ∧
        s.trace <+: client.state.trace ∧ opsOf client.state.trace = opsOf s.trace ∧
        ∃ es, (w.execsFor id).map Execution.effect = executed s.trace ++ es ∧ es.length ≤ 1 ∧
          ∀ e ∈ es, op = .db e.1 := by
  have hl := h.client hc
  have hun := hl.undelivered_pending
  rcases Reach.waited hl.reach with ⟨hops, hpend, hex⟩ | ⟨s, op, hw, hp, htr, hops, hcase⟩
  · refine .inl ⟨hops, ?_⟩
    rw [hpend, List.subperm_nil, List.map_eq_nil_iff] at hun
    have := hl.execs
    rw [hex, hun] at this
    exact List.map_eq_nil_iff.1 this
  · refine .inr ⟨s, op, hw, hp, htr, hops, ?_⟩
    rcases hcase with ⟨hpend, hex⟩ | ⟨hpend, es, hex, hlen, hes⟩
    · rw [hpend] at hun
      refine ⟨w.undelivered id, by rw [hl.execs, hex], ?_, fun e he => ?_⟩
      · simpa using hun.length_le
      · exact (List.mem_singleton.1 (hun.subset (List.mem_map_of_mem he))).symm
    · rw [hpend, List.subperm_nil, List.map_eq_nil_iff] at hun
      exact ⟨es, by rw [hl.execs, hex, hun, List.append_nil], hlen, hes⟩

/-- **the executions of an answered request are the completed statements of its trace** -/
theorem Linked.answered {id : Nat} {client : Client} {r : Response}
    (h : Linked lib runtime dateFormat meets db w)
    (hc : w.clients id = some client) (hr : .respond r ∈ client.state.trace) :
    (w.execsFor id).map Execution.effect = executed client.state.trace := by
  have hl := h.client hc
  have hun := hl.undelivered_pending
  rcases hl.reach.shape with hw | hf
  · exact absurd hr (hw.noRespond r)
  · rw [hf.pending, List.subperm_nil, List.map_eq_nil_iff] at hun
    rw [hl.execs, hun, List.append_nil]

/-- **what is executed was enqueued by its request** -/
theorem Linked.requested {x : Execution} (h : Linked lib runtime dateFormat meets db w)
    (hx : x ∈ executions w.log) :
    ∃ client, w.clients x.id = some client ∧ .query x.query ∈ client.state.trace := by
  have hat := h.at_ x.id
  unfold LinkedAt at hat
  cases hc : w.clients x.id with
  | none =>
    rw [hc] at hat
    have := mem_execsFor hx
    rw [hat.2] at this
    cases this
  | some client =>
    rw [hc] at hat
    refine ⟨client, rfl, ?_⟩
    have hmem : .db x.query ∈ opsOf client.state.trace := by
      have he : x.effect ∈ (w.execsFor x.id).map Execution.effect :=
        List.mem_map_of_mem (mem_execsFor hx)
      rw [hat.execs, List.mem_append] at he
      have hst := Reach.started hat.reach
      rcases he with he | he
      · exact hst.2 _ he
      · exact hst.1 _ (hat.undelivered_pending.subset
          (List.mem_map_of_mem (f := fun e => Op.db e.1) he))
    obtain ⟨e, he, hop⟩ := List.mem_filterMap.1 hmem
    cases e <;> cases hop
    exact he

/-- **a guarded write is for the verified user of its request** -/
theorem Linked.verified {x : Execution} (h : Linked lib runtime dateFormat meets db w)
    (hx : x ∈ executions w.log) (hg : x.query.isGuardedWrite = true) :
    ∃ client claims, w.clients x.id = some client ∧ .verified claims ∈ client.state.trace ∧
      ∀ u ∈ x.query.users, u = claims.userId := by
  obtain ⟨client, hc, hq⟩ := h.requested hx
  have hp : client.request.protects (.query x.query) = true := by simp [Request.protects, hg]
  cases (h.client hc).reach.gated with
  | closed hno => rw [hno _ hq] at hp; cases hp
  | opened g rest ht hu =>
    refine ⟨client, g.claims, hc, by rw [ht]; simp [Passed.trace], ?_⟩
    rw [ht] at hq
    exact (onlyUser_append ..).2 ⟨g.onlyUser _, hu⟩ _ hq

/-! ## the tables -/

theorem Execution.effect_eq {x : Execution} {q : Query} {r : DbResult} :
    x.effect = (q, r) ↔ x.query = q ∧ x.result = r := by
  simp only [Execution.effect, Prod.mk.injEq]

theorem Linked.exec {x : Execution} {id : Nat} {q : Query} {r : DbResult}
    (h : Linked lib runtime dateFormat meets db w) (hx : x ∈ w.execsFor id)
    (he : x.effect = (q, r)) :
    Exec dateFormat x.now q x.before r x.after := by
  obtain ⟨rfl, rfl⟩ := Execution.effect_eq.1 he
  exact h.sound x (mem_of_execsFor hx).1

theorem Linked.keyed (h : Linked lib runtime dateFormat meets db w) (hk : Keyed db) {x : Execution}
    (hx : x ∈ executions w.log) : Keyed x.before ∧ Keyed x.after := by
  have hb : Keyed x.before :=
    h.chained.upto (R := fun s t => Keyed s → Keyed t) (fun _ => id) (fun _ _ _ f g => g ∘ f)
      (fun e he => (h.sound e he).keyed) hx hk
  exact ⟨hb, (h.sound x hx).keyed hb⟩

/-- from one execution to a later one -/
theorem Linked.evolves (h : Linked lib runtime dateFormat meets db w) {x y : Execution}
    (hxy : List.Sublist [x, y] (executions w.log)) : Evolves x.after y.before :=
  h.chained.between Evolves.refl (fun _ _ _ => Evolves.trans)
    (fun e he => (h.sound e he).evolves) hxy

end

end System
