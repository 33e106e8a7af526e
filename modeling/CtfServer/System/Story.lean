import CtfServer.System.Executions
import CtfServer.App.Check

/-!
# The log and the requests

What the log says about a request is its trace: its calls, and between them the executions of its
statements.  The readings of the clock of the log are those of all calls and executions.

* `itemsOf`        the part of the log that is about a request;
* `Run.storied`    **it is the trace of the request**, and what was executed but not delivered;
* `readings_items`   the readings of a request come in the order of the log.
-/

set_option linter.unusedVariables false
set_option linter.unusedSimpArgs false

namespace System

open App Store

/-! ## the log of a request -/

/-- an event of a call, or an execution -/
inductive Item where
  | event (e : Event)
  | exec (x : Execution)

/-- the part of the log that is about request `id` -/
def itemsOf (id : Nat) (log : List Entry) : List Item :=
  log.flatMap fun
    | .call i events => if i = id then events.map .event else []
    | .exec x => if x.id = id then [.exec x] else []

/-- an item as the request sees it -/
def Item.shown : Item → Event
  | .event e => e
  | .exec x => .completed x.query x.result

/-- an event of a trace that has its item; a result that came too late was executed as well -/
def visible : Event → Option Event
  | .finished .. => none
  | .discarded q r => some (.completed q r)
  | e => some e

/-- the trace of request `id` -/
def World.traceOf (w : World) (id : Nat) : List Event :=
  match w.clients id with
  | none => []
  | some client => client.state.trace

/-- the log and the traces -/
def Storied (w : World) : Prop :=
  ∀ id, (itemsOf id w.log).map Item.shown =
    (w.traceOf id).filterMap visible ++ (w.undelivered id).map fun e => .completed e.1 e.2

theorem itemsOf_append (id : Nat) (a b : List Entry) :
    itemsOf id (a ++ b) = itemsOf id a ++ itemsOf id b :=
  List.flatMap_append

theorem itemsOf_call (id i : Nat) (events : List Event) :
    itemsOf id [.call i events] = if i = id then events.map .event else [] := by
  simp [itemsOf]

theorem itemsOf_exec (id : Nat) (x : Execution) :
    itemsOf id [.exec x] = if x.id = id then [.exec x] else [] := by
  simp [itemsOf]

theorem map_shown_event (events : List Event) :
    (events.map Item.event).map Item.shown = events := by
  rw [List.map_map]
  exact List.map_id _

theorem visible_own {events : List Event} (h : events.all Event.isOwn = true) :
    events.filterMap visible = events := by
  induction events with
  | nil => rfl
  | cons e l ih =>
    simp only [List.all_cons, Bool.and_eq_true] at h
    cases e <;> first | (cases h.1; done) | exact congrArg _ (ih h.2)

section
variable {lib : AuthLib} {passwords : PasswordLib} {runtime : Runtime} {dateFormat : Int → Bytes}
  {meets : Nat → Env → Prop} {db : Db} {w : World}

theorem traceOf_some {id : Nat} {client : Client} (h : w.clients id = some client) :
    w.traceOf id = client.state.trace := by
  unfold World.traceOf
  rw [h]

theorem traceOf_settle (w : World) (id id' : Nat) (client : Client) (events : List Event) :
    (w.settle id client events).traceOf id' = if id' = id then client.state.trace else
    w.traceOf id' := by
  unfold World.traceOf World.settle
  dsimp only
  by_cases h : id' = id
  · rw [if_pos h, h, Function.update_self]
  · rw [if_neg h, Function.update_of_ne h]

/-! ## the steps -/

/-- a call of request `id` adds its events to both -/
theorem Storied.settle {w1 : World} {id : Nat} {client : Client} {events : List Event}
    (h : Storied w) (hlog : w1.log = w.log) (hclients : w1.clients = w.clients)
    (hother : ∀ id', id' ≠ id → w1.undelivered id' = w.undelivered id')
    (hself : client.state.trace.filterMap visible ++
      ((w1.undelivered id).map fun e => Event.completed e.1 e.2) =
      ((w.traceOf id).filterMap visible ++ (w.undelivered id).map fun e =>
        Event.completed e.1 e.2) ++ events) :
    Storied (w1.settle id client events) := by
  intro id'
  rw [traceOf_settle]
  show (itemsOf id' (w1.log ++ [.call id events])).map Item.shown = _ ++ (w1.undelivered id').map _
  rw [itemsOf_append, itemsOf_call, List.map_append, hlog, h id']
  by_cases hid : id' = id
  · subst hid
    rw [if_pos rfl, if_pos rfl, map_shown_event, hself]
  · rw [if_neg (Ne.symm hid), if_neg hid, hother id' hid, List.map_nil, List.append_nil]
    unfold World.traceOf
    rw [hclients]

theorem Storied.put {w1 : World} {id : Nat} {client : Client} (h : Storied w)
    (hlog : w1.log = w.log) (hclients : w1.clients = w.clients)
    (hother : ∀ id', id' ≠ id → w1.undelivered id' = w.undelivered id')
    (hself : client.state.trace.filterMap visible ++
      ((w1.undelivered id).map fun e => Event.completed e.1 e.2) =
      (w.traceOf id).filterMap visible ++ (w.undelivered id).map fun e => Event.completed e.1 e.2) :
    Storied (w1.put id client) := by
  have hs : Storied (w1.settle id client []) := h.settle hlog hclients hother
    (by rw [List.append_nil]; exact hself)
  intro id'
  have hid' := hs id'
  show (itemsOf id' w1.log).map Item.shown = _
  have hlog' : itemsOf id' (w1.settle id client []).log = itemsOf id' w1.log := by
    show itemsOf id' (w1.log ++ [.call id []]) = _
    rw [itemsOf_append, itemsOf_call, List.map_nil, ite_self, List.append_nil]
  rw [hlog'] at hid'
  exact hid'

/-- a request waits for at most one statement -/
theorem Linked.undelivered_le (h : Linked lib runtime dateFormat meets db w) {id : Nat}
    {client : Client} (hc : w.clients id = some client) : (w.undelivered id).length ≤ 1 := by
  have hsub := (h.client hc).undelivered_pending
  have hlen := hsub.length_le
  rw [List.length_map] at hlen
  rcases (h.client hc).reach.shape with hw | hf
  · obtain ⟨op, hop⟩ := hw.pending
    rw [hop] at hlen
    exact hlen
  · rw [hf.pending] at hlen
    exact Nat.le_succ_of_le hlen

/-- a request that waits for a job has no statement under way -/
theorem Linked.undelivered_job (h : Linked lib runtime dateFormat meets db w) {id : Nat}
    {client : Client}
    (hc : w.clients id = some client) {job : PasswordJob}
    (hj : .password job ∈ client.state.pending) :
    w.undelivered id = [] := by
  have hsub := (h.client hc).undelivered_pending
  rcases (h.client hc).reach.shape with hw | hf
  · obtain ⟨op, hop⟩ := hw.pending
    rw [hop] at hsub hj
    cases List.mem_singleton.1 hj
    cases hu : w.undelivered id with
    | nil => rfl
    | cons e l =>
      rw [hu] at hsub
      cases List.mem_singleton.1 (hsub.subset List.mem_cons_self)
  · rw [hf.pending] at hj
    cases hj

theorem undelivered_done {t : DoneTask} {rest : List DoneTask} (ht : w.done = t :: rest) :
    w.undelivered t.data = (t.query, t.result) ::
    ({ w with done := rest } : World).undelivered t.data := by
  simp only [World.undelivered, ht, List.filter_cons, beq_self_eq_true, if_true, List.map_cons]

theorem undelivered_done_ne {t : DoneTask} {rest : List DoneTask}
    (ht : w.done = t :: rest) {id : Nat}
    (hid : id ≠ t.data) : ({ w with done := rest } : World).undelivered id = w.undelivered id := by
  have hb : (t.data == id) = false := beq_eq_false_iff_ne.2 hid.symm
  simp [World.undelivered, ht, List.filter_cons, hb]

theorem Storied.step {w' : World} (h : Storied w) (hl : Linked lib runtime dateFormat meets db w)
    (hs : Step lib passwords runtime dateFormat meets w w') : Storied w' := by
  cases hs with
  | @accept id request env hmeets hid hadm =>
    have hat := hl.at_ id
    unfold LinkedAt at hat
    rw [hid] at hat
    have hun : w.undelivered id = [] := by
      have hops := hat.1
      simp only [World.opsFor, List.append_eq_nil_iff, List.map_eq_nil_iff] at hops
      simp only [World.undelivered, hops.1.1.1.2, List.map_nil]
    have htrace : w.traceOf id = [] := by
      unfold World.traceOf
      rw [hid]
    refine h.settle rfl rfl (fun _ _ => rfl) ?_
    rw [hun, htrace]
    show (dispatch lib runtime env request).events.filterMap visible ++ [] = [] ++ [] ++ _
    rw [visible_own (dispatch_own lib runtime env request), List.append_nil]
    rfl
  | @work front rest task r db' now ht hx =>
    intro id
    show (itemsOf id (w.log ++ [.exec _])).map Item.shown = (w.traceOf id).filterMap visible ++ _
    rw [itemsOf_append, itemsOf_exec, List.map_append, h id, List.append_assoc]
    simp only [World.undelivered, List.filter_append, List.map_append, List.filter_cons,
      List.filter_nil]
    congr 2
    by_cases hid : task.data = id
    · simp [hid, Item.shown]
    · simp [hid]
  | @deliver t rest client env hmeets ht hc hconn hadm =>
    have hone := hl.undelivered_le hc
    rw [undelivered_done ht, List.length_cons] at hone
    have hnil : ({ w with done := rest } : World).undelivered t.data = [] :=
      List.length_eq_zero_iff.1 (by omega)
    refine h.settle rfl rfl (fun id hid => undelivered_done_ne ht hid) ?_
    rw [undelivered_done ht, hnil, traceOf_some hc]
    simp only [ReqState.resume, List.filterMap_append, visible_own (runStages_own ..), List.map_nil,
      List.append_nil,
      List.map_cons]
    rfl
  | @drop t rest client ht hc hconn =>
    refine h.put rfl rfl (fun id hid => undelivered_done_ne ht hid) ?_
    rw [undelivered_done ht, traceOf_some hc]
    simp only [ReqState.discard, List.filterMap_append, List.map_cons, List.append_assoc]
    rfl
  | @hangup id client hc =>
    refine h.put rfl rfl (fun _ _ => rfl) ?_
    rw [traceOf_some hc]
  | take hs hr hp => exact h
  | finish hr hx => exact h
  | stop => exact h
  | @deliverJob j rest client env hmeets hj hc hconn hcancel hadm =>
    have hmem : .password j.job ∈ client.state.pending :=
      ((hl.client hc).delivered (opsFor_doneJobs hj)).1
    have hnil := hl.undelivered_job hc hmem
    refine h.settle rfl rfl (fun _ _ => rfl) ?_
    show _ ++ (w.undelivered j.data).map _ = _
    have hfinished : [Event.finished j.job j.result].filterMap visible = [] := rfl
    rw [hnil, traceOf_some hc]
    simp only [ReqState.resume, List.filterMap_append, visible_own (runStages_own ..), hfinished,
      List.map_nil,
      List.append_nil]
  | @cancelJob j rest client hj hc hconn hcancel =>
    have hmem : .password j.job ∈ client.state.pending :=
      ((hl.client hc).delivered (opsFor_doneJobs hj)).1
    have hnil := hl.undelivered_job hc hmem
    refine h.settle rfl rfl (fun _ _ => rfl) ?_
    show _ ++ (w.undelivered j.data).map _ = _
    rw [hnil, traceOf_some hc]
    simp only [ReqState.cancel, List.filterMap_append, List.map_nil, List.append_nil]
    rfl
  | @dropJob j rest client hj hc hconn =>
    refine h.put rfl rfl (fun _ _ => rfl) ?_
    show _ ++ (w.undelivered j.data).map _ = _
    rw [traceOf_some hc]
    simp only [ReqState.discard, List.append_nil]

/-- **what the log says about a request is its trace** -/
theorem Run.storied (h : Run lib passwords runtime dateFormat meets db w) : Storied w := by
  induction h with
  | start => exact fun id => rfl
  | step hrun hs ih => exact ih.step hrun.linked hs

/-! ## the calls of the log -/

/-- what holds of the events of every call holds of every call of the log -/
theorem Run.calls {P : List Event → Prop}
    (hdispatch : ∀ env request, P (dispatch lib runtime env request).events)
    (hstages : ∀ env input ctx chain, P (runStages lib runtime env input ctx chain).events)
    (hcancel : P [.respond cancelledResponse])
    (h : Run lib passwords runtime dateFormat meets db w) :
    ∀ id events, .call id events ∈ w.log → P events := by
  induction h with
  | start => exact fun id events h => by cases h
  | @step w w' _ hs ih =>
    have hsnoc : ∀ {id : Nat} {new : List Event}, P new → ∀ id' events,
        .call id' events ∈ w.log ++ [.call id new] → P events := by
      intro id new hnew id' events hmem
      rcases List.mem_append.1 hmem with hmem | hmem
      · exact ih id' events hmem
      · cases List.mem_singleton.1 hmem
        exact hnew
    cases hs with
    | accept request env => exact hsnoc (hdispatch env request)
    | work now ht hx =>
      intro id events hmem
      rcases List.mem_append.1 hmem with hmem | hmem
      · exact ih id events hmem
      · cases List.mem_singleton.1 hmem
    | deliver env => exact hsnoc (hstages env _ _ _)
    | drop | hangup | take | finish | stop => exact ih
    | deliverJob env => exact hsnoc (hstages env _ _ _)
    | cancelJob => exact hsnoc hcancel
    | dropJob => exact ih

theorem Run.calls_own (h : Run lib passwords runtime dateFormat meets db w) :
    ∀ id events, .call id events ∈ w.log → events.all Event.isOwn = true :=
  h.calls (P := fun events => events.all Event.isOwn = true)
    (fun env request => dispatch_own lib runtime env request)
    (fun env input ctx chain => runStages_own lib runtime env input ctx chain) rfl

theorem event_mem_items {id : Nat} {e : Event} {log : List Entry} :
    .event e ∈ itemsOf id log ↔ ∃ events, .call id events ∈ log ∧ e ∈ events := by
  simp only [itemsOf, List.mem_flatMap]
  constructor
  · rintro ⟨entry, hentry, he⟩
    cases entry with
    | call i events =>
      dsimp only at he
      split at he
      · next hi =>
        obtain ⟨e', he', heq⟩ := List.mem_map.1 he
        cases heq
        exact ⟨events, hi ▸ hentry, he'⟩
      · cases he
    | exec x =>
      dsimp only at he
      split at he
      · cases List.mem_singleton.1 he
      · cases he
  · rintro ⟨events, hentry, he⟩
    refine ⟨_, hentry, ?_⟩
    dsimp only
    rw [if_pos rfl]
    exact List.mem_map_of_mem he

/-- the executions among the items -/
def Item.exec? : Item → Option Execution
  | .event _ => none
  | .exec x => some x

theorem execsFor_items (w : World) (id : Nat) :
    w.execsFor id = (itemsOf id w.log).filterMap Item.exec? := by
  unfold World.execsFor
  induction w.log with
  | nil => rfl
  | cons entry log ih =>
    have hevents : ∀ events : List Event, (events.map Item.event).filterMap Item.exec? = [] := by
      intro events
      rw [List.filterMap_map]
      exact List.filterMap_eq_nil_iff.2 fun _ _ => rfl
    rw [show entry :: log = [entry] ++ log from rfl, executions_append, itemsOf_append,
      List.filter_append,
      List.filterMap_append, ih]
    congr 1
    cases entry with
    | call i events =>
      rw [itemsOf_call]
      split
      · rw [hevents]
        rfl
      · rfl
    | exec x =>
      rw [itemsOf_exec]
      by_cases hx : x.id = id
      · rw [if_pos hx]
        simp [executions, hx, Item.exec?]
      · rw [if_neg hx]
        simp [executions, hx]

/-- an own event of a trace was logged -/
theorem Storied.logged (h : Storied w) {id : Nat} {client : Client} {e : Event}
    (hc : w.clients id = some client)
    (he : e ∈ client.state.trace) (hown : e.isOwn = true) :
    ∃ events, .call id events ∈ w.log ∧ e ∈ events := by
  have hid := h id
  rw [traceOf_some hc] at hid
  have hvis : visible e = some e := by
    cases e <;> first | rfl | cases hown
  have hmem : e ∈ (itemsOf id w.log).map Item.shown := by
    rw [hid, List.mem_append]
    exact .inl (List.mem_filterMap.2 ⟨e, he, hvis⟩)
  obtain ⟨i, hi, hshown⟩ := List.mem_map.1 hmem
  cases i with
  | event e' =>
    cases hshown
    exact event_mem_items.1 hi
  | exec x =>
    rw [← hshown] at hown
    cases hown

/-- a logged event is one of the trace -/
theorem Storied.traced (h : Storied w) {id : Nat} {events : List Event} {e : Event}
    (hm : .call id events ∈ w.log)
    (he : e ∈ events) (hown : e.isOwn = true) : ∃ client, w.clients id = some client ∧
    e ∈ client.state.trace := by
  have hid := h id
  have hmem : e ∈ (itemsOf id w.log).map Item.shown :=
    List.mem_map.2 ⟨.event e, event_mem_items.2 ⟨events, hm, he⟩, rfl⟩
  rw [hid, List.mem_append] at hmem
  rcases hmem with hmem | hmem
  · obtain ⟨e', he', hvis⟩ := List.mem_filterMap.1 hmem
    have heq : e' = e := by
      cases e' <;> cases hvis <;> first | rfl | cases hown
    rw [heq] at he'
    unfold World.traceOf at he'
    cases hc : w.clients id with
    | none =>
      rw [hc] at he'
      cases he'
    | some client =>
      rw [hc] at he'
      exact ⟨client, rfl, he'⟩
  · obtain ⟨q, -, heq⟩ := List.mem_map.1 hmem
    rw [← heq] at hown
    cases hown

/-! ## readings -/

/-- the readings of the clock, by the server and by the database, in the order of the log -/
def readings (log : List Entry) : List Int :=
  log.flatMap fun
    | .call _ events => clocksOf events
    | .exec x => [x.now]

def Item.readings : Item → List Int
  | .event e => clocksOf [e]
  | .exec x => [x.now]

theorem readings_append (a b : List Entry) : readings (a ++ b) = readings a ++ readings b :=
  List.flatMap_append

theorem readings_events (events : List Event) :
    (events.map Item.event).flatMap Item.readings = clocksOf events := by
  induction events with
  | nil => rfl
  | cons e l ih =>
    rw [List.map_cons, List.flatMap_cons, ih]
    exact (clocksOf_append [e] l).symm

/-- the readings of a request are in the order of the log -/
theorem readings_items (id : Nat) (log : List Entry) :
    ((itemsOf id log).flatMap Item.readings).Sublist (readings log) := by
  induction log with
  | nil => exact .refl _
  | cons entry log ih =>
    rw [show entry :: log = [entry] ++ log from rfl, itemsOf_append, readings_append,
      List.flatMap_append]
    refine List.Sublist.append ?_ ih
    cases entry with
    | call i events =>
      rw [itemsOf_call]
      split
      · rw [readings_events]
        simp [readings]
      · exact List.nil_sublist _
    | exec x =>
      rw [itemsOf_exec]
      split
      · exact .refl _
      · exact List.nil_sublist _

end

end System
