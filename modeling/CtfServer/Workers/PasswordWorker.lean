import Mathlib.Data.List.Perm.Subperm
import CtfServer.Lib.LinkedQueue
import CtfServer.System.Serve

/-!
# The password worker

password_worker.c: jobs are submitted, the worker thread computes them one by one, and they are
popped when they are done; `password_worker_stop` cancels those that have not begun.  A step is
one critical section, or what one of the threads does between two of them.

* `PasswordWorker`   the memory, the queues and the counter, and what was accepted and popped;
* `PasswordWorker.passwordWorkerSubmit`, `.stopSection`, `.passwordWorkerPop`   the calls;
* `PasswordWorker.Step`, `PasswordWorker.Run`   the interleavings;
* `PasswordWorker.Run.inv`   the invariant of the queues;
* `password_worker_protocol`   **what is submitted comes back once, computed or cancelled**.
-/

set_option linter.unusedVariables false
set_option linter.unusedSimpArgs false

namespace Workers

open App (PasswordOperation PasswordJob PasswordResult PasswordLib PWHASH_STRBYTES)
open System (JobResult PASSWORD_QUEUE_CAPACITY runJob runJob_result samplePasswords sampleHash)
open LinkedQueue

/-! ## strings of the caller -/

/-- `string_t`: the allocated bytes and the length of the text in them -/
structure StringT where
  ptr : Option Bytes
  len : Nat
  fits : ∀ buffer ∈ ptr, len ≤ buffer.length

def StringT.null : StringT := ⟨none, 0, nofun⟩

/-- `consume_password`: what is left of the string, and the buffers as they were freed -/
def consumePassword : Option StringT → Option StringT × List Bytes
  | none => (none, [])
  | some string =>
    match string.ptr with
    | none => (some .null, [])
    | some buffer => (some .null, [List.replicate string.len 0 ++ buffer.drop string.len])

/-- a C string, up to its null byte -/
def cString (value : Bytes) : Bytes := value.takeWhile (· != 0)

/-! ## jobs -/

/-- `sizeof` of the password of a job -/
def sizeofPassword : Nat := 129

/-- `password_job_t` without its link -/
structure JobMemory where
  operation : PasswordOperation
  result : PasswordResult
  data : Nat
  password : Bytes
  passwordLength : Nat
  storedHash : Bytes
  unknownUser : Bool

/-- the password and the hash of a job are zero -/
def JobMemory.Cleared (j : JobMemory) : Prop :=
  j.password = List.replicate sizeofPassword 0 ∧ j.passwordLength = 0 ∧ j.storedHash =
    List.replicate PWHASH_STRBYTES 0

/-- `clear_input` -/
def JobMemory.clearInput (j : JobMemory) : JobMemory :=
  { j with
    password := List.replicate sizeofPassword 0
    passwordLength := 0
    storedHash := List.replicate PWHASH_STRBYTES 0 }

/-- the job after `clear_input`, with another result -/
def JobMemory.settle (j : JobMemory) (result : PasswordResult → PasswordResult) : JobMemory :=
  { j.clearInput with result := result j.result }

/-- what the worker reads of a job -/
def JobMemory.input (j : JobMemory) : PasswordJob :=
  ⟨j.operation, j.password.take j.passwordLength, cString j.storedHash, j.unknownUser⟩

/-- a submission that was accepted, as the caller made it -/
structure Submitted where
  number : Nat
  operation : PasswordOperation
  password : Bytes
  storedHash : Option Bytes
  data : Nat
  deriving DecidableEq, Repr

/-- the job of a submission -/
def Submitted.job (dummyHash : Bytes) (sub : Submitted) : PasswordJob :=
  match sub.operation with
  | .hash => { operation := .hash, password := sub.password }
  | .verify =>
    ⟨.verify, sub.password, cString (sub.storedHash.getD dummyHash), sub.storedHash.isNone⟩

/-- the result of a job that did not run -/
def unfinished : PasswordResult := { failure := some .error }

/-- the memory of a new job -/
def Submitted.memory (dummyHash : Bytes) (sub : Submitted) : JobMemory where
  operation := sub.operation
  result := unfinished
  data := sub.data
  password := sub.password ++ List.replicate (sizeofPassword - sub.password.length) 0
  passwordLength := sub.password.length
  storedHash :=
    match sub.operation with
    | .hash => List.replicate PWHASH_STRBYTES 0
    | .verify =>
      let hash := cString (sub.storedHash.getD dummyHash)
      hash ++ List.replicate (PWHASH_STRBYTES - hash.length) 0
  unknownUser :=
    match sub.operation with
    | .hash => false
    | .verify => sub.storedHash.isNone

/-! ## the worker -/

/-- where the worker thread is; a node is a job that it holds -/
inductive JobThread where
  /-- before the lock -/
  | checking
  /-- in `pthread_cond_wait` -/
  | waiting
  | running (a : Nat)
  /-- its job has a result and no input -/
  | executed (a : Nat)
  /-- between the lock of `append_done` and `notify_completion` -/
  | pushed
  | exited
  deriving DecidableEq, Repr

def JobThread.wake : JobThread → JobThread
  | .waiting => .checking
  | w => w

/-- the job that the thread holds -/
def JobThread.node : JobThread → Option Nat
  | .running a | .executed a => some a
  | _ => none

/-- where `password_worker_stop` is -/
inductive Stopping where
  | before
  /-- behind its critical section; `cancelled` says whether there were jobs -/
  | marked (cancelled : Bool)
  | joining
  | returned
  deriving DecidableEq, Repr

/-- `struct password_worker` with the memory of its jobs, by address -/
structure PasswordWorker where
  dummyHash : Bytes
  next : Nat → Option Nat := fun _ => none
  job : Nat → Option JobMemory := fun _ => none
  pending : Ends Nat := {}
  waiting : Nat := 0
  done : Ends Nat := {}
  stopped : Bool := false
  thread : JobThread := .checking
  stopping : Stopping := .before
  /-- the counter of the eventfd -/
  count : Nat := 0
  /-- the jobs that were popped and not freed -/
  held : List Nat := []
  /-- the submission behind an allocated job -/
  origin : Nat → Submitted := fun _ => ⟨0, .hash, [], none, 0⟩
  /-- what happened, in order: the submissions that were accepted, those that began to run, and
  those that were popped, with their results -/
  accepted : List Submitted := []
  started : List Submitted := []
  popped : List (Submitted × PasswordResult) := []

/-- `password_worker_new` -/
def PasswordWorker.new (dummyHash : Bytes) : PasswordWorker := { dummyHash := dummyHash }

/-- `password_submit_result` -/
inductive PasswordSubmitResult where
  | queued | queueFull | workerStopped | invalidInput | submitError
  deriving DecidableEq, Repr

/-- the new job at the end of the pending ones -/
def PasswordWorker.enqueue (s : PasswordWorker) (a : Nat) (sub : Submitted) : PasswordWorker :=
  { s with
    job := Function.update s.job a (some (sub.memory s.dummyHash))
    origin := Function.update s.origin a sub
    next := (push s.next s.pending a).1
    pending := (push s.next s.pending a).2
    waiting := s.waiting + 1
    thread := s.thread.wake
    accepted := s.accepted ++ [sub] }

/-- `password_worker_submit`; `mem` is the memory for the job.  The last part is what is left of
the caller's string, and the buffers as they were freed. -/
def PasswordWorker.passwordWorkerSubmit (s : PasswordWorker) (mem : Option Nat)
    (operation : PasswordOperation)
    (password : Option StringT) (storedHash : Option Bytes) (data : Nat) :
    PasswordSubmitResult × PasswordWorker × (Option StringT × List Bytes) :=
  match password.bind StringT.ptr with
  | none => (.invalidInput, s, consumePassword password)
  | some buffer =>
    let text := buffer.take ((password.map StringT.len).getD 0)
    if text.length < 8 ∨ text.length > 128 ∨ text.contains 0 then
      (.invalidInput, s, consumePassword password)
    else
      let hash := cString (storedHash.getD s.dummyHash)
      if operation = .verify ∧ (hash = [] ∨ hash.length ≥ PWHASH_STRBYTES) then
        (.invalidInput, s, consumePassword password)
      else if s.stopped then (.workerStopped, s, consumePassword password)
      else if s.waiting = PASSWORD_QUEUE_CAPACITY then (.queueFull, s, consumePassword password)
      else
        match mem with
        | none => (.submitError, s, consumePassword password)
        | some a =>
          (.queued, s.enqueue a ⟨s.accepted.length, operation, text, storedHash, data⟩,
            consumePassword password)

/-- `append_done` -/
def PasswordWorker.appendDone (s : PasswordWorker) (a : Nat) : PasswordWorker :=
  { s with
    next := (push s.next s.done a).1
    done := (push s.next s.done a).2 }

/-- the critical sections of `run_password_worker`, and its notification -/
def PasswordWorker.threadStep (s : PasswordWorker) : Option PasswordWorker :=
  match s.thread with
  | .checking =>
    if s.stopped then some { s with thread := .exited }
    else
      match pop s.next s.pending with
      | none => some { s with thread := .waiting }
      | some (a, q) =>
        some { s with
          pending := q
          waiting := s.waiting - 1
          thread := .running a
          started := s.started ++ [s.origin a] }
  | .executed a => some { s.appendDone a with thread := .pushed }
  | .pushed => some { s with count := s.count + 1, thread := .checking }
  | _ => none

/-- the job at `a` is settled -/
def PasswordWorker.settle (s : PasswordWorker) (a : Nat) (result : PasswordResult → PasswordResult)
    : PasswordWorker :=
  { s with job := Function.update s.job a ((s.job a).map fun j => j.settle result) }

/-- `job->result.cancelled = true` -/
def cancel (r : PasswordResult) : PasswordResult := { r with cancelled := true }

/-- the loop of `password_worker_stop` -/
def PasswordWorker.cancelPending : Nat → PasswordWorker → Option PasswordWorker
  | 0, _ => none
  | fuel + 1, s =>
    match s.pending.head with
    | none => some s
    | some a =>
      cancelPending fuel
        ((({ s with pending := ⟨s.next a, s.pending.tail⟩ } : PasswordWorker).settle a
          cancel).appendDone a)

/-- the critical section of `password_worker_stop` -/
def PasswordWorker.stopSection (s : PasswordWorker) (fuel : Nat) : Option PasswordWorker :=
  (({ s with stopped := true } : PasswordWorker).cancelPending fuel).map fun s' =>
    { s' with
      pending := ⟨s'.pending.head, none⟩
      waiting := 0
      thread := s'.thread.wake
      stopping := .marked s.pending.head.isSome }

/-- a job with its submission and result -/
def PasswordWorker.entry (s : PasswordWorker) (a : Nat) : Option (Submitted × PasswordResult) :=
  (s.job a).map fun j => (s.origin a, j.result)

/-- `password_worker_pop` -/
def PasswordWorker.passwordWorkerPop (s : PasswordWorker) : Option Nat × PasswordWorker :=
  match pop s.next s.done with
  | none => (none, s)
  | some (a, q) =>
    (some a, { s with
      done := q
      next := Function.update s.next a none
      held := a :: s.held
      popped := s.popped ++ (s.entry a).toList })

section
variable (passwords : PasswordLib)

/-- a step of one of the threads -/
inductive PasswordWorker.Step : PasswordWorker → PasswordWorker → Prop where
  | submit {s : PasswordWorker} (mem : Option Nat) (operation : PasswordOperation)
      (password : Option StringT)
      (storedHash : Option Bytes) (data : Nat) (hfresh : ∀ a ∈ mem, s.job a = none) :
      Step s (s.passwordWorkerSubmit mem operation password storedHash data).2.1
  | thread {s s' : PasswordWorker} (h : s.threadStep = some s') : Step s s'
  /-- the job is computed, and its input is cleared -/
  | compute {s : PasswordWorker} {a : Nat} {j : JobMemory} (r : PasswordResult)
      (hw : s.thread = .running a)
      (hj : s.job a = some j) (hr : JobResult passwords j.input r) :
      Step s { s.settle a fun _ => r with thread := .executed a }
  /-- `pthread_cond_wait` may return for no reason -/
  | spurious {s : PasswordWorker} (hw : s.thread = .waiting) : Step s { s with thread := .checking }
  | stop {s s' : PasswordWorker} {fuel : Nat} (hs : s.stopping = .before)
      (h : s.stopSection fuel = some s') : Step s s'
  | stopNotify {s : PasswordWorker} {cancelled : Bool} (hs : s.stopping = .marked cancelled) :
      Step s { s with count := s.count + cancelled.toNat, stopping := .joining }
  | stopJoin {s : PasswordWorker} (hs : s.stopping = .joining) (hw : s.thread = .exited) :
      Step s { s with stopping := .returned }
  | pop {s : PasswordWorker} : Step s s.passwordWorkerPop.2
  /-- `password_job_free` -/
  | free {s : PasswordWorker} {a : Nat} (ha : a ∈ s.held) :
      Step s { s with held := s.held.erase a, job := Function.update s.job a none }

/-- the states of a worker -/
inductive PasswordWorker.Run (dummyHash : Bytes) : PasswordWorker → Prop where
  | new : Run dummyHash (.new dummyHash)
  | step {s s' : PasswordWorker} : Run dummyHash s → PasswordWorker.Step passwords s s' →
      Run dummyHash s'

end

/-! ## jobs and submissions -/

theorem cString_append (value : Bytes) (n : Nat) :
    cString (cString value ++ List.replicate n 0) = cString value := by
  have hno : ∀ c ∈ cString value, (c != 0) = true := fun c hc => List.mem_takeWhile_imp
    (p := fun c => c != 0) hc
  rw [cString, List.takeWhile_append_of_pos hno]
  cases n with
  | zero => exact List.append_nil _
  | succ n => exact List.append_nil _

theorem cString_zero (n : Nat) : cString (List.replicate n 0) = [] := by
  cases n <;> rfl

/-- the worker reads what was submitted -/
theorem memory_input (dummyHash : Bytes) (sub : Submitted) :
    (sub.memory dummyHash).input = sub.job dummyHash := by
  unfold JobMemory.input Submitted.memory Submitted.job
  rw [List.take_left]
  cases sub.operation with
  | hash => rw [cString_zero]
  | verify => rw [cString_append]

/-- a finished job: no password and no hash, and what came with the submission -/
def JobMemory.Spent (j : JobMemory) (sub : Submitted) : Prop :=
  j.Cleared ∧ j.operation = sub.operation ∧ j.data = sub.data

theorem memory_spent (dummyHash : Bytes) (sub : Submitted)
    (result : PasswordResult → PasswordResult) :
    ((sub.memory dummyHash).settle result).Spent sub := ⟨⟨rfl, rfl, rfl⟩, rfl, rfl⟩

theorem jobResult_cancelled {passwords : PasswordLib} {job : PasswordJob} {r : PasswordResult}
    (h : JobResult passwords job r) : r.cancelled = false := by
  cases h with
  | hash computed ho hc =>
    unfold App.authPasswordHash
    repeat' split
    all_goals rfl
  | verify ho hk =>
    unfold App.authPasswordVerify
    repeat' split
    all_goals rfl
  | unknown ho hk hr => rfl

/-- a job without a stored hash does not succeed -/
theorem jobResult_unknown {passwords : PasswordLib} {job : PasswordJob} {r : PasswordResult}
    (h : JobResult passwords job r) (ho : job.operation = .verify) (hu : job.unknownUser = true) :
    r.failure ≠ none := by
  cases h with
  | hash computed ho' hc => rw [ho] at ho'; cases ho'
  | verify ho' hk =>
    rw [hu] at hk
    exact hk.resolve_left nofun
  | unknown ho' hk hr => exact nofun

/-! ## the invariant -/

/-- what comes back of a submission: a computed result, or that it was cancelled -/
def Outcome (passwords : PasswordLib) (dummyHash : Bytes) (e : Submitted × PasswordResult) : Prop :=
  (e.2.cancelled = false ∧ JobResult passwords (e.1.job dummyHash) e.2) ∨ e.2 = cancel unfinished

/-- those that were computed, and those that were cancelled -/
def computed (es : List (Submitted × PasswordResult)) : List Submitted :=
  (es.filter fun e => !e.2.cancelled).map Prod.fst

def cancelled (es : List (Submitted × PasswordResult)) : List Submitted :=
  (es.filter fun e => e.2.cancelled).map Prod.fst

@[simp] theorem computed_append (a b : List (Submitted × PasswordResult)) :
    computed (a ++ b) = computed a ++ computed b := by simp [computed]

@[simp] theorem cancelled_append (a b : List (Submitted × PasswordResult)) :
    cancelled (a ++ b) = cancelled a ++ cancelled b := by simp [cancelled]

/-- the jobs that were popped or wait to be popped -/
def PasswordWorker.entries (s : PasswordWorker) (d : List Nat) :
    List (Submitted × PasswordResult) :=
  s.popped ++ d.filterMap s.entry

/-- the job at `a` as it was submitted -/
def PasswordWorker.Fresh (s : PasswordWorker) (a : Nat) : Prop :=
  s.job a = some ((s.origin a).memory s.dummyHash)

section
variable (passwords : PasswordLib)

/-- the job at `a` with its result -/
def PasswordWorker.Settled (s : PasswordWorker) (a : Nat) : Prop :=
  ∃ j, s.job a = some j ∧ j.Spent (s.origin a) ∧ Outcome passwords s.dummyHash
    (s.origin a, j.result)

/-- what the thread knows of its job -/
def PasswordWorker.Holding (s : PasswordWorker) : Prop :=
  match s.thread with
  | .running a => s.Fresh a
  | .executed a => ∃ j, s.job a = some j ∧ j.Spent (s.origin a) ∧ j.result.cancelled = false ∧
      JobResult passwords ((s.origin a).job s.dummyHash) j.result
  | _ => True

/-- the two queues hold `l` and `d` -/
structure PasswordWorker.Inv (s : PasswordWorker) (l d : List Nat) : Prop where
  pending : Holds s.next s.pending l
  done : Holds s.next s.done d
  distinct : (l ++ (s.thread.node.toList ++ (d ++ s.held))).Nodup
  waiting : s.waiting = l.length
  bound : l.length ≤ PASSWORD_QUEUE_CAPACITY
  fresh : ∀ a ∈ l, s.Fresh a
  holding : s.Holding passwords
  settled : ∀ a ∈ d, s.Settled passwords a
  live : ∀ a ∈ s.held, (s.job a).isSome
  popped : ∀ e ∈ s.popped, Outcome passwords s.dummyHash e
  accepted : s.accepted =
    computed (s.entries d) ++ ((s.thread.node.toList ++ l).map s.origin ++ cancelled (s.entries d))
  numbers : s.accepted.map Submitted.number = List.range s.accepted.length
  started : s.started = computed (s.entries d) ++ s.thread.node.toList.map s.origin
  stopped : s.stopped = true → l = []
  running : s.stopped = false → cancelled (s.entries d) = []
  stopping : s.stopping = .before ↔ s.stopped = false
  idle : s.thread = .waiting → l = [] ∧ s.stopped = false
  exited : s.thread = .exited → s.stopped = true
  returned : s.stopping = .returned → s.thread = .exited

variable {passwords} {s s' : PasswordWorker} {l d : List Nat} {a : Nat}

theorem PasswordWorker.Inv.new (dummyHash : Bytes) :
    (PasswordWorker.new dummyHash).Inv passwords [] [] where
  pending := .empty _
  done := .empty _
  distinct := List.nodup_nil
  waiting := rfl
  bound := Nat.zero_le _
  fresh := nofun
  holding := trivial
  settled := nofun
  live := nofun
  popped := nofun
  accepted := rfl
  numbers := rfl
  started := rfl
  stopped := nofun
  running := fun _ => rfl
  stopping := Iff.rfl.trans ⟨fun _ => rfl, fun _ => rfl⟩
  idle := nofun
  exited := nofun
  returned := nofun

/-! ## the steps -/

theorem thread_wake_node (w : JobThread) : w.wake.node = w.node := by cases w <;> rfl

theorem thread_wake_idle (w : JobThread) : w.wake ≠ .waiting := by cases w <;> exact nofun

theorem thread_wake_exited {w : JobThread} : w.wake = .exited ↔ w = .exited := by
  cases w <;> simp [JobThread.wake]

/-- a step that leaves the queues and what is counted alone -/
theorem PasswordWorker.Inv.moves (h : s.Inv passwords l d) {thread : JobThread}
    {stopping : Stopping} {count : Nat} (hnode : thread.node = s.thread.node)
    (hhold : ({ s with thread := thread, stopping := stopping, count := count }
      : PasswordWorker).Holding passwords)
    (hstop : stopping = .before ↔ s.stopping = .before)
      (hidle : thread = .waiting → l = [] ∧ s.stopped = false)
    (hexit : thread = .exited → s.stopped = true) (hret : stopping = .returned → thread = .exited) :
    ({ s with thread := thread, stopping := stopping, count := count } : PasswordWorker).Inv
    passwords l d := by
  refine ⟨h.pending, h.done, ?_, h.waiting, h.bound, h.fresh, hhold, h.settled, h.live, h.popped,
    ?_, h.numbers, ?_,
    h.stopped, h.running, hstop.trans h.stopping, hidle, hexit, hret⟩
  · show (l ++ (thread.node.toList ++ (d ++ s.held))).Nodup
    rw [hnode]
    exact h.distinct
  · show s.accepted = computed (s.entries d) ++ ((thread.node.toList ++ l).map s.origin ++ cancelled
      (s.entries d))
    rw [hnode]
    exact h.accepted
  · show s.started = computed (s.entries d) ++ thread.node.toList.map s.origin
    rw [hnode]
    exact h.started

/-- an address that is not allocated is in no queue -/
theorem PasswordWorker.Inv.unused (h : s.Inv passwords l d) (ha : s.job a = none) :
    a ∉ l ∧ a ∉ s.thread.node.toList ∧ a ∉ d ∧ a ∉ s.held := by
  refine ⟨fun hl => ?_, fun hw => ?_, fun hd => ?_, fun hh => ?_⟩
  · have := h.fresh a hl
    rw [PasswordWorker.Fresh, ha] at this
    cases this
  · have hold := h.holding
    unfold PasswordWorker.Holding at hold
    cases hw' : s.thread with
    | running b =>
      rw [hw'] at hold hw
      cases List.mem_singleton.1 hw
      have : s.job a = _ := hold
      rw [ha] at this
      cases this
    | executed b =>
      rw [hw'] at hold hw
      cases List.mem_singleton.1 hw
      obtain ⟨j, hj, -⟩ := hold
      rw [ha] at hj
      cases hj
    | _ =>
      rw [hw'] at hw
      cases hw
  · obtain ⟨j, hj, -⟩ := h.settled a hd
    rw [ha] at hj
    cases hj
  · have := h.live a hh
    rw [ha] at this
    cases this

theorem map_update {β : Type} {f : Nat → β} {v : β} (ha : a ∉ l) :
    l.map (Function.update f a v) = l.map f := by
  apply List.map_congr_left
  intro b hb
  exact Function.update_of_ne (fun hba : b = a => ha (hba ▸ hb)) v f

/-- a job is accepted -/
theorem PasswordWorker.Inv.enqueue (h : s.Inv passwords l d) (sub : Submitted) (ha : s.job a = none)
    (hs : s.stopped = false) (hn : s.waiting ≠ PASSWORD_QUEUE_CAPACITY)
    (hnumber : sub.number = s.accepted.length) :
    (s.enqueue a sub).Inv passwords (l ++ [a]) d := by
  obtain ⟨hl, hw, hd, hh⟩ := h.unused ha
  have hdisj : ∀ y ∈ d, y ∉ l := fun y hy hyl =>
    (List.nodup_append.1 h.distinct).2.2 y hyl y (by simp [hy]) rfl
  have hjob : ∀ b, b ≠ a → (s.enqueue a sub).job b = s.job b :=
    fun b hb => Function.update_of_ne hb ..
  have horigin : ∀ b, b ≠ a → (s.enqueue a sub).origin b = s.origin b :=
    fun b hb => Function.update_of_ne hb ..
  have hentries : (s.enqueue a sub).entries d = s.entries d := by
    show s.popped ++ d.filterMap (s.enqueue a sub).entry = s.popped ++ d.filterMap s.entry
    congr 1
    apply List.filterMap_congr
    intro b hb
    have hba : b ≠ a := fun hba => hd (hba ▸ hb)
    rw [PasswordWorker.entry, hjob b hba, horigin b hba]
    rfl
  have hnodes : s.thread.node.toList.map (Function.update s.origin a sub) =
    s.thread.node.toList.map s.origin :=
    map_update hw
  refine ⟨h.pending.push hl, h.pending.push_other h.done hdisj hd, ?_, ?_, ?_, ?_, ?_, ?_, ?_,
    h.popped, ?_, ?_, ?_, ?_,
    ?_, ?_, ?_, ?_, ?_⟩
  · show (l ++ [a] ++ (s.thread.wake.node.toList ++ (d ++ s.held))).Nodup
    rw [thread_wake_node, List.append_assoc]
    show (l ++ a :: (s.thread.node.toList ++ (d ++ s.held))).Nodup
    refine (List.perm_middle.nodup_iff).2 (List.nodup_cons.2 ⟨?_, h.distinct⟩)
    simp only [List.mem_append, not_or]
    exact ⟨hl, hw, hd, hh⟩
  · show s.waiting + 1 = (l ++ [a]).length
    rw [h.waiting, List.length_append, List.length_singleton]
  · have hlt : l.length ≠ PASSWORD_QUEUE_CAPACITY := h.waiting ▸ hn
    rw [List.length_append, List.length_singleton]
    have := h.bound
    omega
  · intro b hb
    show (s.enqueue a sub).job b = some (((s.enqueue a sub).origin b).memory s.dummyHash)
    by_cases hba : b = a
    · subst hba
      show Function.update s.job b _ b =
        some ((Function.update s.origin b sub b).memory s.dummyHash)
      rw [Function.update_self, Function.update_self]
    · rw [hjob b hba, horigin b hba]
      refine h.fresh b ?_
      simpa [hba] using hb
  · have hold := h.holding
    unfold PasswordWorker.Holding at hold ⊢
    show match s.thread.wake with | .running b => _ | .executed b => _ | _ => _
    cases hw' : s.thread with
    | running b =>
      rw [hw'] at hold hw
      have hba : b ≠ a := fun hba => hw (hba ▸ List.mem_singleton_self b)
      show (s.enqueue a sub).job b = some (((s.enqueue a sub).origin b).memory s.dummyHash)
      rw [hjob b hba, horigin b hba]
      exact hold
    | executed b =>
      rw [hw'] at hold hw
      have hba : b ≠ a := fun hba => hw (hba ▸ List.mem_singleton_self b)
      show ∃ j, (s.enqueue a sub).job b = some j ∧ j.Spent ((s.enqueue a sub).origin b) ∧
        j.result.cancelled = false ∧
        JobResult passwords (((s.enqueue a sub).origin b).job s.dummyHash) j.result
      rw [hjob b hba, horigin b hba]
      exact hold
    | _ => trivial
  · intro b hb
    have hba : b ≠ a := fun hba => hd (hba ▸ hb)
    show ∃ j, (s.enqueue a sub).job b = some j ∧ j.Spent ((s.enqueue a sub).origin b) ∧
      Outcome passwords s.dummyHash ((s.enqueue a sub).origin b, j.result)
    rw [hjob b hba, horigin b hba]
    exact h.settled b hb
  · intro b hb
    have hba : b ≠ a := fun hba => hh (hba ▸ hb)
    rw [hjob b hba]
    exact h.live b hb
  · rw [hentries]
    show s.accepted ++ [sub] = computed (s.entries d) ++
      ((s.thread.wake.node.toList ++ (l ++ [a])).map (Function.update s.origin a sub) ++ cancelled
        (s.entries d))
    rw [thread_wake_node, h.running hs, h.accepted, h.running hs]
    simp [hnodes, map_update hl]
  · show (s.accepted ++ [sub]).map Submitted.number = List.range (s.accepted ++ [sub]).length
    rw [List.map_append, h.numbers, List.length_append, List.length_singleton, List.range_succ,
      List.map_singleton,
      hnumber]
  · rw [hentries]
    show s.started = computed (s.entries d) ++ s.thread.wake.node.toList.map
      (Function.update s.origin a sub)
    rw [thread_wake_node, hnodes]
    exact h.started
  · intro hst
    have : s.stopped = true := hst
    rw [hs] at this
    cases this
  · intro _
    rw [hentries]
    exact h.running hs
  · exact h.stopping
  · exact fun hi => absurd hi (thread_wake_idle _)
  · exact fun hx => h.exited (thread_wake_exited.1 hx)
  · exact fun hr => thread_wake_exited.2 (h.returned hr)

/-- the thread takes the first job -/
theorem PasswordWorker.Inv.takes {q : Ends Nat} (h : s.Inv passwords l d)
    (hw : s.thread = .checking)
    (hs : s.stopped = false) (hp : LinkedQueue.pop s.next s.pending = some (a, q)) :
    ∃ rest, ({ s with
      pending := q
      waiting := s.waiting - 1
      thread := .running a
      started := s.started ++ [s.origin a] } : PasswordWorker).Inv passwords rest d := by
  obtain ⟨rest, rfl, hrest⟩ := h.pending.of_pop hp
  have hperm : (a :: rest ++ (s.thread.node.toList ++ (d ++ s.held))).Perm
    (rest ++ ([a] ++ (d ++ s.held))) := by
    rw [hw]
    exact List.perm_middle.symm
  refine ⟨rest, hrest, h.done, hperm.nodup_iff.1 h.distinct, ?_, ?_, fun b hb =>
    h.fresh b (List.mem_cons_of_mem _ hb),
    h.fresh a List.mem_cons_self, h.settled, h.live, h.popped, ?_, h.numbers, ?_, ?_, h.running,
    h.stopping, nofun, nofun,
    ?_⟩
  · show s.waiting - 1 = rest.length
    rw [h.waiting, List.length_cons]
    rfl
  · have := h.bound
    rw [List.length_cons] at this
    omega
  · have hacc := h.accepted
    rw [hw] at hacc
    exact hacc
  · have hstart := h.started
    rw [hw] at hstart
    show s.started ++ [s.origin a] = computed (s.entries d) ++ [s.origin a]
    rw [hstart]
    simp [JobThread.node]
  · intro hst
    have : s.stopped = true := hst
    rw [hs] at this
    cases this
  · intro hr
    have := h.returned hr
    rw [hw] at this
    cases this

/-- the memory of a settled job -/
theorem settle_job (s : PasswordWorker) {j : JobMemory} (hj : s.job a = some j)
    (f : PasswordResult → PasswordResult) :
    (s.settle a f).job a = some (j.settle f) := by
  show Function.update s.job a _ a = _
  rw [Function.update_self, hj]
  rfl

theorem settle_job_ne (s : PasswordWorker) (f : PasswordResult → PasswordResult) {b : Nat}
    (hb : b ≠ a) :
    (s.settle a f).job b = s.job b := Function.update_of_ne hb ..

/-- the job of the thread is computed -/
theorem PasswordWorker.Inv.computes {j : JobMemory} {r : PasswordResult} (h : s.Inv passwords l d)
    (hw : s.thread = .running a) (hj : s.job a = some j) (hr : JobResult passwords j.input r) :
    ({ s.settle a fun _ => r with thread := .executed a } : PasswordWorker).Inv passwords l d := by
  have hdist := h.distinct
  have hold := h.holding
  unfold PasswordWorker.Holding at hold
  rw [hw] at hdist hold
  have hdist : (l ++ (a :: (d ++ s.held))).Nodup := hdist
  have hfresh : s.job a = some ((s.origin a).memory s.dummyHash) := hold
  have htail := List.nodup_cons.1 (List.nodup_append.1 hdist).2.1
  have hd : ∀ b ∈ d, b ≠ a := fun b hb hba => htail.1 (hba ▸ List.mem_append_left _ hb)
  have hh : ∀ b ∈ s.held, b ≠ a := fun b hb hba => htail.1 (hba ▸ List.mem_append_right _ hb)
  have hl : ∀ b ∈ l, b ≠ a := fun b hb hba =>
    (List.nodup_append.1 hdist).2.2 a (hba ▸ hb) a List.mem_cons_self rfl
  have hres : JobResult passwords ((s.origin a).job s.dummyHash) r := by
    rw [hfresh] at hj
    cases hj
    rw [memory_input] at hr
    exact hr
  have hentries : ({ s.settle a fun _ => r with thread := .executed a } : PasswordWorker).entries d
    = s.entries d := by
    show s.popped ++ d.filterMap _ = s.popped ++ d.filterMap s.entry
    congr 1
    apply List.filterMap_congr
    intro b hb
    show ((s.settle a fun _ => r).job b).map (fun j => (s.origin b, j.result)) = _
    rw [settle_job_ne s _ (hd b hb)]
    rfl
  refine ⟨h.pending, h.done, hdist, h.waiting, h.bound, ?_, ?_, ?_, ?_, h.popped, ?_, h.numbers, ?_,
    h.stopped, ?_,
    h.stopping, nofun, nofun, ?_⟩
  · intro b hb
    show (s.settle a fun _ => r).job b = _
    rw [settle_job_ne s _ (hl b hb)]
    exact h.fresh b hb
  · show ∃ j, (s.settle a fun _ => r).job a = some j ∧ j.Spent (s.origin a) ∧
      j.result.cancelled = false ∧
      JobResult passwords ((s.origin a).job s.dummyHash) j.result
    exact ⟨_, settle_job s hfresh _, memory_spent _ _ _, jobResult_cancelled hr, hres⟩
  · intro b hb
    show ∃ j, (s.settle a fun _ => r).job b = some j ∧ j.Spent (s.origin b) ∧
      Outcome passwords s.dummyHash (s.origin b, j.result)
    rw [settle_job_ne s _ (hd b hb)]
    exact h.settled b hb
  · intro b hb
    show ((s.settle a fun _ => r).job b).isSome
    rw [settle_job_ne s _ (hh b hb)]
    exact h.live b hb
  · rw [hentries]
    have hacc := h.accepted
    rw [hw] at hacc
    exact hacc
  · rw [hentries]
    have hstart := h.started
    rw [hw] at hstart
    exact hstart
  · intro hs
    rw [hentries]
    exact h.running hs
  · intro hret
    have := h.returned hret
    rw [hw] at this
    cases this

/-- the computed job goes to the finished ones -/
theorem PasswordWorker.Inv.pushes (h : s.Inv passwords l d) (hw : s.thread = .executed a) :
    ({ s.appendDone a with thread := .pushed } : PasswordWorker).Inv passwords l (d ++ [a]) := by
  have hdist := h.distinct
  have hold := h.holding
  unfold PasswordWorker.Holding at hold
  rw [hw] at hdist hold
  have hdist : (l ++ (a :: (d ++ s.held))).Nodup := hdist
  obtain ⟨j, hj, hclear, hcan, hres⟩ := hold
  have htail := List.nodup_cons.1 (List.nodup_append.1 hdist).2.1
  have hd : a ∉ d := fun hd => htail.1 (List.mem_append_left _ hd)
  have hl : a ∉ l := fun hl => (List.nodup_append.1 hdist).2.2 a hl a List.mem_cons_self rfl
  have hdisj : ∀ y ∈ l, y ∉ d := fun y hy hyd =>
    (List.nodup_append.1 hdist).2.2 y hy y (List.mem_cons_of_mem _ (List.mem_append_left _ hyd)) rfl
  have hperm : (l ++ (a :: (d ++ s.held))).Perm (l ++ ([] ++ (d ++ [a] ++ s.held))) := by
    refine List.Perm.append_left l ?_
    rw [List.nil_append, List.append_assoc]
    exact List.perm_middle.symm
  have hentries : ({ s.appendDone a with thread := .pushed } : PasswordWorker).entries (d ++ [a]) =
      s.entries d ++ [(s.origin a, j.result)] := by
    show s.popped ++ (d ++ [a]).filterMap s.entry = _
    rw [List.filterMap_append, PasswordWorker.entries, List.append_assoc]
    congr 2
    show (s.entry a).toList = _
    rw [PasswordWorker.entry, hj]
    rfl
  have hone : computed [(s.origin a, j.result)] = [s.origin a] ∧
    cancelled [(s.origin a, j.result)] = [] := by
    unfold computed cancelled
    simp [hcan]
  refine ⟨h.done.push_other h.pending hdisj hl, h.done.push hd, hperm.nodup_iff.1 hdist, h.waiting,
    h.bound, h.fresh,
    trivial, ?_, h.live, h.popped, ?_, h.numbers, ?_, h.stopped, ?_, h.stopping, nofun, nofun, ?_⟩
  · intro b hb
    rcases List.mem_append.1 hb with hb | hb
    · exact h.settled b hb
    · cases List.mem_singleton.1 hb
      exact ⟨j, hj, hclear, .inl ⟨hcan, hres⟩⟩
  · rw [hentries, computed_append, cancelled_append, hone.1, hone.2, List.append_nil]
    have hacc := h.accepted
    rw [hw] at hacc
    show s.accepted = computed (s.entries d) ++ [s.origin a] ++
      (l.map s.origin ++ cancelled (s.entries d))
    rw [hacc]
    simp [JobThread.node]
  · rw [hentries, computed_append, hone.1]
    have hstart := h.started
    rw [hw] at hstart
    show s.started = computed (s.entries d) ++ [s.origin a] ++ []
    rw [hstart]
    simp [JobThread.node]
  · intro hs
    rw [hentries, cancelled_append, hone.2, List.append_nil]
    exact h.running hs
  · intro hret
    have := h.returned hret
    rw [hw] at this
    cases this

/-- **a step of the thread** -/
theorem PasswordWorker.Inv.threadStep (h : s.Inv passwords l d) (hs : s.threadStep = some s') :
    ∃ l' d', s'.Inv passwords l' d' := by
  unfold PasswordWorker.threadStep at hs
  split at hs
  · next hw =>
    split at hs
    · next hst =>
      cases hs
      exact ⟨l, d, h.moves (by rw [hw]; rfl) trivial Iff.rfl nofun (fun _ => hst) fun _ => rfl⟩
    · next hst =>
      rw [Bool.not_eq_true] at hst
      split at hs
      · next hp =>
        cases hs
        refine ⟨l, d, h.moves (by rw [hw]; rfl) trivial Iff.rfl
          (fun _ => ⟨h.pending.of_pop_none hp, hst⟩) nofun
          fun hr => ?_⟩
        have := h.returned hr
        rw [hw] at this
        cases this
      · next a q hp =>
        cases hs
        obtain ⟨rest, hrest⟩ := h.takes hw hst hp
        exact ⟨rest, d, hrest⟩
  · next a hw =>
    cases hs
    exact ⟨l, d ++ [a], h.pushes hw⟩
  · next hw =>
    cases hs
    refine ⟨l, d, h.moves (by rw [hw]; rfl) trivial Iff.rfl nofun nofun fun hr => ?_⟩
    have := h.returned hr
    rw [hw] at this
    cases this
  · cases hs

/-! ## the cancelled jobs -/

/-- the jobs `l` with their input cleared and their results cancelled -/
def cancelAll (job : Nat → Option JobMemory) (l : List Nat) (b : Nat) : Option JobMemory :=
  if b ∈ l then (job b).map fun j => j.settle cancel else job b

/-- the loop takes the pending jobs one by one -/
theorem cancelPending_all (hp : Path s.next s.pending.head l) (hd : Holds s.next s.done d)
    (hn : (l ++ d).Nodup) :
    ∃ next done, s.cancelPending (l.length + 1) = some { s with
        pending := ⟨none, s.pending.tail⟩
        next := next
        done := done
        job := cancelAll s.job l } ∧ Holds next done (d ++ l) := by
  induction l generalizing s d with
  | nil =>
    refine ⟨s.next, s.done, ?_, by rw [List.append_nil]; exact hd⟩
    have hhead : s.pending.head = none := hp.head
    rw [List.length_nil, PasswordWorker.cancelPending, hhead]
    dsimp only
    rw [show (⟨none, s.pending.tail⟩ : Ends Nat) = s.pending by rw [← hhead]]
    rfl
  | cons a l ih =>
    have hhead : s.pending.head = some a := hp.head
    rw [hhead] at hp
    cases hp with
    | cons hp =>
      have hn' := List.nodup_cons.1 hn
      have had : a ∉ d := fun had => hn'.1 (List.mem_append_right _ had)
      have hal : a ∉ l := fun hal => hn'.1 (List.mem_append_left _ hal)
      have hdisj : ∀ y ∈ l, y ∉ d := fun y hy hyd => (List.nodup_append.1 hn'.2).2.2 y hy y hyd rfl
      have hpath : Path (push s.next s.done a).1 (s.next a) l :=
        hp.congr fun y hy => push_next hd (hdisj y hy) fun hya => hal (hya ▸ hy)
      have hperm : (a :: l ++ d).Perm (l ++ (d ++ [a])) := by
        rw [← List.append_assoc]
        exact (List.perm_append_singleton a (l ++ d)).symm
      obtain ⟨next, done, hloop, hholds⟩ :=
        ih (s := (({ s with pending := ⟨s.next a, s.pending.tail⟩ } : PasswordWorker).settle a
          cancel).appendDone a)
          hpath (hd.push had) (hperm.nodup_iff.1 hn)
      refine ⟨next, done, ?_, by rw [List.append_assoc] at hholds; exact hholds⟩
      rw [List.length_cons, PasswordWorker.cancelPending, hhead]
      dsimp only
      rw [hloop]
      have hjob : cancelAll (Function.update s.job a ((s.job a).map (JobMemory.settle · cancel))) l
        = cancelAll s.job (a :: l) := by
        funext b
        unfold cancelAll
        by_cases hba : b = a
        · subst hba
          rw [if_neg hal, if_pos List.mem_cons_self, Function.update_self]
        · rw [Function.update_of_ne hba]
          by_cases hbl : b ∈ l
          · rw [if_pos hbl, if_pos (List.mem_cons_of_mem _ hbl)]
          · rw [if_neg hbl, if_neg fun hmem => hbl ((List.mem_cons.1 hmem).resolve_left hba)]
      show some { s with
        pending := ⟨none, s.pending.tail⟩
        next := next
        done := done
        job := cancelAll (Function.update s.job a ((s.job a).map (JobMemory.settle · cancel))) l } =
          _
      rw [hjob]

/-- fuel does not change what the loop does -/
theorem cancelPending_fuel {f g : Nat} {s1 s2 : PasswordWorker} (h1 : s.cancelPending f = some s1)
    (h2 : s.cancelPending g = some s2) : s1 = s2 := by
  induction f generalizing g s with
  | zero => cases h1
  | succ f ih =>
    cases g with
    | zero => cases h2
    | succ g =>
      rw [PasswordWorker.cancelPending] at h1 h2
      cases hh : s.pending.head with
      | none =>
        rw [hh] at h1 h2
        cases h1
        cases h2
        rfl
      | some a =>
        rw [hh] at h1 h2
        exact ih h1 h2

/-- the worker after its pending jobs `l` were cancelled -/
def PasswordWorker.cancelling (s : PasswordWorker) (l : List Nat) (next : Nat → Option Nat)
    (done : Ends Nat) :
    PasswordWorker :=
  { s with
    stopped := true
    pending := {}
    next := next
    done := done
    job := cancelAll s.job l
    waiting := 0
    thread := s.thread.wake
    stopping := .marked s.pending.head.isSome }

/-- the critical section of `password_worker_stop` cancels what is pending -/
theorem PasswordWorker.Inv.stopSection (h : s.Inv passwords l d) :
    ∃ next done, Holds next done (d ++ l) ∧
      ∀ fuel s', s.stopSection fuel = some s' → s' = s.cancelling l next done := by
  have hn : (l ++ d).Nodup := by
    refine h.distinct.sublist (List.Sublist.append_left ?_ l)
    exact ((List.sublist_append_left d s.held).trans (List.sublist_append_right _ _))
  obtain ⟨next, done, hloop, hholds⟩ :=
    cancelPending_all (s := { s with stopped := true }) h.pending.path h.done hn
  refine ⟨next, done, hholds, fun fuel s' hs => ?_⟩
  unfold PasswordWorker.stopSection at hs
  obtain ⟨s1, hs1, rfl⟩ := Option.map_eq_some_iff.1 hs
  rw [cancelPending_fuel hs1 hloop]
  rfl

/-- it comes to its end -/
theorem PasswordWorker.Inv.stop_returns (h : s.Inv passwords l d) :
    ∃ s', s.stopSection (l.length + 1) = some s' := by
  have hn : (l ++ d).Nodup := by
    refine h.distinct.sublist (List.Sublist.append_left ?_ l)
    exact ((List.sublist_append_left d s.held).trans (List.sublist_append_right _ _))
  obtain ⟨next, done, hloop, -⟩ := cancelPending_all (s := { s with stopped := true })
    h.pending.path h.done hn
  unfold PasswordWorker.stopSection
  rw [hloop]
  exact ⟨_, rfl⟩

theorem cancelAll_of_mem {job : Nat → Option JobMemory} {j : JobMemory} (ha : a ∈ l)
    (hj : job a = some j) :
    cancelAll job l a = some (j.settle cancel) := by
  unfold cancelAll
  rw [if_pos ha, hj]
  rfl

theorem cancelAll_of_not_mem {job : Nat → Option JobMemory} (ha : a ∉ l) :
    cancelAll job l a = job a := if_neg ha

/-- `password_worker_stop` -/
theorem PasswordWorker.Inv.stops {fuel : Nat} (h : s.Inv passwords l d) (hb : s.stopping = .before)
    (hs : s.stopSection fuel = some s') : s'.Inv passwords [] (d ++ l) := by
  obtain ⟨next, done, hholds, hsection⟩ := h.stopSection
  obtain rfl := hsection fuel s' hs
  have hrunning := h.stopping.1 hb
  have hdist := h.distinct
  have hlw : ∀ b ∈ s.thread.node.toList, b ∉ l := fun b hb hbl =>
    (List.nodup_append.1 hdist).2.2 b hbl b (List.mem_append_left _ hb) rfl
  have hld : ∀ b ∈ d, b ∉ l := fun b hb hbl => (List.nodup_append.1 hdist).2.2 b hbl b
    (by simp [hb]) rfl
  have hlh : ∀ b ∈ s.held, b ∉ l := fun b hb hbl => (List.nodup_append.1 hdist).2.2 b hbl b
    (by simp [hb]) rfl
  have hperm : (l ++ (s.thread.node.toList ++ (d ++ s.held))).Perm
      ([] ++ (s.thread.wake.node.toList ++ (d ++ l ++ s.held))) := by
    rw [thread_wake_node, List.nil_append]
    refine List.perm_append_comm.trans ?_
    simp only [List.append_assoc]
    exact List.Perm.append_left _ (List.Perm.append_left _ List.perm_append_comm)
  -- what is behind the finished jobs
  have hentry : ∀ b ∈ l, (s.cancelling l next done).entry b =
    some (s.origin b, cancel unfinished) := by
    intro b hb
    show (cancelAll s.job l b).map _ = _
    rw [cancelAll_of_mem hb (h.fresh b hb)]
    rfl
  have hentries : (s.cancelling l next done).entries (d ++ l) =
      s.entries d ++ l.map fun b => (s.origin b, cancel unfinished) := by
    show s.popped ++ (d ++ l).filterMap (s.cancelling l next done).entry = _
    rw [List.filterMap_append, PasswordWorker.entries, List.append_assoc]
    congr 2
    · apply List.filterMap_congr
      intro b hb
      show (cancelAll s.job l b).map _ = (s.job b).map _
      rw [cancelAll_of_not_mem (hld b hb)]
      rfl
    · rw [List.filterMap_congr hentry, ← List.filterMap_eq_map]
      rfl
  have hcomputed : computed (l.map fun b => (s.origin b, cancel unfinished)) = [] := by
    unfold computed
    rw [List.filter_eq_nil_iff.2 (by simp [cancel])]
    rfl
  have hcancelled : cancelled (l.map fun b => (s.origin b, cancel unfinished)) =
    l.map s.origin := by
    unfold cancelled
    rw [List.filter_eq_self.2 (by simp [cancel]), List.map_map]
    rfl
  refine ⟨.empty _, hholds, hperm.nodup_iff.1 hdist, rfl, Nat.zero_le _, nofun, ?_, ?_, ?_,
    h.popped, ?_, h.numbers, ?_,
    fun _ => rfl, nofun, ⟨nofun, nofun⟩, fun hi => absurd hi (thread_wake_idle _),
    fun _ => rfl, nofun⟩
  · have hold := h.holding
    unfold PasswordWorker.Holding at hold ⊢
    show match s.thread.wake with | .running b => _ | .executed b => _ | _ => _
    cases hw : s.thread with
    | running b =>
      rw [hw] at hold hlw
      show cancelAll s.job l b = _
      rw [cancelAll_of_not_mem (hlw b (List.mem_singleton_self b))]
      exact hold
    | executed b =>
      rw [hw] at hold hlw
      show ∃ j, cancelAll s.job l b = some j ∧ j.Spent (s.origin b) ∧ j.result.cancelled = false ∧
        JobResult passwords ((s.origin b).job s.dummyHash) j.result
      rw [cancelAll_of_not_mem (hlw b (List.mem_singleton_self b))]
      exact hold
    | _ => trivial
  · intro b hb
    show ∃ j, cancelAll s.job l b = some j ∧ j.Spent (s.origin b) ∧ Outcome passwords s.dummyHash
      (s.origin b, j.result)
    rcases List.mem_append.1 hb with hb | hb
    · rw [cancelAll_of_not_mem (hld b hb)]
      exact h.settled b hb
    · exact ⟨_, cancelAll_of_mem hb (h.fresh b hb), memory_spent _ _ _, .inr rfl⟩
  · intro b hb
    show (cancelAll s.job l b).isSome
    rw [cancelAll_of_not_mem (hlh b hb)]
    exact h.live b hb
  · rw [hentries, computed_append, cancelled_append, hcomputed, hcancelled, h.running hrunning]
    show s.accepted = computed (s.entries d) ++ [] ++
      ((s.thread.wake.node.toList ++ []).map s.origin ++ ([] ++ l.map s.origin))
    rw [thread_wake_node, h.accepted, h.running hrunning]
    simp
  · rw [hentries, computed_append, hcomputed, List.append_nil]
    show s.started = computed (s.entries d) ++ s.thread.wake.node.toList.map s.origin
    rw [thread_wake_node]
    exact h.started

/-! ## popped jobs -/

theorem pop_accepted (s : PasswordWorker) : s.passwordWorkerPop.2.accepted = s.accepted := by
  unfold PasswordWorker.passwordWorkerPop
  split <;> rfl

/-- `password_worker_pop` -/
theorem PasswordWorker.Inv.pops (h : s.Inv passwords l d) :
    (d = [] ∧ s.passwordWorkerPop = (none, s)) ∨
      ∃ a j rest, d = a :: rest ∧ s.job a = some j ∧ s.passwordWorkerPop.1 = some a ∧
        s.passwordWorkerPop.2.popped = s.popped ++ [(s.origin a, j.result)] ∧
        s.passwordWorkerPop.2.Inv passwords l rest := by
  unfold PasswordWorker.passwordWorkerPop
  cases hp : LinkedQueue.pop s.next s.done with
  | none => exact .inl ⟨h.done.of_pop_none hp, rfl⟩
  | some p =>
    obtain ⟨a, q⟩ := p
    obtain ⟨rest, rfl, hrest⟩ := h.done.of_pop hp
    obtain ⟨j, hj, hclear, hout⟩ := h.settled a List.mem_cons_self
    have hentry : s.entry a = some (s.origin a, j.result) := by rw [PasswordWorker.entry, hj]; rfl
    refine .inr ⟨a, j, rest, rfl, hj, rfl, by simp [hentry], ?_⟩
    have ha : a ∉ rest := (List.nodup_cons.1 h.done.nodup).1
    have hl : a ∉ l := fun hl => (List.nodup_append.1 h.distinct).2.2 a hl a (by simp) rfl
    have hperm : (l ++ (s.thread.node.toList ++ (a :: rest ++ s.held))).Perm
        (l ++ (s.thread.node.toList ++ (rest ++ a :: s.held))) :=
      List.Perm.append_left _ (List.Perm.append_left _ List.perm_middle.symm)
    have hentries : s.popped ++ (s.entry a).toList ++ rest.filterMap s.entry = s.entries
      (a :: rest) := by
      rw [PasswordWorker.entries, List.filterMap_cons_some hentry, hentry]
      simp
    refine ⟨h.pending.update none hl, hrest.update none ha, hperm.nodup_iff.1 h.distinct, h.waiting,
      h.bound, h.fresh,
      h.holding, fun b hb => h.settled b (List.mem_cons_of_mem _ hb), ?_, ?_, ?_, h.numbers, ?_,
      h.stopped, ?_, h.stopping,
      h.idle, h.exited, h.returned⟩
    · intro b hb
      rcases List.mem_cons.1 hb with rfl | hb
      · show (s.job b).isSome
        rw [hj]
        rfl
      · exact h.live b hb
    · intro e he
      have he : e ∈ s.popped ++ (s.entry a).toList := he
      rw [hentry] at he
      rcases List.mem_append.1 he with he | he
      · exact h.popped e he
      · cases List.mem_singleton.1 he
        exact hout
    · show s.accepted = computed (s.popped ++ (s.entry a).toList ++ rest.filterMap s.entry) ++
        ((s.thread.node.toList ++ l).map s.origin ++ cancelled
          (s.popped ++ (s.entry a).toList ++ rest.filterMap s.entry))
      rw [hentries]
      exact h.accepted
    · show s.started = computed (s.popped ++ (s.entry a).toList ++ rest.filterMap s.entry) ++ _
      rw [hentries]
      exact h.started
    · intro hs
      show cancelled (s.popped ++ (s.entry a).toList ++ rest.filterMap s.entry) = []
      rw [hentries]
      exact h.running hs

/-- `password_job_free` -/
theorem PasswordWorker.Inv.frees (h : s.Inv passwords l d) (ha : a ∈ s.held) :
    ({ s with held := s.held.erase a, job := Function.update s.job a none } : PasswordWorker).Inv
    passwords l d := by
  have hback : (l ++ (s.thread.node.toList ++ (d ++ s.held))).Perm
      (a :: (l ++ (s.thread.node.toList ++ (d ++ s.held.erase a)))) := by
    refine List.Perm.trans ?_ List.perm_middle
    refine List.Perm.append_left l ?_
    refine List.Perm.trans ?_ List.perm_middle
    refine List.Perm.append_left _ ?_
    exact (List.Perm.append_left d (List.perm_cons_erase ha)).trans List.perm_middle
  have hnodup := List.nodup_cons.1 (hback.nodup_iff.1 h.distinct)
  have hne : ∀ b ∈ l ++ (s.thread.node.toList ++ (d ++ s.held.erase a)), Function.update s.job a
    none b = s.job b :=
    fun b hb => Function.update_of_ne (fun hba : b = a => hnodup.1 (hba ▸ hb)) ..
  have hentries : ({ s with held := s.held.erase a, job := Function.update s.job a none }
    : PasswordWorker).entries d =
      s.entries d := by
    show s.popped ++ d.filterMap _ = s.popped ++ d.filterMap s.entry
    congr 1
    apply List.filterMap_congr
    intro b hb
    show (Function.update s.job a none b).map _ = (s.job b).map _
    rw [hne b (by simp [hb])]
  refine ⟨h.pending, h.done, hnodup.2, h.waiting, h.bound, ?_, ?_, ?_, ?_, h.popped, ?_, h.numbers,
    ?_, h.stopped, ?_,
    h.stopping, h.idle, h.exited, h.returned⟩
  · intro b hb
    show Function.update s.job a none b = _
    rw [hne b (List.mem_append_left _ hb)]
    exact h.fresh b hb
  · have hold := h.holding
    unfold PasswordWorker.Holding at hold ⊢
    show match s.thread with | .running b => _ | .executed b => _ | _ => _
    cases hw : s.thread with
    | running b =>
      rw [hw] at hold
      show Function.update s.job a none b = _
      rw [hne b (by simp [hw, JobThread.node])]
      exact hold
    | executed b =>
      rw [hw] at hold
      show ∃ j, Function.update s.job a none b = some j ∧ j.Spent (s.origin b) ∧
        j.result.cancelled = false ∧
        JobResult passwords ((s.origin b).job s.dummyHash) j.result
      rw [hne b (by simp [hw, JobThread.node])]
      exact hold
    | _ => trivial
  · intro b hb
    show ∃ j, Function.update s.job a none b = some j ∧ j.Spent (s.origin b) ∧
      Outcome passwords s.dummyHash (s.origin b, j.result)
    rw [hne b (by simp [hb])]
    exact h.settled b hb
  · intro b hb
    show (Function.update s.job a none b).isSome
    rw [hne b (by simp only [List.mem_append]; exact .inr (.inr (.inr hb)))]
    exact h.live b (List.mem_of_mem_erase hb)
  · rw [hentries]
    exact h.accepted
  · rw [hentries]
    exact h.started
  · intro hs
    rw [hentries]
    exact h.running hs

/-! ## runs -/

/-- **what a submission does**: it is accepted, or nothing changes -/
theorem submit_cases (s : PasswordWorker) (mem : Option Nat) (operation : PasswordOperation)
    (password : Option StringT) (storedHash : Option Bytes) (data : Nat) :
    ((s.passwordWorkerSubmit mem operation password storedHash data).1 ≠ .queued ∧
      (s.passwordWorkerSubmit mem operation password storedHash data).2.1 = s) ∨
    ∃ a string buffer, mem = some a ∧ password = some string ∧ string.ptr = some buffer ∧
      s.stopped = false ∧
      s.waiting ≠ PASSWORD_QUEUE_CAPACITY ∧
      (s.passwordWorkerSubmit mem operation password storedHash data).1 = .queued ∧
      (s.passwordWorkerSubmit mem operation password storedHash data).2.1 =
        s.enqueue a ⟨s.accepted.length, operation, buffer.take string.len, storedHash, data⟩ := by
  unfold PasswordWorker.passwordWorkerSubmit
  cases hb : password.bind StringT.ptr with
  | none => exact .inl ⟨nofun, rfl⟩
  | some buffer =>
    obtain ⟨string, rfl, hptr⟩ := Option.bind_eq_some_iff.1 hb
    dsimp only
    split
    · exact .inl ⟨nofun, rfl⟩
    split
    · exact .inl ⟨nofun, rfl⟩
    split
    · exact .inl ⟨nofun, rfl⟩
    next hs =>
    split
    · exact .inl ⟨nofun, rfl⟩
    next hn =>
    cases mem with
    | none => exact .inl ⟨nofun, rfl⟩
    | some a =>
      exact .inr ⟨a, string, buffer, rfl, rfl, hptr, Bool.not_eq_true _ ▸ hs, hn, rfl, rfl⟩

/-- whatever becomes of it, the caller's string is consumed -/
theorem submit_consumes (s : PasswordWorker) (mem : Option Nat) (operation : PasswordOperation)
    (password : Option StringT) (storedHash : Option Bytes) (data : Nat) :
    (s.passwordWorkerSubmit mem operation password storedHash data).2.2 = consumePassword
    password := by
  unfold PasswordWorker.passwordWorkerSubmit
  dsimp only
  repeat' split
  all_goals rfl

/-- **every step keeps the invariant** -/
theorem PasswordWorker.Inv.step (h : s.Inv passwords l d)
    (hs : PasswordWorker.Step passwords s s') :
    ∃ l' d', s'.Inv passwords l' d' := by
  cases hs with
  | submit mem operation password storedHash data hfresh =>
    rcases submit_cases s mem operation password storedHash data with
      ⟨-, heq⟩ | ⟨a, string, buffer, rfl, -, -, hst, hn, -, heq⟩
    · rw [heq]
      exact ⟨l, d, h⟩
    · rw [heq]
      exact ⟨_, d, h.enqueue _ (hfresh a rfl) hst hn rfl⟩
  | thread hx => exact h.threadStep hx
  | compute r hw hj hr => exact ⟨l, d, h.computes hw hj hr⟩
  | spurious hw =>
    refine ⟨l, d, h.moves (by rw [hw]; rfl) trivial Iff.rfl nofun nofun fun hr => ?_⟩
    have := h.returned hr
    rw [hw] at this
    cases this
  | stop hb hx => exact ⟨[], d ++ l, h.stops hb hx⟩
  | stopNotify hb =>
    refine ⟨l, d, h.moves rfl h.holding ?_ h.idle h.exited nofun⟩
    rw [hb]
    exact ⟨nofun, nofun⟩
  | stopJoin hb hw =>
    refine ⟨l, d, h.moves rfl h.holding ?_ h.idle h.exited fun _ => hw⟩
    rw [hb]
    exact ⟨nofun, nofun⟩
  | pop =>
    rcases h.pops with ⟨-, heq⟩ | ⟨a, j, rest, -, -, -, -, hinv⟩
    · rw [heq]
      exact ⟨l, d, h⟩
    · exact ⟨l, rest, hinv⟩
  | free ha => exact ⟨l, d, h.frees ha⟩

/-- **the invariant holds in every state of a worker** -/
theorem PasswordWorker.Run.inv {dummyHash : Bytes} (h : PasswordWorker.Run passwords dummyHash s) :
    s.dummyHash = dummyHash ∧ ∃ l d, s.Inv passwords l d := by
  induction h with
  | new => exact ⟨rfl, _, _, .new dummyHash⟩
  | @step s1 s2 _ hs ih =>
    obtain ⟨rfl, l, d, hinv⟩ := ih
    refine ⟨?_, hinv.step hs⟩
    cases hs with
    | submit mem operation password storedHash data hfresh =>
      rcases submit_cases s1 mem operation password storedHash data with
        ⟨-, heq⟩ | ⟨a, string, buffer, -, -, -, -, -, -, heq⟩ <;>
      exact (congrArg PasswordWorker.dummyHash heq).trans rfl
    | thread hx =>
      unfold PasswordWorker.threadStep at hx
      repeat' split at hx
      all_goals cases hx
      all_goals rfl
    | stop hb hx =>
      obtain ⟨next, done, -, hsection⟩ := hinv.stopSection
      rw [hsection _ _ hx]
      rfl
    | pop =>
      unfold PasswordWorker.passwordWorkerPop
      split <;> rfl
    | _ => rfl

/-! ## the main result -/

/-- `s'` has the job of `sub` behind the pending jobs of `s` -/
def PasswordWorker.Queues (s s' : PasswordWorker) (sub : Submitted) : Prop :=
  s'.accepted = s.accepted ++ [sub] ∧
    ∃ a j l, Path s.next s.pending.head l ∧ Path s'.next s'.pending.head (l ++ [a]) ∧
    s'.job a = some j ∧
      j.operation = sub.operation ∧ j.data = sub.data ∧ j.input = sub.job s.dummyHash

theorem PasswordWorker.Inv.queues (h : s.Inv passwords l d) (sub : Submitted)
    (ha : s.job a = none) :
    s.Queues (s.enqueue a sub) sub := by
  obtain ⟨hl, -⟩ := h.unused ha
  refine ⟨rfl, a, sub.memory s.dummyHash, l, h.pending.path, (h.pending.push hl).path, ?_, rfl, rfl,
    memory_input s.dummyHash sub⟩
  exact Function.update_self a _ s.job

section
variable (passwords)

/-- the protocol of the queues -/
structure PasswordWorker.Protocol (s : PasswordWorker) : Prop where
  /-- the counter counts the pending jobs, which are at most 16 -/
  waiting : ∃ l, Path s.next s.pending.head l ∧ s.waiting = l.length ∧
    s.waiting ≤ PASSWORD_QUEUE_CAPACITY
  /-- a submission is popped at most once -/
  once : (s.popped.map Prod.fst).Nodup ∧ ∀ e ∈ s.popped, e.1 ∈ s.accepted
  /-- and exactly once when pops after the stop go on until none is left -/
  all : s.stopping = .returned → s.passwordWorkerPop.1 = none →
    (s.popped.map Prod.fst).Perm s.accepted
  /-- the computed ones are popped in the order of their submissions, and the cancelled ones are -/
  computedOrder : (computed s.popped).Sublist s.accepted
  cancelledOrder : (cancelled s.popped).Sublist s.accepted
  /-- what is popped was computed from its own password and hash, or was cancelled by the stop
  before it began -/
  outcome : ∀ e ∈ s.popped,
    (e.2.cancelled = false ∧ e.1 ∈ s.started ∧ JobResult passwords (e.1.job s.dummyHash) e.2) ∨
      (e.2 = cancel unfinished ∧ e.1 ∉ s.started ∧ s.stopped = true)
  /-- a pop hands out the job of a submission that was accepted: its operation, its data and its
  result, without the password and the hash -/
  popped : ∀ a, s.passwordWorkerPop.1 = some a → ∃ j, s.job a = some j ∧ j.Spent (s.origin a) ∧
    s.origin a ∈ s.accepted ∧ s.passwordWorkerPop.2.popped = s.popped ++ [(s.origin a, j.result)]
  /-- after the stop nothing is accepted and no job begins -/
  stopped : s.stopped = true → ∀ s', PasswordWorker.Step passwords s s' →
    s'.stopped = true ∧ s'.accepted = s.accepted ∧ s'.started = s.started
  /-- a submission that is queued is accepted as the caller made it, and its job is the last of the
  pending ones -/
  queued : ∀ mem operation password storedHash data, (∀ a ∈ mem, s.job a = none) →
    (s.passwordWorkerSubmit mem operation password storedHash data).1 = .queued →
    ∃ string buffer, password = some string ∧ string.ptr = some buffer ∧
      s.Queues (s.passwordWorkerSubmit mem operation password storedHash data).2.1
        ⟨s.accepted.length, operation, buffer.take string.len, storedHash, data⟩
  /-- a submission that is not queued changes nothing; in every case the text of the caller is
  wiped and freed -/
  submit : ∀ mem operation password storedHash data,
    ((s.passwordWorkerSubmit mem operation password storedHash data).1 ≠ .queued →
      (s.passwordWorkerSubmit mem operation password storedHash data).2.1 = s) ∧
    ∀ string buffer, password = some string → string.ptr = some buffer → ∃ freed,
      (s.passwordWorkerSubmit mem operation password storedHash data).2.2 = (some .null, [freed]) ∧
      freed.length = buffer.length ∧ freed.take string.len = List.replicate string.len 0
  /-- a verification without a stored hash does not succeed -/
  unknown : ∀ e ∈ s.popped, e.1.operation = .verify → e.1.storedHash = none → e.2.failure ≠ none
  /-- the critical section of the stop ends -/
  stops : ∃ fuel s', s.stopSection fuel = some s'

end

/-- the submissions that are accepted are all different -/
theorem PasswordWorker.Inv.accepted_nodup (h : s.Inv passwords l d) : s.accepted.Nodup :=
  List.Nodup.of_map Submitted.number (h.numbers ▸ List.nodup_range)

theorem computed_cancelled_perm (es : List (Submitted × PasswordResult)) :
    (es.map Prod.fst).Perm (computed es ++ cancelled es) := by
  unfold computed cancelled
  rw [← List.map_append]
  refine List.Perm.map _ ?_
  have hperm := List.filter_append_perm (fun e : Submitted × PasswordResult => e.2.cancelled) es
  exact hperm.symm.trans List.perm_append_comm

theorem PasswordWorker.Inv.popped_sublist (h : s.Inv passwords l d) :
    (computed s.popped).Sublist s.accepted ∧ (cancelled s.popped).Sublist s.accepted := by
  rw [h.accepted]
  unfold PasswordWorker.entries
  rw [computed_append, cancelled_append]
  refine ⟨?_, ?_⟩
  · rw [List.append_assoc]
    exact List.sublist_append_left _ _
  · exact ((List.sublist_append_left _ _).trans (List.sublist_append_right _ _)).trans
      (List.sublist_append_right _ _)

/-- the entries that were popped are different submissions, all of which were accepted -/
theorem PasswordWorker.Inv.popped_once (h : s.Inv passwords l d) :
    (s.popped.map Prod.fst).Nodup ∧ ∀ e ∈ s.popped, e.1 ∈ s.accepted := by
  have hsub : (s.popped.map Prod.fst).Subperm s.accepted := by
    refine ((computed_cancelled_perm s.popped).subperm).trans ?_
    rw [h.accepted]
    unfold PasswordWorker.entries
    rw [computed_append, cancelled_append]
    refine List.Sublist.subperm ?_
    refine List.Sublist.append (List.sublist_append_left _ _) ?_
    exact (List.sublist_append_left _ _).trans (List.sublist_append_right _ _)
  obtain ⟨l', hperm, hl'⟩ := hsub
  exact ⟨hperm.nodup_iff.1 (h.accepted_nodup.sublist hl'), fun e he =>
    hl'.subset (hperm.mem_iff.2 (List.mem_map_of_mem he))⟩

theorem mem_computed {es : List (Submitted × PasswordResult)} {e : Submitted × PasswordResult}
    (he : e ∈ es) (hc : e.2.cancelled = false) : e.1 ∈ computed es :=
  List.mem_map_of_mem (List.mem_filter.2 ⟨he, by rw [hc]; rfl⟩)

theorem mem_cancelled {es : List (Submitted × PasswordResult)} {e : Submitted × PasswordResult}
    (he : e ∈ es)
    (hc : e.2.cancelled = true) : e.1 ∈ cancelled es :=
    List.mem_map_of_mem (List.mem_filter.2 ⟨he, hc⟩)

/-- what a step does once the worker is stopped -/
theorem PasswordWorker.Inv.after_stop (h : s.Inv passwords l d) (hst : s.stopped = true)
    (hs : PasswordWorker.Step passwords s s') :
    s'.stopped = true ∧ s'.accepted = s.accepted ∧ s'.started = s.started := by
  cases hs with
  | submit mem operation password storedHash data hfresh =>
    rcases submit_cases s mem operation password storedHash data with
      ⟨-, heq⟩ | ⟨a, string, buffer, -, -, -, hno, -⟩
    · rw [heq]
      exact ⟨hst, rfl, rfl⟩
    · rw [hst] at hno
      cases hno
  | thread hx =>
    unfold PasswordWorker.threadStep at hx
    split at hx
    · split at hx
      · cases hx
        exact ⟨hst, rfl, rfl⟩
      · next hno => exact absurd hst hno
    · cases hx
      exact ⟨hst, rfl, rfl⟩
    · cases hx
      exact ⟨hst, rfl, rfl⟩
    · cases hx
  | stop hb hx =>
    have := h.stopping.1 hb
    rw [hst] at this
    cases this
  | pop =>
    unfold PasswordWorker.passwordWorkerPop
    split <;> exact ⟨hst, rfl, rfl⟩
  | _ => exact ⟨hst, rfl, rfl⟩

theorem consumePassword_wipes {string : StringT} {buffer : Bytes}
    (hptr : string.ptr = some buffer) :
    ∃ freed, consumePassword (some string) = (some .null, [freed]) ∧ freed.length = buffer.length ∧
      freed.take string.len = List.replicate string.len 0 := by
  have hfits := string.fits buffer (by rw [hptr]; rfl)
  refine ⟨List.replicate string.len 0 ++ buffer.drop string.len, ?_, ?_, ?_⟩
  · show (match string.ptr with | none => _ | some buffer => _) = _
    rw [hptr]
  · rw [List.length_append, List.length_replicate, List.length_drop]
    omega
  · rw [List.take_left' List.length_replicate]

/-- **what is submitted comes back once, computed or cancelled**, however submissions, pops, the
worker and one stop interleave -/
theorem password_worker_protocol {dummyHash : Bytes}
    (hrun : PasswordWorker.Run passwords dummyHash s) :
    s.Protocol passwords := by
  obtain ⟨-, l, d, h⟩ := hrun.inv
  have hnodup := h.accepted_nodup
  refine ⟨⟨l, h.pending.path, h.waiting, h.waiting ▸ h.bound⟩, h.popped_once, ?_,
    h.popped_sublist.1, h.popped_sublist.2,
    ?_, ?_, fun hst s' => h.after_stop hst, ?_, ?_, ?_, ⟨_, h.stop_returns⟩⟩
  · intro hret hnone
    have hex := h.returned hret
    obtain rfl := h.stopped (h.exited hex)
    rcases h.pops with ⟨rfl, -⟩ | ⟨a, j, rest, -, -, hsome, -⟩
    · refine (computed_cancelled_perm s.popped).trans ?_
      rw [h.accepted, hex, PasswordWorker.entries]
      simp [JobThread.node]
    · rw [hnone] at hsome
      cases hsome
  · intro e he
    have hmem : e ∈ s.entries d := List.mem_append_left _ he
    rcases h.popped e he with ⟨hc, hr⟩ | hcan
    · refine .inl ⟨hc, ?_, hr⟩
      rw [h.started]
      exact List.mem_append_left _ (mem_computed hmem hc)
    · refine .inr ⟨hcan, ?_, ?_⟩
      · intro hstart
        rw [h.started] at hstart
        have hcanc : e.1 ∈ cancelled (s.entries d) := mem_cancelled hmem (by rw [hcan]; rfl)
        have hacc := hnodup
        rw [h.accepted, List.map_append, List.append_assoc] at hacc
        rcases List.mem_append.1 hstart with hs | hs
        · exact (List.nodup_append.1 hacc).2.2 _ hs _ (by simp [hcanc]) rfl
        · exact (List.nodup_append.1 (List.nodup_append.1 hacc).2.1).2.2 _ hs _
            (by simp [hcanc]) rfl
      · cases hst : s.stopped with
        | true => rfl
        | false =>
          have hcanc : e.1 ∈ cancelled (s.entries d) := mem_cancelled hmem (by rw [hcan]; rfl)
          rw [h.running hst] at hcanc
          cases hcanc
  · intro a ha
    rcases h.pops with ⟨-, heq⟩ | ⟨b, j, rest, rfl, hj, hsome, hpop, hinv⟩
    · rw [heq] at ha
      cases ha
    · rw [hsome] at ha
      cases ha
      obtain ⟨j', hj', hspent, -⟩ := h.settled _ List.mem_cons_self
      rw [hj] at hj'
      cases hj'
      have hmem := hinv.popped_once.2 (s.origin a, j.result) (by rw [hpop]; simp)
      exact ⟨j, hj, hspent, pop_accepted s ▸ hmem, hpop⟩
  · intro mem operation password storedHash data hfresh hq
    rcases submit_cases s mem operation password storedHash data with
      ⟨hne, -⟩ | ⟨a, string, buffer, rfl, hpassword, hptr, -, -, -, heq⟩
    · exact absurd hq hne
    · rw [heq]
      exact ⟨string, buffer, hpassword, hptr, h.queues _ (hfresh a rfl)⟩
  · intro mem operation password storedHash data
    refine ⟨fun hne => ?_, ?_⟩
    · rcases submit_cases s mem operation password storedHash data with
        ⟨-, heq⟩ | ⟨a, string, buffer, -, -, -, -, -, hq, -⟩
      · exact heq
      · exact absurd hq hne
    · rintro string buffer rfl hptr
      rw [submit_consumes]
      exact consumePassword_wipes hptr
  · intro e he ho hno
    rcases h.popped e he with ⟨-, hr⟩ | hcan
    · refine jobResult_unknown hr ?_ ?_
      · unfold Submitted.job
        rw [ho]
      · unfold Submitted.job
        rw [ho, hno]
        rfl
    · rw [hcan]
      exact nofun

end

/-! ## a computed and a cancelled job -/

/-- the next step of the thread -/
def PasswordWorker.advance (s : PasswordWorker) : PasswordWorker :=
  match s.thread with
  | .running a =>
    match s.job a with
    | none => s
    | some j =>
      { s.settle a fun _ => runJob samplePasswords sampleHash j.input with thread := .executed a }
  | _ => s.threadStep.getD s

theorem advance_run {dummyHash : Bytes} {s : PasswordWorker}
    (h : PasswordWorker.Run samplePasswords dummyHash s) :
    PasswordWorker.Run samplePasswords dummyHash s.advance := by
  unfold PasswordWorker.advance
  split
  · next a hw =>
    split
    · exact h
    · next j hj =>
      exact h.step (.compute _ hw hj
        (runJob_result (fun p h hh => (Option.some.inj hh).symm) j.input))
  · cases hs : s.threadStep with
    | none => exact h
    | some s' => exact h.step (.thread hs)

def sampleString : StringT := ⟨some (ascii "correct horse"), 13, by
  intro buffer hb
  cases hb
  decide +kernel⟩

def sampleDummy : Bytes := ascii "$argon2id$dummy"

/-- a job is submitted and taken, another one is submitted, and the worker is stopped -/
def sampleWorker : PasswordWorker :=
  let s := ((PasswordWorker.new sampleDummy).passwordWorkerSubmit (some 0) .hash (some sampleString)
    none 7).2.1.advance
  let s := (s.passwordWorkerSubmit (some 1) .verify (some sampleString) none 8).2.1
  (s.stopSection 2).getD s

theorem sampleWorker_run : PasswordWorker.Run samplePasswords sampleDummy sampleWorker := by
  have h1 : PasswordWorker.Run samplePasswords sampleDummy
      ((PasswordWorker.new sampleDummy).passwordWorkerSubmit (some 0) .hash (some sampleString) none
        7).2.1.advance := by
    apply advance_run
    exact PasswordWorker.Run.new.step (.submit _ _ _ _ _ fun a ha => rfl)
  have h2 := h1.step (.submit (some 1) .verify (some sampleString) none 8
    fun a ha => by cases ha; decide +kernel)
  unfold sampleWorker
  dsimp only
  cases hs : PasswordWorker.stopSection _ 2 with
  | none => exact h2
  | some s' => exact h2.step (.stop (by decide +kernel) hs)

/-- both jobs are popped behind the stop -/
theorem password_worker_protocol_stopped :
    sampleWorker.advance.advance.passwordWorkerPop.2.passwordWorkerPop.2.popped.map
    (fun e => (e.1.data, e.2)) =
        [(8, cancel unfinished), (7, { failure := none, hash := ascii "$argon2id$correct horse" })]
        ∧
      sampleWorker.advance.advance.passwordWorkerPop.2.passwordWorkerPop.2.Protocol
        samplePasswords :=
  ⟨by decide +kernel,
    password_worker_protocol (((advance_run (advance_run sampleWorker_run)).step .pop).step .pop)⟩

end Workers
