import CtfServer.Workers.DbPool
import CtfServer.Lib.Memory

/-!
# The copies of the parameters

`db_exec_query_param` of db.c with its pointers: one allocation holds the task, the array of its
parameters and their strings.  A run is `none` where the code has no defined behaviour: an octet is
read or written that is not there, `memcpy` is given overlapping ranges, or a `size_t` wraps.

* `sizeLoop`, `fillLoop`     the two loops over the parameters;
* `dbExecQueryParam`         the function;
* `sizeLoop_total`           **the size never wraps**;
* `fillLoop_spec`            what the second loop leaves in the memory that the first one counted;
* `exec_query_param_copies`  **the parameters are copied deeply, or nothing happens**.
-/

set_option linter.unusedVariables false
set_option linter.unusedSimpArgs false

namespace Workers

open LinkedQueue Memory

/-! ## the memory -/

/-- `db_param_t`, its union as its type says; the pointer 0 is `NULL` -/
inductive DbParamT where
  | string (ptr len : Nat)
  | int64 (value : Int)
  | null
  /-- a type that is none of the three -/
  | other (type : Int)
  deriving DecidableEq, Repr

/-- the fields of `db_task_t` without its link; its query and the strings are octets of the
memory -/
structure DbTaskT where
  result : Nat
  data : Nat
  isParamQuery : Int
  queryLen : Nat
  paramCount : Nat
  params : List DbParamT
  deriving DecidableEq, Repr

/-- octets, tasks and their links, by address -/
structure DbMemory where
  bytes : Mem
  task : Nat → Option DbTaskT
  next : Nat → Option Nat

structure TaskQueueT where
  ends : Ends Nat
  stop : Bool
  deriving DecidableEq, Repr

/-- `db_pool_t`, as far as it is looked at -/
structure DbPoolT where
  taskQueue : Option TaskQueueT
  deriving DecidableEq, Repr

/-! ## the function -/

/-- the value of a sum of `size_t`s that does not wrap -/
def sizeT (n : Nat) : Option Nat := if n ≤ SIZE_MAX then some n else none

/-- the loop that counts `n` parameters; its result is `none` for `return -1` -/
def sizeLoop : Nat → List DbParamT → Nat → Option (Option Nat)
  | 0, _, size => some (some size)
  | _ + 1, [], _ => none
  | n + 1, .string ptr len :: rest, size =>
    if (ptr = 0 ∧ len ≠ 0) ∨ len > ULONG_MAX ∨ len ≥ SIZE_MAX - size then some none
    else (sizeT (len + 1)).bind fun more => (sizeT (size + more)).bind (sizeLoop n rest)
  | n + 1, .int64 _ :: rest, size => sizeLoop n rest size
  | n + 1, .null :: rest, size => sizeLoop n rest size
  | _ + 1, .other _ :: _, _ => some none

/-- the loop that copies `n` parameters, the strings to `strings` -/
def fillLoop : Nat → List DbParamT → Mem → Nat → Option (Mem × List DbParamT)
  | 0, _, mem, _ => some (mem, [])
  | _ + 1, [], _, _ => none
  | n + 1, .string ptr len :: rest, mem, strings =>
    (if len ≠ 0 then memcpy mem strings ptr len else some mem).bind fun mem =>
      (store mem (strings + len) [0]).bind fun mem =>
        (fillLoop n rest mem (strings + (len + 1))).map fun r => (r.1, .string strings len :: r.2)
  | n + 1, param :: rest, mem, strings =>
    (fillLoop n rest mem strings).map fun r => (r.1, param :: r.2)

/-- `db_exec_query_param` from its first `calloc`, with `room` for the result -/
def copyTask (calloc : Nat → Option Nat) (room : Option Nat) (m : DbMemory) (queue : TaskQueueT)
    (query queryLen : Nat) (params : List DbParamT) (paramCount data size : Nat) :
    Option (Int × DbMemory × Option DbPoolT) :=
  match calloc size with
  | none => some (-1, m, some ⟨some queue⟩)
  | some task =>
    let bytes := zeroed m.bytes task size
    match room with
    | none => some (-1, { m with bytes := freed bytes task size }, some ⟨some queue⟩)
    | some result =>
      (memcpy bytes task query queryLen).bind fun bytes =>
        (fillLoop paramCount params bytes (task + sizeofDbTask + paramCount * sizeofDbParam)).map
          fun r =>
          (0, { bytes := r.1
                task := Function.update m.task task (some ⟨result, data, 1, queryLen, paramCount, r.2⟩)
                next := (push m.next queue.ends task).1 },
            some ⟨some { queue with ends := (push m.next queue.ends task).2 }⟩)

/-- `db_exec_query_param`, with the memory and the pool that it leaves -/
def dbExecQueryParam (calloc : Nat → Option Nat) (room : Option Nat) (m : DbMemory)
    (pool : Option DbPoolT)
    (query queryLen : Nat) (params : Option (List DbParamT)) (paramCount data : Nat) :
    Option (Int × DbMemory × Option DbPoolT) :=
  match pool with
  | some ⟨some queue⟩ =>
    if queue.stop ∨ query = 0 ∨ queryLen = 0 ∨ queryLen ≥ DEFAULT_QUERY_SIZE then some (-1, m, pool)
    else
      (memchrNul m.bytes query queryLen).bind fun nul =>
        if nul = true ∨ (paramCount ≠ 0 ∧ params = none) then some (-1, m, pool)
        else if paramCount > (SIZE_MAX - sizeofDbTask) / sizeofDbParam then some (-1, m, pool)
        else
          (sizeT (paramCount * sizeofDbParam)).bind fun array =>
            (sizeT (sizeofDbTask + array)).bind fun size =>
              (sizeLoop paramCount (params.getD []) size).bind fun size =>
                match size with
                | none => some (-1, m, pool)
                | some size =>
                  copyTask calloc room m queue query queryLen (params.getD []) paramCount data size
  | _ => some (-1, m, pool)

/-! ## what is said about a copy -/

/-- `copy` is a copy of `param`: its string is one of the octets `after`, with a NUL -/
inductive Copied (before after : Mem) : DbParamT → DbParamT → Prop where
  | string {ptr copy : Nat} {text : Bytes} (h : Reads before ptr text)
      (hcopy : Reads after copy (text ++ [0])) :
      Copied before after (.string ptr text.length) (.string copy text.length)
  | int64 (value : Int) : Copied before after (.int64 value) (.int64 value)
  | null : Copied before after .null .null

/-- the place of a string with its NUL -/
def span : DbParamT → Option (Nat × Nat)
  | .string ptr len => some (ptr, len + 1)
  | _ => none

/-- the strings lie inside of a range, one behind the other -/
structure Laid (start stop : Nat) (params : List DbParamT) : Prop where
  inside : ∀ s ∈ params.filterMap span, start ≤ s.1 ∧ s.1 + s.2 ≤ stop
  disjoint : (params.filterMap span).Pairwise fun s s' => s.1 + s.2 ≤ s'.1

/-- the size that the strings of parameters need -/
def stringsSize (params : List DbParamT) : Nat := ((params.filterMap span).map Prod.snd).sum

/-- the task `t` at `task` has the query and the parameters, in a memory `after` -/
structure Content (before after : Mem) (task query queryLen : Nat) (params : List DbParamT)
    (t : DbTaskT) : Prop where
  query : ∃ text, text.length = queryLen ∧ Reads before query text ∧ Reads after task (text ++ [0])
  params : List.Forall₂ (Copied before after) params t.params

/-- the task at `task`, whose allocation has `size` octets, is a deep copy of the arguments -/
structure DeepCopy (m m' : DbMemory) (task size query queryLen : Nat)
    (params : List DbParamT) (data : Nat) (t : DbTaskT) : Prop where
  stored : m'.task task = some t
  fields : t.data = data ∧ t.isParamQuery = 1 ∧ t.queryLen = queryLen ∧ t.paramCount = params.length
  counted : size = sizeofDbTask + params.length * sizeofDbParam + stringsSize params ∧
    size ≤ SIZE_MAX
  /-- the allocation is new, and nothing else changes -/
  fresh : ∀ x, task ≤ x → x < task + size → m.bytes x = none
  others : ∀ x, x < task ∨ task + size ≤ x → m'.bytes x = m.bytes x
  otherTasks : ∀ a, a ≠ task → m'.task a = m.task a
  /-- whatever becomes of the octets that were there before -/
  content : ∀ after : Mem, (∀ x, m.bytes x = none → after x = m'.bytes x) →
    Content m.bytes after task query queryLen params t
  /-- behind the fields and the array, whose octets no string touches -/
  laid : Laid (task + sizeofDbTask + params.length * sizeofDbParam) (task + size) t.params
  untouched : ∀ x, task + DEFAULT_QUERY_SIZE ≤ x → x < task + sizeofDbTask + params.length *
    sizeofDbParam →
    m'.bytes x = some 0

/-- what `calloc` promises -/
structure Allocates (m : DbMemory) (calloc : Nat → Option Nat) : Prop where
  new : ∀ size a, calloc size = some a → a ≠ 0 ∧ a + size ≤ SIZE_MAX + 1 ∧ m.task a = none ∧
    ∀ x, a ≤ x → x < a + size → m.bytes x = none

/-- what a caller owes: the query, the array and the strings of what is not refused can be read -/
structure Arguments (m : DbMemory) (query queryLen : Nat) (params : Option (List DbParamT))
    (paramCount : Nat) : Prop
    where
  query : query ≠ 0 → queryLen < DEFAULT_QUERY_SIZE → Accessible m.bytes query queryLen
  array : ∀ l, params = some l → paramCount ≤ (SIZE_MAX - sizeofDbTask) / sizeofDbParam →
    paramCount ≤ l.length
  strings : ∀ l size, params = some l →
    sizeLoop paramCount l (sizeofDbTask + paramCount * sizeofDbParam) = some (some size) →
    ∀ ptr len, .string ptr len ∈ l.take paramCount → Accessible m.bytes ptr len

/-! ## the first loop -/

section
variable {n size total : Nat} {ps : List DbParamT} {ptr len : Nat}

theorem sizeT_eq (h : size ≤ SIZE_MAX) : sizeT size = some size := if_pos h

/-- **the size never wraps**, for any lengths -/
theorem sizeLoop_total (hlen : n ≤ ps.length) (hsize : size ≤ SIZE_MAX) :
    ∃ r, sizeLoop n ps size = some r := by
  induction n generalizing ps size with
  | zero => exact ⟨_, rfl⟩
  | succ n ih =>
    cases ps with
    | nil => cases hlen
    | cons p ps =>
      have hrest : n ≤ ps.length := Nat.le_of_succ_le_succ hlen
      cases p with
      | string ptr len =>
        unfold sizeLoop
        split
        · exact ⟨_, rfl⟩
        · next hguard =>
          rw [sizeT_eq (by omega), Option.bind_some, sizeT_eq (by omega), Option.bind_some]
          exact ih hrest (by omega)
      | int64 value => exact ih hrest hsize
      | null => exact ih hrest hsize
      | other type => exact ⟨_, rfl⟩

/-- a string that is counted -/
theorem sizeLoop_string (h : sizeLoop (n + 1) (.string ptr len :: ps) size = some (some total)) :
    (ptr = 0 → len = 0) ∧ sizeLoop n ps (size + (len + 1)) = some (some total) := by
  unfold sizeLoop at h
  split at h
  · cases Option.some.inj h
  · next hguard =>
    obtain ⟨more, hmore, h⟩ := Option.bind_eq_some_iff.mp h
    obtain ⟨sum, hsum, h⟩ := Option.bind_eq_some_iff.mp h
    unfold sizeT at hmore hsum
    split at hmore <;> cases hmore
    split at hsum <;> cases hsum
    exact ⟨fun hptr => by_contra fun hne => hguard (.inl ⟨hptr, hne⟩), h⟩

/-- what was counted: every parameter, with its type known -/
theorem sizeLoop_sum (h : sizeLoop n ps size = some (some total)) (hsize : size ≤ SIZE_MAX) :
    n ≤ ps.length ∧ total = size + stringsSize (ps.take n) ∧ total ≤ SIZE_MAX := by
  induction n generalizing ps size with
  | zero =>
    cases h
    exact ⟨Nat.zero_le _, rfl, hsize⟩
  | succ n ih =>
    cases ps with
    | nil => cases h
    | cons p ps =>
      cases p with
      | string ptr len =>
        have hbound : size + (len + 1) ≤ SIZE_MAX := by
          unfold sizeLoop at h
          split at h
          · cases Option.some.inj h
          · omega
        obtain ⟨h1, h2, h3⟩ := ih (sizeLoop_string h).2 hbound
        refine ⟨Nat.succ_le_succ h1, ?_, h3⟩
        rw [h2]
        show size + (len + 1) + stringsSize (ps.take n) = size +
          ((len + 1) + stringsSize (ps.take n))
        omega
      | int64 value =>
        obtain ⟨h1, h2, h3⟩ := ih h hsize
        exact ⟨Nat.succ_le_succ h1, h2, h3⟩
      | null =>
        obtain ⟨h1, h2, h3⟩ := ih h hsize
        exact ⟨Nat.succ_le_succ h1, h2, h3⟩
      | other type => cases Option.some.inj h

end

/-! ## the second loop -/

section
variable {mem mem' before : Mem} {strings stop : Nat} {params copies : List DbParamT}

theorem Laid.nil (start stop : Nat) : Laid start stop [] :=
  ⟨List.forall_mem_nil _, List.Pairwise.nil⟩

/-- a string is laid before others -/
theorem Laid.string {len : Nat} (h : Laid (strings + (len + 1)) stop copies)
    (hroom : strings + (len + 1) ≤ stop) :
    Laid strings stop (.string strings len :: copies) where
  inside := by
    intro s hs
    rcases List.mem_cons.mp hs with rfl | hs
    · exact ⟨Nat.le_refl _, hroom⟩
    · obtain ⟨h1, h2⟩ := h.inside s hs
      exact ⟨by omega, h2⟩
  disjoint := List.pairwise_cons.mpr ⟨fun s hs => (h.inside s hs).1, h.disjoint⟩

/-- a parameter without a string -/
theorem Laid.plain {p : DbParamT} (hp : span p = none) (h : Laid strings stop copies) :
    Laid strings stop (p :: copies) := by
  have hspans : (p :: copies).filterMap span = copies.filterMap span := List.filterMap_cons_none hp
  exact ⟨hspans ▸ h.inside, hspans ▸ h.disjoint⟩

/-- the memory with a string at `strings`, and its NUL -/
def withString (mem : Mem) (strings : Nat) (text : Bytes) : Mem :=
  overwrite (overwrite mem strings text) (strings + text.length) [0]

theorem withString_other {text : Bytes} {x : Nat}
    (hx : x < strings ∨ strings + (text.length + 1) ≤ x) :
    withString mem strings text x = mem x := by
  unfold withString
  rw [overwrite_other (by simp only [List.length_singleton]; omega), overwrite_other (by omega)]

theorem reads_withString (mem : Mem) (strings : Nat) (text : Bytes) :
    Reads (withString mem strings text) strings (text ++ [0]) :=
  reads_append.mpr ⟨reads_overwrite.overwrite_other (.inl (Nat.le_refl _)), reads_overwrite⟩

/-- the two stores of a string -/
theorem copyString_eq {ptr : Nat} {text : Bytes} (hreads : Reads mem ptr text)
    (hacc : Accessible mem strings (text.length + 1))
    (hout : text = [] ∨ ptr + text.length ≤ strings ∨ strings + (text.length + 1) ≤ ptr) :
    ((if text.length ≠ 0 then memcpy mem strings ptr text.length else some mem).bind fun mem =>
      store mem (strings + text.length) [0]) = some (withString mem strings text) := by
  have hcopy : (if text.length ≠ 0 then memcpy mem strings ptr text.length else some mem) =
      some (overwrite mem strings text) := by
    split
    · next hne =>
      refine memcpy_eq hreads (hacc.sub (Nat.le_refl _) (by omega)) ?_
      rcases hout with rfl | h | h
      · exact absurd rfl hne
      · exact .inl h
      · exact .inr (by omega)
    · next heq =>
      rw [List.eq_nil_of_length_eq_zero (Decidable.not_not.mp heq)]
      congr 1
      funext x
      exact (overwrite_other (by simp only [List.length_nil]; omega)).symm
  rw [hcopy, Option.bind_some]
  refine store_eq (Accessible.overwrite (hacc.sub (Nat.le_add_right _ _) ?_))
  show strings + text.length + 1 ≤ _
  omega

/-- **what the second loop leaves**, in the memory that the first one counted -/
theorem fillLoop_spec {n size total : Nat} {ps : List DbParamT}
    (hcount : sizeLoop n ps size = some (some total))
    (hsize : size ≤ SIZE_MAX) (hstop : strings + (total - size) = stop)
    (hacc : Accessible mem strings (total - size))
    (hsource : ∀ ptr len, .string ptr len ∈ ps.take n → ∃ text, text.length = len ∧
      Reads before ptr text ∧
      Reads mem ptr text ∧ (text = [] ∨ ptr + text.length ≤ strings ∨ stop ≤ ptr)) :
    ∃ mem' copies, fillLoop n ps mem strings = some (mem', copies) ∧ Laid strings stop copies ∧
      (∀ x, x < strings ∨ stop ≤ x → mem' x = mem x) ∧
      ∀ after : Mem, (∀ x, strings ≤ x → x < stop → after x = mem' x) →
        List.Forall₂ (Copied before after) (ps.take n) copies := by
  induction n generalizing ps size mem strings with
  | zero => exact ⟨mem, [], rfl, Laid.nil _ _, fun x _ => rfl, fun _ _ => .nil⟩
  | succ n ih =>
    cases ps with
    | nil => cases hcount
    | cons p ps =>
      cases p with
      | string ptr len =>
        obtain ⟨hnull, hrest⟩ := sizeLoop_string hcount
        obtain ⟨text, rfl, hbefore, hreads, hout⟩ := hsource ptr len List.mem_cons_self
        have hguard : size + (text.length + 1) ≤ SIZE_MAX := by
          unfold sizeLoop at hcount
          split at hcount
          · cases Option.some.inj hcount
          · omega
        obtain ⟨-, hsum, -⟩ := sizeLoop_sum hrest hguard
        have hroom : strings + (text.length + 1) ≤ stop := by omega
        have hcopy := copyString_eq hreads (hacc.sub (Nat.le_refl _) (by omega))
          (hout.imp_right fun h =>
          h.imp_right fun h => Nat.le_trans hroom h)
        have hacc' : Accessible (withString mem strings text) (strings + (text.length + 1))
            (total - (size + (text.length + 1))) :=
          (hacc.sub (Nat.le_add_right _ _) (by omega)).overwrite.overwrite
        -- the rest of the sources is not where the string went
        have hsource' : ∀ ptr len, .string ptr len ∈ ps.take n → ∃ text', text'.length = len ∧
            Reads before ptr text' ∧ Reads (withString mem strings text) ptr text' ∧
            (text' = [] ∨ ptr + text'.length ≤ strings + (text.length + 1) ∨ stop ≤ ptr) := by
          intro ptr len hmem
          obtain ⟨text', hlen, hbefore', hreads', hout'⟩ :=
            hsource ptr len (List.mem_cons_of_mem _ hmem)
          refine ⟨text', hlen, hbefore', ?_, hout'.imp_right fun h => h.imp_left fun h => by omega⟩
          rcases hout' with rfl | hout'
          · exact Reads.nil _ _
          · exact hreads'.congr fun x h1 h2 => withString_other (by omega)
        obtain ⟨mem', copies, hfill, hlaid, hkept, hcopied⟩ :=
          ih hrest hguard (by omega) hacc' hsource'
        refine ⟨mem', .string strings text.length :: copies, ?_, hlaid.string hroom, ?_, ?_⟩
        · unfold fillLoop
          rw [← Option.bind_assoc, hcopy, Option.bind_some, hfill]
          rfl
        · intro x hx
          rw [hkept x (by omega), withString_other (by omega)]
        · intro after hafter
          refine .cons (.string hbefore ?_) (hcopied after fun x h1 h2 => hafter x (by omega) h2)
          refine (reads_withString mem strings text).congr fun x h1 h2 => ?_
          rw [List.length_append, List.length_singleton] at h2
          rw [hafter x h1 (by omega), hkept x (by omega)]
      | int64 value =>
        obtain ⟨mem', copies, hfill, hlaid, hkept, hcopied⟩ := ih hcount hsize hstop hacc
          fun ptr len hmem => hsource ptr len (List.mem_cons_of_mem _ hmem)
        refine ⟨mem', .int64 value :: copies, ?_, hlaid.plain rfl, hkept, fun after h =>
          .cons (.int64 value) (hcopied after h)⟩
        unfold fillLoop
        rw [hfill]
        rfl
      | null =>
        obtain ⟨mem', copies, hfill, hlaid, hkept, hcopied⟩ := ih hcount hsize hstop hacc
          fun ptr len hmem => hsource ptr len (List.mem_cons_of_mem _ hmem)
        refine ⟨mem', .null :: copies, ?_, hlaid.plain rfl, hkept, fun after h =>
          .cons .null (hcopied after h)⟩
        unfold fillLoop
        rw [hfill]
        rfl
      | other type => cases Option.some.inj hcount

end

/-! ## the allocation -/

section
variable {calloc : Nat → Option Nat} {room : Option Nat} {m : DbMemory} {pool : Option DbPoolT}
  {queue : TaskQueueT}
  {query queryLen paramCount data size task result : Nat} {ps : List DbParamT}

/-- the memory when the query is stored -/
def withQuery (m : DbMemory) (task size : Nat) (text : Bytes) : Mem :=
  overwrite (zeroed m.bytes task size) task text

/-- the query is read before, and stored where it is not -/
theorem memcpyQuery_eq {text : Bytes} (hquery : Reads m.bytes query text) (hpos : text ≠ [])
    (hfresh : ∀ x, task ≤ x → x < task + size → m.bytes x = none) (hlen : text.length ≤ size) :
    memcpy (zeroed m.bytes task size) task query text.length =
      some (withQuery m task size text) := by
  refine memcpy_eq (hquery.zeroed hfresh) (accessible_zeroed.sub (Nat.le_refl _) (by omega)) ?_
  rcases hquery.disjoint hfresh (Nat.le_refl _) (Nat.add_le_add_left hlen _)
    (List.length_pos_iff.mpr hpos) with h | h | h
  · exact .inl h
  · exact .inr h
  · exact absurd h hpos

/-- a string of the caller is not in the allocation -/
theorem source_withQuery {text source : Bytes} {ptr : Nat} (hsource : Reads m.bytes ptr source)
    (hfresh : ∀ x, task ≤ x → x < task + size → m.bytes x = none) (hlen : text.length ≤ size)
    (hpos : 0 < size) :
    Reads (withQuery m task size text) ptr source ∧
      (source = [] ∨ ptr + source.length ≤ task ∨ task + size ≤ ptr) := by
  rcases hsource.disjoint hfresh (Nat.le_refl _) (Nat.le_refl _) hpos with h | h | rfl
  · exact ⟨(hsource.zeroed hfresh).overwrite_other (.inl h), .inr (.inl h)⟩
  · exact ⟨(hsource.zeroed hfresh).overwrite_other (.inr (by omega)), .inr (.inr h)⟩
  · exact ⟨Reads.nil _ _, .inl rfl⟩

/-- the octets of the allocation that no string is written to -/
theorem withQuery_zero {text : Bytes} {x : Nat} (h1 : task + text.length ≤ x)
    (h2 : x < task + size) :
    withQuery m task size text x = some 0 := by
  unfold withQuery
  rw [overwrite_other (.inr h1), zeroed_self (by omega) h2]

theorem withQuery_other {text : Bytes} {x : Nat} (hlen : text.length ≤ size)
    (hx : x < task ∨ task + size ≤ x) :
    withQuery m task size text x = m.bytes x := by
  unfold withQuery
  rw [overwrite_other (by omega), zeroed_other hx]

/-- the task is built, or there is no memory and nothing changes -/
theorem copyTask_spec (hcalloc : Allocates m calloc)
    (hheader : sizeofDbTask + paramCount * sizeofDbParam ≤ SIZE_MAX)
    (hcount : sizeLoop paramCount ps (sizeofDbTask + paramCount * sizeofDbParam) = some (some size))
    (hquery : Accessible m.bytes query queryLen) (hpos : queryLen ≠ 0)
    (hshort : queryLen < DEFAULT_QUERY_SIZE)
    (hstrings : ∀ ptr len, .string ptr len ∈ ps.take paramCount → Accessible m.bytes ptr len) :
    copyTask calloc room m queue query queryLen ps paramCount data size =
      some (-1, m, some ⟨some queue⟩) ∨
      ∃ task m' t, copyTask calloc room m queue query queryLen ps paramCount data size =
          some (0, m', some ⟨some { queue with ends := (push m.next queue.ends task).2 }⟩) ∧
        m'.next = (push m.next queue.ends task).1 ∧ m.task task = none ∧
        DeepCopy m m' task size query queryLen (ps.take paramCount) data t := by
  obtain ⟨hlength, hsum, hmax⟩ := sizeLoop_sum hcount hheader
  have hparams : (ps.take paramCount).length = paramCount := List.length_take_of_le hlength
  have hdefault : DEFAULT_QUERY_SIZE = 256 := rfl
  have htask : sizeofDbTask = 304 := rfl
  unfold copyTask
  cases ha : calloc size with
  | none => exact .inl rfl
  | some task =>
    obtain ⟨-, hspace, hnone, hfresh⟩ := hcalloc.new size task ha
    cases room with
    | none =>
      refine .inl ?_
      show some (_, { m with bytes := freed (zeroed m.bytes task size) task size }, _) = _
      rw [freed_zeroed hfresh]
    | some result =>
      obtain ⟨text, rfl, htext⟩ := hquery.reads
      have hne : text ≠ [] := fun h => hpos (congrArg List.length h)
      have hacc : Accessible (withQuery m task size text)
        (task + sizeofDbTask + paramCount * sizeofDbParam)
          (size - (sizeofDbTask + paramCount * sizeofDbParam)) :=
        Accessible.overwrite (accessible_zeroed.sub (by omega) (by omega))
      have hsource : ∀ ptr len, .string ptr len ∈ ps.take paramCount → ∃ source,
        source.length = len ∧
          Reads m.bytes ptr source ∧ Reads (withQuery m task size text) ptr source ∧
          (source = [] ∨ ptr + source.length ≤ task + sizeofDbTask + paramCount * sizeofDbParam ∨
            task + size ≤ ptr) := by
        intro ptr len hmem
        obtain ⟨source, hlen, hreads⟩ := (hstrings ptr len hmem).reads
        have htextSize : text.length ≤ size := by omega
        obtain ⟨h1, h2⟩ := source_withQuery hreads hfresh htextSize (by omega)
        exact ⟨source, hlen, hreads, h1, h2.imp_right fun h => h.imp_left fun h => by omega⟩
      obtain ⟨mem', copies, hloop, hlaid, hkept, hcopied⟩ := fillLoop_spec hcount hheader
        (by omega) hacc hsource
      refine .inr ⟨task, ⟨mem', Function.update m.task task
        (some ⟨result, data, 1, text.length, paramCount, copies⟩),
        (push m.next queue.ends task).1⟩, ⟨result, data, 1, text.length, paramCount, copies⟩, ?_,
          rfl, hnone, ?_⟩
      · dsimp only
        rw [memcpyQuery_eq htext hne hfresh (by omega), Option.bind_some, hloop]
        rfl
      · exact {
          stored := Function.update_self ..
          fields := ⟨rfl, rfl, rfl, hparams.symm⟩
          counted := ⟨by rw [hparams]; exact hsum, hmax⟩
          fresh := hfresh
          others := fun x hx => (hkept x (by omega)).trans (withQuery_other (by omega) hx)
          otherTasks := fun a hne => Function.update_of_ne hne ..
          content := by
            intro after hafter
            have hin : ∀ x, task ≤ x → x < task + size → after x = mem' x := fun x h1 h2 =>
              hafter x (hfresh x h1 h2)
            refine ⟨⟨text, rfl, htext, ?_⟩, hcopied after fun x h1 h2 => hin x (by omega) h2⟩
            have hzero : Reads (withQuery m task size text) task (text ++ [0]) := by
              refine reads_append.mpr ⟨reads_overwrite, reads_cons.mpr ⟨?_, Reads.nil _ _⟩⟩
              exact withQuery_zero (Nat.le_refl _) (by omega)
            refine hzero.congr fun x h1 h2 => ?_
            rw [List.length_append, List.length_singleton] at h2
            rw [hin x h1 (by omega), hkept x (by omega)]
          laid := by rw [hparams]; exact hlaid
          untouched := by
            intro x h1 h2
            rw [hparams] at h2
            exact (hkept x (.inl h2)).trans (withQuery_zero (by omega) (by omega)) }

end

/-! ## the parameters are copied -/

section
variable {calloc : Nat → Option Nat} {room : Option Nat} {m : DbMemory} {pool : Option DbPoolT}
  {query queryLen paramCount data : Nat} {params : Option (List DbParamT)}

/-- **The parameters are copied deeply, or nothing happens.** `db_exec_query_param` fails and leaves
the memory and the queue as they were, or it adds one task at the end of the queue: its own
allocation, of a size that did not wrap, holds the query, the parameters and NUL-terminated copies
of their strings, which lie behind the array and apart from each other; no change to what was in the
memory before reaches them. -/
theorem exec_query_param_copies (hcalloc : Allocates m calloc)
    (hargs : Arguments m query queryLen params paramCount) :
    dbExecQueryParam calloc room m pool query queryLen params paramCount data = some (-1, m, pool) ∨
      ∃ queue ends task size m' t, pool = some ⟨some queue⟩ ∧
        dbExecQueryParam calloc room m pool query queryLen params paramCount data =
          some (0, m', some ⟨some { queue with ends := ends }⟩) ∧
        (∀ nodes, Holds m.next queue.ends nodes → (∀ a ∈ nodes, (m.task a).isSome) →
          Holds m'.next ends (nodes ++ [task])) ∧
        ((params.getD []).take paramCount).length = paramCount ∧
        DeepCopy m m' task size query queryLen ((params.getD []).take paramCount) data t := by
  unfold dbExecQueryParam
  split
  · next queue =>
    split
    · exact .inl rfl
    next hquery =>
    simp only [not_or, Nat.not_le] at hquery
    obtain ⟨hstop, hnull, hpos, hshort⟩ := hquery
    have haccess := hargs.query hnull hshort
    obtain ⟨text, hlen, htext⟩ := haccess.reads
    rw [← hlen, memchrNul_eq htext, hlen, Option.bind_some]
    split
    · exact .inl rfl
    next hnul =>
    split
    · exact .inl rfl
    next hmany =>
    have hcount := Nat.not_lt.mp hmany
    have hbound : paramCount * sizeofDbParam ≤ SIZE_MAX - sizeofDbTask :=
      (Nat.le_div_iff_mul_le (by decide)).mp hcount
    have hheader : sizeofDbTask + paramCount * sizeofDbParam ≤ SIZE_MAX := by
      have : sizeofDbTask ≤ SIZE_MAX := by decide
      omega
    rw [sizeT_eq (by omega), Option.bind_some, sizeT_eq hheader, Option.bind_some]
    have harray : paramCount ≤ (params.getD []).length := by
      cases params with
      | none => exact Nat.le_of_eq (by_contra fun h => hnul (.inr ⟨h, rfl⟩))
      | some l => exact hargs.array l rfl hcount
    obtain ⟨r, hr⟩ := sizeLoop_total harray hheader
    rw [hr, Option.bind_some]
    cases r with
    | none => exact .inl rfl
    | some size =>
      have hstrings : ∀ ptr len, .string ptr len ∈ (params.getD []).take paramCount →
        Accessible m.bytes ptr len := by
        intro ptr len hmem
        cases params with
        | none => cases (List.take_nil ▸ hmem : DbParamT.string ptr len ∈ [])
        | some l => exact hargs.strings l size rfl hr ptr len hmem
      dsimp only
      rcases copyTask_spec hcalloc hheader hr haccess hpos hshort hstrings with
        h | ⟨task, m', t, h, hnext, hnone, hcopy⟩
      · exact .inl h
      · refine .inr ⟨queue, _, task, size, m', t, rfl, h, ?_, List.length_take_of_le harray, hcopy⟩
        intro nodes hholds hlive
        rw [hnext]
        refine hholds.push fun hmem => ?_
        have hsome := hlive task hmem
        rw [hnone] at hsome
        cases hsome
  · exact .inl rfl

/-- a query at 1000, followed by the string `ab` -/
def sampleMemory : DbMemory where
  bytes := fun x => if 1000 ≤ x then (ascii "DELETE ab")[x - 1000]? else none
  task := fun _ => none
  next := fun _ => none

def sampleCalloc (size : Nat) : Option Nat := if size ≤ 1000 then some 4096 else none

def sampleParams : List DbParamT := [.string 1007 2, .string 0 0, .int64 (-5), .null]

theorem allocates_sample : Allocates sampleMemory sampleCalloc where
  new := by
    intro size a h
    unfold sampleCalloc at h
    split at h
    · cases h
      refine ⟨by decide, ?_, rfl, fun x h1 _ => ?_⟩
      · unfold SIZE_MAX
        omega
      · show (if 1000 ≤ x then (ascii "DELETE ab")[x - 1000]? else none) = none
        have hlen : (ascii "DELETE ab").length = 9 := by decide
        rw [if_pos (by omega), List.getElem?_eq_none (by omega)]
    · cases h

theorem arguments_sample : Arguments sampleMemory 1000 6 (some sampleParams) 4 where
  query := fun _ _ => show ∀ i, i < 6 → (sampleMemory.bytes (1000 + i)).isSome by decide
  array := fun l hl _ => by
    cases hl
    decide
  strings := by
    intro l size hl _ ptr len hmem
    cases hl
    have hcases : (DbParamT.string ptr len = .string 1007 2) ∨
      (DbParamT.string ptr len = .string 0 0) := by
      simpa [sampleParams] using hmem
    rcases hcases with h | h
    · cases h
      exact show ∀ i, i < 2 → (sampleMemory.bytes (1007 + i)).isSome by decide
    · cases h
      exact fun i hi => absurd hi (Nat.not_lt_zero i)

theorem exec_query_param_copies_sample :
    ∃ m' ends task t, dbExecQueryParam sampleCalloc (some 16) sampleMemory
    (some ⟨some ⟨{}, false⟩⟩) 1000 6
        (some sampleParams) 4 7 = some (0, m', some ⟨some ⟨ends, false⟩⟩) ∧
      Holds m'.next ends [task] ∧ DeepCopy sampleMemory m' task 404 1000 6 sampleParams 7 t := by
  have hret : (dbExecQueryParam sampleCalloc (some 16) sampleMemory (some ⟨some ⟨{}, false⟩⟩) 1000 6
      (some sampleParams) 4 7).map Prod.fst = some 0 := by decide
  rcases exec_query_param_copies allocates_sample arguments_sample with
    h | ⟨queue, ends, task, size, m', t, hpool, h, hq, -, hcopy⟩
  · rw [h] at hret
    cases hret
  · cases hpool
    have hsize : size = 404 := hcopy.counted.1
    rw [hsize] at hcopy
    exact ⟨m', ends, task, t, h, hq [] (Holds.empty _) (List.forall_mem_nil _), hcopy⟩

end

end Workers
