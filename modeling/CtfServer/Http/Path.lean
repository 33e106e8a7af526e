import CtfServer.Lib.Bytes

/-!
# `normalize_path`: a path normalised in its own buffer

`normalize_path` (http_request_path.c) reads the segments of a path from left to right and writes
the normalised path over the bytes it has read.  `".."` finds the segment to remove by scanning
the written bytes backwards.

* `normalizedPath`     what the function is for: the segments on a stack, joined again;
* `pathTurn`           one turn of the loop; a read or a store outside the buffer is `none`;
* `normalizePath`      the function: `none` for a fault, else the result (`none` for `-1`) and
                       the buffer it leaves;
* `PathReach`          the states of the loop;
* `PathInv`            what holds of them: the written bytes spell the stack, and the bytes
                       from the read position on are still those of the path;
* `normalizePath_stack`  the function returns what the stack definition says, writes nothing
                       that is still to be read, and a second run changes nothing.
-/

set_option linter.unusedVariables false
set_option linter.unusedSimpArgs false

namespace Http

def SLASH : UInt8 := 47
def DOT : UInt8 := 46

/-! ## what the function is for -/

/-- one segment on the stack, whose top is the head; `none` if `..` meets the empty stack -/
def pushSegment (st : List Bytes) (seg : Bytes) : Option (List Bytes) :=
  if seg = [] ∨ seg = [DOT] then some st
  else if seg = [DOT, DOT] then
    match st with
    | [] => none
    | _ :: st => some st
  else some (seg :: st)

/-- the segments from left to right -/
def pushSegments : List Bytes → List Bytes → Option (List Bytes)
  | st, [] => some st
  | st, seg :: segs => (pushSegment st seg).bind (pushSegments · segs)

/-- the path of a stack -/
def joinSegments (st : List Bytes) : Bytes := SLASH :: [SLASH].intercalate st.reverse

/-- the normal form of `p`, if it has one -/
def normalizedPath (p : Bytes) : Option Bytes :=
  if p.head? = some SLASH then (pushSegments [] (p.splitOn SLASH)).map joinSegments else none

/-! ## the function -/

/-- `while (w > 0 && path[w - 1] != '/') w--;` -/
def popSegment (buf : Bytes) : Nat → Option Nat
  | 0 => some 0
  | w + 1 => buf[w]?.bind fun c => if c ≠ SLASH then popSegment buf w else some (w + 1)

/-- `n` turns of `path[w++] = path[seg_start + i]`, from the byte `start` on -/
def copySegment (buf : Bytes) (w start : Nat) : Nat → Option (Bytes × Nat)
  | 0 => some (buf, w)
  | n + 1 => do
    let c ← buf[start]?
    let buf ← Bytes.store buf w c
    copySegment buf (w + 1) (start + 1) n

/-- the variables of the loop -/
structure PathState where
  buf : Bytes
  r : Nat
  w : Nat
  deriving DecidableEq, Repr

namespace PathState

/-- `seg_start`: behind `while (r < len && path[r] == '/') r++` -/
def segStart (s : PathState) : Nat := Bytes.scan (· == SLASH) s.buf s.r

/-- `r` behind `while (r < len && path[r] != '/') r++` -/
def segEnd (s : PathState) : Nat := Bytes.scan (· != SLASH) s.buf s.segStart

def segLen (s : PathState) : Nat := s.segEnd - s.segStart

end PathState

/-- how a turn ends -/
inductive PathTurn where
  | again (s : PathState)
  | finish
  | traversal
  deriving DecidableEq, Repr

/-- one turn of `while (r < len)` -/
def pathTurn (s : PathState) : Option PathTurn :=
  if s.segLen = 0 then some .finish
  else if s.segLen = 1 ∧ s.buf[s.segStart]? = some DOT then some (.again { s with r := s.segEnd })
  else if s.segLen = 2 ∧ s.buf[s.segStart]? = some DOT ∧ s.buf[s.segStart + 1]? = some DOT then
    if s.w = 0 then some .traversal
    else do
      let w ← popSegment s.buf s.w
      some (.again { s with r := s.segEnd, w := if w > 0 then w - 1 else w })
  else do
    let buf ← Bytes.store s.buf s.w SLASH
    let (buf, w) ← copySegment buf (s.w + 1) s.segStart s.segLen
    some (.again { buf := buf, r := s.segEnd, w := w })

/-- `while (r < len)` and what follows it, with at most `n` turns -/
def pathLoop : Nat → PathState → Option (Option Nat × Bytes)
  | n, s =>
    if s.r < s.buf.length then
      match n, pathTurn s with
      | _, none => none
      | 0, _ => none
      | _, some .finish => pathEnd s
      | _, some .traversal => some (none, s.buf)
      | n + 1, some (.again s') => pathLoop n s'
    else pathEnd s
where
  /-- `if (w == 0) path[w++] = '/'; return w;` -/
  pathEnd (s : PathState) : Option (Option Nat × Bytes) :=
    if s.w = 0 then (Bytes.store s.buf s.w SLASH).map fun buf => (some (s.w + 1), buf)
    else some (some s.w, s.buf)

/-- `normalize_path` on a buffer that holds the path and nothing else -/
def normalizePath (path : Bytes) : Option (Option Nat × Bytes) :=
  if path.length = 0 ∨ path[0]? ≠ some SLASH then some (none, path)
  else pathLoop (path.length + 1) { buf := path, r := 0, w := 0 }


/-! ## the stack -/

@[simp] theorem pushSegments_nil (st : List Bytes) : pushSegments st [] = some st := rfl

@[simp] theorem pushSegments_cons (st : List Bytes) (seg : Bytes) (segs : List Bytes) :
    pushSegments st (seg :: segs) = (pushSegment st seg).bind (pushSegments · segs) := rfl

/-- a segment that stays on the stack -/
def Kept (seg : Bytes) : Prop := seg ≠ [] ∧ seg ≠ [DOT] ∧ seg ≠ [DOT, DOT] ∧ SLASH ∉ seg

theorem pushSegment_kept (st : List Bytes) (seg : Bytes) (h : Kept seg) :
    pushSegment st seg = some (seg :: st) := by
  obtain ⟨h1, h2, h3, -⟩ := h
  simp [pushSegment, h1, h2, h3]

/-- the stack holds kept segments only -/
theorem pushSegment_all {st st' : List Bytes} {seg : Bytes} (hst : ∀ x ∈ st, Kept x)
    (hseg : SLASH ∉ seg) (h : pushSegment st seg = some st') : ∀ x ∈ st', Kept x := by
  unfold pushSegment at h
  split_ifs at h with h1 h2
  · cases h
    exact hst
  · cases st with
    | nil => cases h
    | cons top st =>
      cases h
      exact fun x hx => hst x (List.mem_cons_of_mem _ hx)
  · cases h
    intro x hx
    rcases List.mem_cons.mp hx with rfl | hx
    · exact ⟨fun h => h1 (Or.inl h), fun h => h1 (Or.inr h), h2, hseg⟩
    · exact hst x hx

theorem pushSegments_all {st st' : List Bytes} {segs : List Bytes} (hst : ∀ x ∈ st, Kept x)
    (hsegs : ∀ x ∈ segs, SLASH ∉ x) (h : pushSegments st segs = some st') : ∀ x ∈ st', Kept x := by
  induction segs generalizing st with
  | nil =>
    cases h
    exact hst
  | cons seg segs ih =>
    rw [pushSegments_cons, Option.bind_eq_some_iff] at h
    obtain ⟨st1, h1, h2⟩ := h
    exact ih (pushSegment_all hst (hsegs seg List.mem_cons_self) h1)
      (fun x hx => hsegs x (List.mem_cons_of_mem _ hx)) h2

/-- kept segments pile up -/
theorem pushSegments_kept (st segs : List Bytes) (h : ∀ x ∈ segs, Kept x) :
    pushSegments st segs = some (segs.reverse ++ st) := by
  induction segs generalizing st with
  | nil => rfl
  | cons seg segs ih =>
    rw [pushSegments_cons, pushSegment_kept st seg (h seg List.mem_cons_self), Option.bind_some,
      ih _ fun x hx => h x (List.mem_cons_of_mem _ hx)]
    simp

/-- the segments give no stack when some `..` meets the empty one -/
theorem pushSegments_none (st : List Bytes) (segs : List Bytes) :
    pushSegments st segs = none ↔
      ∃ a b, segs = a ++ [DOT, DOT] :: b ∧ pushSegments st a = some [] := by
  induction segs generalizing st with
  | nil => simp
  | cons seg segs ih =>
    rw [pushSegments_cons]
    constructor
    · intro h
      cases h1 : pushSegment st seg with
      | none =>
        unfold pushSegment at h1
        split_ifs at h1 with h2 h3
        cases st with
        | nil => exact ⟨[], segs, by rw [h3, List.nil_append], rfl⟩
        | cons top st => cases h1
      | some st1 =>
        rw [h1, Option.bind_some] at h
        obtain ⟨a, b, hs, ha⟩ := (ih st1).mp h
        exact ⟨seg :: a, b, by rw [hs, List.cons_append], by
          rw [pushSegments_cons, h1, Option.bind_some, ha]⟩
    · rintro ⟨a, b, hs, ha⟩
      cases a with
      | nil =>
        cases ha
        rw [List.nil_append] at hs
        injection hs with h1 h2
        rw [h1]
        rfl
      | cons seg' a =>
        rw [List.cons_append] at hs
        injection hs with h1 h2
        subst h1
        rw [pushSegments_cons, Option.bind_eq_some_iff] at ha
        obtain ⟨st1, h3, h4⟩ := ha
        rw [h3, Option.bind_some, ih]
        exact ⟨a, b, h2, h4⟩

/-! ## splitting at the slashes -/

theorem splitOn_slash (x : Bytes) : (SLASH :: x).splitOn SLASH = [] :: x.splitOn SLASH :=
  List.splitOn_append_cons_self [] x

/-- a slash in front changes nothing -/
theorem pushSegments_slash (st : List Bytes) (x : Bytes) :
    pushSegments st ((SLASH :: x).splitOn SLASH) = pushSegments st (x.splitOn SLASH) := by
  rw [splitOn_slash]
  rfl

theorem pushSegments_dropSlashes (st : List Bytes) (x : Bytes) :
    pushSegments st ((x.dropWhile (· == SLASH)).splitOn SLASH) =
      pushSegments st (x.splitOn SLASH) := by
  induction x with
  | nil => rfl
  | cons c x ih =>
    by_cases hc : c = SLASH
    · subst hc
      rw [pushSegments_slash, ← ih]
      rfl
    · rw [List.dropWhile_cons_of_neg (by simpa using hc)]

/-- the segment in front, and the rest from its slash on -/
theorem pushSegments_takeSegment (st : List Bytes) (x : Bytes) :
    pushSegments st (x.splitOn SLASH) = (pushSegment st (x.takeWhile (· != SLASH))).bind
      (pushSegments · ((x.dropWhile (· != SLASH)).splitOn SLASH)) := by
  have hx := List.takeWhile_append_dropWhile (p := (· != SLASH)) (l := x)
  have hseg : SLASH ∉ x.takeWhile (· != SLASH) := by
    intro h
    simpa using List.mem_takeWhile_imp h
  rw [← pushSegments_cons]
  generalize x.takeWhile (· != SLASH) = seg at hx hseg ⊢
  cases hr : x.dropWhile (· != SLASH) with
  | nil =>
    rw [hr, List.append_nil] at hx
    rw [← hx, List.splitOn_eq_singleton hseg]
    cases h : pushSegment st seg with
    | none => simp [h]
    | some st1 => simp [h, pushSegment]
  | cons c rest =>
    have hc : c = SLASH := by
      simpa using Bytes.head_of_dropWhile hr
    subst hc
    rw [hr] at hx
    rw [← hx, List.splitOn_append_cons_self, List.splitOn_eq_singleton hseg, splitOn_slash]
    rfl

/-! ## the loops inside a turn -/

/-- **The copy of a segment.**  Behind `j` bytes, with the write position not behind the segment:
the bytes of the segment stand from `w` on, and those from `w + j` on are as before. -/
theorem copySegment_eq (buf : Bytes) (w start j : Nat) (hw : w ≤ start)
    (hj : start + j ≤ buf.length) :
    ∃ buf', copySegment buf w start j = some (buf', w + j) ∧ buf'.length = buf.length ∧
      buf'.take (w + j) = buf.take w ++ Bytes.slice buf start j ∧
      ∀ k, w + j ≤ k → buf'.drop k = buf.drop k := by
  induction j generalizing buf w start with
  | zero => exact ⟨buf, rfl, rfl, by simp [Bytes.slice], fun _ _ => rfl⟩
  | succ j ih =>
    have hs : start < buf.length := by omega
    obtain ⟨buf1, hstore, hlen1, htake1, hdrop1⟩ := Bytes.store_eq buf w buf[start] (by omega)
    obtain ⟨buf2, hcopy, hlen2, htake2, hdrop2⟩ := ih buf1 (w + 1) (start + 1) (by omega) (by omega)
    -- what is still to be read lies behind the byte that is written
    have hslice : Bytes.slice buf1 (start + 1) j = Bytes.slice buf (start + 1) j := by
      rw [Bytes.slice, hdrop1 _ (by omega), Bytes.slice]
    rw [show w + 1 + j = w + (j + 1) by omega] at hcopy htake2 hdrop2
    refine ⟨buf2, ?_, by omega, ?_, ?_⟩
    · unfold copySegment
      rw [List.getElem?_eq_getElem hs, Option.bind_eq_bind, Option.bind_some, hstore,
        Option.bind_eq_bind, Option.bind_some, hcopy]
    · rw [htake2, htake1, hslice, Bytes.slice, Bytes.slice, List.drop_eq_getElem_cons hs,
        List.take_succ_cons]
      simp
    · intro k hk
      rw [hdrop2 k hk, hdrop1 k (by omega)]

/-- the scan backwards for the slash of the last written segment -/
theorem popSegment_eq (a seg rest : Bytes) (h : SLASH ∉ seg) :
    popSegment (a ++ (SLASH :: seg ++ rest)) (a.length + 1 + seg.length) =
      some (a.length + 1) := by
  induction seg using List.reverseRecOn generalizing rest with
  | nil => simp [popSegment]
  | append_singleton seg c ih =>
    have hc : c ≠ SLASH := by
      rintro rfl
      exact h (by simp)
    have hget : (a ++ (SLASH :: (seg ++ [c]) ++ rest))[a.length + 1 + seg.length]? = some c := by
      rw [List.getElem?_append_right (by omega), List.cons_append, List.append_assoc,
        show a.length + 1 + seg.length - a.length = seg.length + 1 by omega,
        List.getElem?_cons_succ, List.getElem?_append_right (by omega)]
      simp
    rw [List.length_append, List.length_singleton, ← Nat.add_assoc]
    unfold popSegment
    rw [hget, Option.bind_some, if_pos hc]
    have h1 := ih (c :: rest) fun hm => h (List.mem_append_left _ hm)
    simpa using h1

/-! ## the invariant -/

/-- the bytes of a stack, as a turn leaves them -/
def spelled (st : List Bytes) : Bytes := st.reverse.flatMap (SLASH :: ·)

theorem spelled_cons (seg : Bytes) (st : List Bytes) :
    spelled (seg :: st) = spelled st ++ SLASH :: seg := by
  simp [spelled]

theorem spelled_eq_nil (st : List Bytes) : spelled st = [] ↔ st = [] := by
  cases st with
  | nil => simp [spelled]
  | cons seg st => simp [spelled_cons]

theorem joinSegments_spelled (st : List Bytes) (h : st ≠ []) : joinSegments st = spelled st := by
  have key : ∀ l : List Bytes, l ≠ [] → SLASH :: [SLASH].intercalate l = l.flatMap
    (SLASH :: ·) := by
    intro l hl
    induction l with
    | nil => exact absurd rfl hl
    | cons a l ih =>
      cases l with
      | nil => simp
      | cons b l =>
        rw [List.intercalate_cons_cons, List.flatMap_cons, ← ih (List.cons_ne_nil _ _)]
        simp
  exact key _ (by simpa using h)

/-- **The invariant of the loop** for the path `p`, with the stack `st`. -/
structure PathInv (p : Bytes) (s : PathState) (st : List Bytes) : Prop where
  length : s.buf.length = p.length
  behind : s.w ≤ s.r
  inside : s.r ≤ p.length
  /-- what is written spells the stack -/
  written : s.buf.take s.w = spelled st
  /-- what is not read yet is as it was -/
  unread : s.buf.drop s.r = p.drop s.r
  /-- a turn starts at a slash -/
  slash : s.r < p.length → p[s.r]? = some SLASH
  kept : ∀ x ∈ st, Kept x
  /-- the segments read so far gave the stack -/
  stack : pushSegments [] (p.splitOn SLASH) = pushSegments st ((p.drop s.r).splitOn SLASH)

namespace PathInv
variable {p : Bytes} {s : PathState} {st : List Bytes}

theorem init (h : p[0]? = some SLASH) : PathInv p { buf := p, r := 0, w := 0 } [] where
  length := rfl
  behind := Nat.le_refl 0
  inside := Nat.zero_le _
  written := by simp [spelled]
  unread := rfl
  slash := fun _ => h
  kept := by simp
  stack := by simp

theorem w_eq (h : PathInv p s st) : s.w = (spelled st).length := by
  rw [← h.written, List.length_take, h.length]
  have := h.behind
  have := h.inside
  omega

theorem w_eq_zero (h : PathInv p s st) : s.w = 0 ↔ st = [] := by
  rw [h.w_eq, List.length_eq_zero_iff, spelled_eq_nil]

/-- the segment of a turn, and where it stands -/
theorem segment (h : PathInv p s st) (hr : s.r < p.length) :
    s.r < s.segStart ∧ s.segEnd = s.segStart + s.segLen ∧ s.segEnd ≤ p.length ∧
      Bytes.slice p s.segStart s.segLen =
        ((p.drop s.r).dropWhile (· == SLASH)).takeWhile (· != SLASH) ∧
      p.drop s.segEnd = ((p.drop s.r).dropWhile (· == SLASH)).dropWhile (· != SLASH) ∧
      (∀ k, s.r ≤ k → s.buf.drop k = p.drop k) := by
  have hunread : ∀ k, s.r ≤ k → s.buf.drop k = p.drop k := by
    intro k hk
    obtain ⟨m, rfl⟩ := Nat.exists_eq_add_of_le hk
    rw [← List.drop_drop, h.unread, List.drop_drop]
  have hle : s.r ≤ s.segStart := Bytes.le_scan _ _ _
  have hle2 : s.segStart ≤ s.segEnd := Bytes.le_scan _ _ _
  have hb1 : s.segStart ≤ s.buf.length := Bytes.scan_le _ _ _ (by rw [h.length]; exact h.inside)
  have hb2 : s.segEnd ≤ s.buf.length := Bytes.scan_le _ _ _ hb1
  have hd1 : p.drop s.segStart = (p.drop s.r).dropWhile (· == SLASH) := by
    rw [← hunread _ hle, ← h.unread]
    exact Bytes.drop_scan _ _ _
  have hd2 : p.drop s.segEnd = ((p.drop s.r).dropWhile (· == SLASH)).dropWhile (· != SLASH) := by
    rw [← hunread _ (hle.trans hle2), ← hd1, ← hunread _ hle]
    exact Bytes.drop_scan _ _ _
  have hlt : s.r < s.segStart := by
    have h1 : (p.drop s.r).takeWhile (· == SLASH) ≠ [] := by
      have h2 := h.slash hr
      rw [List.getElem?_eq_getElem hr, Option.some.injEq] at h2
      rw [List.drop_eq_getElem_cons hr, h2]
      simp
    have h3 := List.length_pos_of_ne_nil h1
    have h4 : s.segStart = s.r + ((p.drop s.r).takeWhile (· == SLASH)).length := by
      rw [← h.unread]
      exact Bytes.scan_eq _ _ _
    omega
  have hlen : s.segLen = (((p.drop s.r).dropWhile (· == SLASH)).takeWhile (· != SLASH)).length := by
    have h1 : s.segEnd = s.segStart + ((s.buf.drop s.segStart).takeWhile (· != SLASH)).length :=
      Bytes.scan_eq _ _ _
    rw [hunread _ hle, hd1] at h1
    unfold PathState.segLen
    omega
  refine ⟨hlt, by unfold PathState.segLen; omega, by rw [← h.length]; exact hb2, ?_, hd2, hunread⟩
  rw [Bytes.slice, hd1, hlen]
  exact (List.prefix_iff_eq_take.mp (List.takeWhile_prefix _)).symm

end PathInv

/-! ## a turn -/

/-- the two tests of a turn, on the segment -/
theorem slice_dot (b : Bytes) (i n : Nat) (h : i + n ≤ b.length) (c : UInt8) :
    Bytes.slice b i n = [c] ↔ n = 1 ∧ b[i]? = some c := by
  constructor
  · intro hs
    have hn : n = 1 := by
      have h1 := congrArg List.length hs
      rw [Bytes.slice, List.length_take, List.length_drop, List.length_singleton] at h1
      omega
    subst hn
    rw [Bytes.slice, List.drop_eq_getElem_cons (by omega), List.take_succ_cons] at hs
    injection hs with h1 h2
    exact ⟨rfl, by rw [List.getElem?_eq_getElem (by omega), h1]⟩
  · rintro ⟨rfl, hc⟩
    rw [List.getElem?_eq_getElem (by omega), Option.some.injEq] at hc
    rw [Bytes.slice, List.drop_eq_getElem_cons (by omega), hc]
    rfl

theorem slice_dots (b : Bytes) (i n : Nat) (h : i + n ≤ b.length) (c d : UInt8) :
    Bytes.slice b i n = [c, d] ↔ n = 2 ∧ b[i]? = some c ∧ b[i + 1]? = some d := by
  constructor
  · intro hs
    have hn : n = 2 := by
      have h1 := congrArg List.length hs
      rw [Bytes.slice, List.length_take, List.length_drop] at h1
      simp only [List.length_cons, List.length_nil] at h1
      omega
    subst hn
    rw [Bytes.slice, List.drop_eq_getElem_cons (by omega), List.take_succ_cons] at hs
    injection hs with h1 h2
    have h3 := (slice_dot b (i + 1) 1 (by omega) d).mp h2
    exact ⟨rfl, by rw [List.getElem?_eq_getElem (by omega), h1], h3.2⟩
  · rintro ⟨rfl, hc, hd⟩
    have h3 := (slice_dot b (i + 1) 1 (by omega) d).mpr ⟨rfl, hd⟩
    rw [List.getElem?_eq_getElem (by omega), Option.some.injEq] at hc
    rw [Bytes.slice, List.drop_eq_getElem_cons (by omega), List.take_succ_cons, hc]
    exact congrArg (c :: ·) h3

namespace PathInv
variable {p : Bytes} {s : PathState} {st : List Bytes}

/-- the segment of the turn from `s` -/
abbrev seg (p : Bytes) (s : PathState) : Bytes := Bytes.slice p s.segStart s.segLen

/-- the stack behind the segment -/
theorem stack_turn (h : PathInv p s st) (hr : s.r < p.length) :
    SLASH ∉ seg p s ∧ pushSegments [] (p.splitOn SLASH) =
      (pushSegment st (seg p s)).bind (pushSegments · ((p.drop s.segEnd).splitOn SLASH)) := by
  obtain ⟨-, -, -, hseg, hrest, -⟩ := h.segment hr
  constructor
  · intro hm
    unfold seg at hm
    rw [hseg] at hm
    simpa using List.mem_takeWhile_imp hm
  · unfold seg
    rw [h.stack, hseg, hrest, ← pushSegments_takeSegment, pushSegments_dropSlashes]

/-- behind the segment stands a slash, if anything -/
theorem slash_turn (h : PathInv p s st) (hr : s.r < p.length) :
    s.segEnd < p.length → p[s.segEnd]? = some SLASH := by
  obtain ⟨-, -, -, -, hrest, -⟩ := h.segment hr
  intro hlt
  rw [List.drop_eq_getElem_cons hlt] at hrest
  have h1 : p[s.segEnd] = SLASH := by
    simpa using Bytes.head_of_dropWhile hrest.symm
  rw [List.getElem?_eq_getElem hlt, h1]

/-- an empty segment stands at the end of the path -/
theorem nothing_left (h : PathInv p s st) (hr : s.r < p.length) (h0 : seg p s = []) :
    p.drop s.segEnd = [] := by
  obtain ⟨-, -, -, hseg, hrest, -⟩ := h.segment hr
  unfold seg at h0
  rw [hseg] at h0
  rw [hrest]
  cases hd : (p.drop s.r).dropWhile (· == SLASH) with
  | nil => rfl
  | cons c rest =>
    have h1 := Bytes.head_of_dropWhile hd
    have hc : (c != SLASH) = true := by
      simpa using h1
    rw [hd, List.takeWhile_cons_of_pos (p := (· != SLASH)) hc] at h0
    cases h0

/-- a turn that only moves the read position, and the write position to the end of `st'` -/
theorem skip (h : PathInv p s st) (hr : s.r < p.length) (st' : List Bytes) (w : Nat)
    (hw : w ≤ s.w) (htake : s.buf.take w = spelled st')
    (hpush : pushSegment st (seg p s) = some st') :
    PathInv p { s with r := s.segEnd, w := w } st' := by
  obtain ⟨hlt, hend, hle, -, -, hunread⟩ := h.segment hr
  obtain ⟨hseg, hstack⟩ := h.stack_turn hr
  have hb := h.behind
  exact
    { length := h.length
      behind := by show w ≤ s.segEnd; omega
      inside := hle
      written := htake
      unread := hunread s.segEnd (by omega)
      slash := h.slash_turn hr
      kept := pushSegment_all h.kept hseg hpush
      stack := by rw [hstack, hpush]; rfl }

/-- the stores of a turn that keeps its segment: behind `j` bytes of it, the unread ones stand -/
theorem copy (h : PathInv p s st) (hr : s.r < p.length) (j : Nat) (hj : j ≤ s.segLen) :
    ∃ buf, Bytes.store s.buf s.w SLASH = some buf ∧
      ∃ buf', copySegment buf (s.w + 1) s.segStart j = some (buf', s.w + 1 + j) ∧
        s.w + 1 + j ≤ s.segStart + j ∧
        buf'.take (s.w + 1 + j) = spelled st ++ SLASH :: Bytes.slice p s.segStart j ∧
        buf'.drop (s.segStart + j) = p.drop (s.segStart + j) ∧ buf'.length = p.length := by
  obtain ⟨hlt, hend, hle, -, -, hunread⟩ := h.segment hr
  have hb := h.behind
  have hl := h.length
  obtain ⟨buf, hstore, hlen1, htake1, hdrop1⟩ := Bytes.store_eq s.buf s.w SLASH (by omega)
  obtain ⟨buf', hcopy, hlen2, htake2, hdrop2⟩ :=
    copySegment_eq buf (s.w + 1) s.segStart j (by omega) (by omega)
  have hslice : Bytes.slice buf s.segStart j = Bytes.slice p s.segStart j := by
    rw [Bytes.slice, hdrop1 _ (by omega), hunread _ (by omega), Bytes.slice]
  refine ⟨buf, hstore, buf', hcopy, by omega, ?_, ?_, by omega⟩
  · rw [htake2, htake1, hslice, h.written]
    simp
  · rw [hdrop2 _ (by omega), hdrop1 _ (by omega), hunread _ (by omega)]

end PathInv

/-- what a turn does to a path with the stack `st` -/
inductive TurnSpec (p : Bytes) (s : PathState) (st : List Bytes) : PathTurn → Prop where
  | again {s' : PathState} {st' : List Bytes} (hr : s.r < s'.r) (h : PathInv p s' st') :
      TurnSpec p s st (.again s')
  | finish (h : pushSegments [] (p.splitOn SLASH) = some st) : TurnSpec p s st .finish
  | traversal (h : pushSegments [] (p.splitOn SLASH) = none) : TurnSpec p s st .traversal

/-- **One turn keeps the invariant**, or ends the loop with the answer of the stack. -/
theorem PathInv.turn {p : Bytes} {s : PathState} {st : List Bytes} (h : PathInv p s st)
    (hr : s.r < p.length) : ∃ t, pathTurn s = some t ∧ TurnSpec p s st t := by
  obtain ⟨hlt, hend, hle, -, -, hunread⟩ := h.segment hr
  obtain ⟨hns, hstack⟩ := h.stack_turn hr
  have hb := h.behind
  have hl := h.length
  have hseg : PathInv.seg p s = Bytes.slice s.buf s.segStart s.segLen := by
    rw [PathInv.seg, Bytes.slice, Bytes.slice, hunread _ (by omega)]
  have hnil : PathInv.seg p s = [] ↔ s.segLen = 0 := by
    rw [← List.length_eq_zero_iff, PathInv.seg, Bytes.slice, List.length_take, List.length_drop]
    omega
  have hdot := slice_dot s.buf s.segStart s.segLen (by omega) DOT
  have hdots := slice_dots s.buf s.segStart s.segLen (by omega) DOT DOT
  rw [← hseg] at hdot hdots
  unfold pathTurn
  by_cases h0 : s.segLen = 0
  · -- the path is read: nothing but slashes was left
    rw [if_pos h0]
    have h1 := h.nothing_left hr (hnil.mpr h0)
    refine ⟨_, rfl, .finish ?_⟩
    rw [hstack, h1, hnil.mpr h0]
    rfl
  · rw [if_neg h0]
    by_cases h1 : PathInv.seg p s = [DOT]
    · rw [if_pos (hdot.mp h1)]
      exact ⟨_, rfl, .again (by show s.r < s.segEnd; omega)
        (h.skip hr st s.w le_rfl h.written (by simp [pushSegment, h1]))⟩
    · rw [if_neg (fun h2 => h1 (hdot.mpr h2))]
      by_cases h2 : PathInv.seg p s = [DOT, DOT]
      · rw [if_pos (hdots.mp h2)]
        by_cases hw : s.w = 0
        · rw [if_pos hw]
          refine ⟨_, rfl, .traversal ?_⟩
          rw [hstack, h.w_eq_zero.mp hw, h2]
          rfl
        · rw [if_neg hw]
          cases st with
          | nil => exact absurd (h.w_eq_zero.mpr rfl) hw
          | cons top st =>
            have hbuf : s.buf = spelled st ++ (SLASH :: top ++ s.buf.drop s.w) := by
              conv_lhs => rw [← List.take_append_drop s.w s.buf, h.written, spelled_cons]
              simp
            have hwe : s.w = (spelled st).length + 1 + top.length := by
              rw [h.w_eq, spelled_cons]
              simp
              omega
            have hpop := popSegment_eq (spelled st) top (s.buf.drop s.w)
              (h.kept top List.mem_cons_self).2.2.2
            rw [← hbuf, ← hwe] at hpop
            rw [hpop, Option.bind_eq_bind, Option.bind_some, if_pos (Nat.succ_pos _)]
            refine ⟨_, rfl, .again (by show s.r < s.segEnd; omega)
              (h.skip hr st _ (by omega) ?_ (by rw [h2]; rfl))⟩
            rw [hbuf]
            simp
      · rw [if_neg (fun h3 => h2 (hdots.mpr h3))]
        have hpush : pushSegment st (PathInv.seg p s) = some (PathInv.seg p s :: st) :=
          pushSegment_kept st _ ⟨fun h3 => h0 (hnil.mp h3), h1, h2, hns⟩
        obtain ⟨buf, hstore, buf', hcopy, hwj, htake, hdrop, hlen⟩ := h.copy hr s.segLen le_rfl
        rw [hstore, Option.bind_eq_bind, Option.bind_some, hcopy, Option.bind_eq_bind,
          Option.bind_some]
        rw [← hend] at hdrop
        refine ⟨_, rfl, .again (by show s.r < s.segEnd; omega)
          (show PathInv p _ (PathInv.seg p s :: st) from ?_)⟩
        exact
          { length := hlen
            behind := by show s.w + 1 + s.segLen ≤ s.segEnd; omega
            inside := hle
            written := by rw [spelled_cons]; exact htake
            unread := hdrop
            slash := h.slash_turn hr
            kept := pushSegment_all h.kept hns hpush
            stack := by rw [hstack, hpush]; rfl }

/-! ## the loop -/

/-- the states in which the loop of `normalize_path` starts a turn or leaves -/
inductive PathReach (p : Bytes) : PathState → Prop where
  | start (h : p[0]? = some SLASH) : PathReach p { buf := p, r := 0, w := 0 }
  | turn {s s' : PathState} (h : PathReach p s) (hr : s.r < s.buf.length)
      (ht : pathTurn s = some (.again s')) : PathReach p s'

/-- **The invariant holds in every state of the loop.** -/
theorem PathReach.inv {p : Bytes} {s : PathState} (h : PathReach p s) : ∃ st, PathInv p s st := by
  induction h with
  | start h => exact ⟨[], .init h⟩
  | turn h hr ht ih =>
    obtain ⟨st, hinv⟩ := ih
    obtain ⟨t, h1, hspec⟩ := hinv.turn (by rw [← hinv.length]; exact hr)
    rw [ht, Option.some.injEq] at h1
    subst h1
    cases hspec with
    | again hlt h' => exact ⟨_, h'⟩

/-- what the function is to return and to leave in the buffer -/
def PathAnswer (p : Bytes) (o : Option (Option Nat × Bytes)) : Prop :=
  ∃ res buf, o = some (res, buf) ∧ buf.length = p.length ∧
    (res = none ∧ pushSegments [] (p.splitOn SLASH) = none ∨
      ∃ st, pushSegments [] (p.splitOn SLASH) = some st ∧ res = some (joinSegments st).length ∧
        buf.take (joinSegments st).length = joinSegments st)

theorem pathEnd_answer {p : Bytes} {s : PathState} {st : List Bytes} (h : PathInv p s st)
    (hp : 0 < p.length) (hst : pushSegments [] (p.splitOn SLASH) = some st) :
    PathAnswer p (pathLoop.pathEnd s) := by
  unfold pathLoop.pathEnd
  by_cases hw : s.w = 0
  · rw [if_pos hw, hw, Bytes.store, if_pos (by rw [h.length]; exact hp)]
    refine ⟨_, _, rfl, by rw [List.length_set, h.length], .inr ⟨st, hst, ?_⟩⟩
    rw [h.w_eq_zero.mp hw]
    refine ⟨rfl, ?_⟩
    have hl := h.length
    cases hbuf : s.buf with
    | nil =>
      rw [hbuf, List.length_nil] at hl
      omega
    | cons c buf => rfl
  · have hne : st ≠ [] := fun h1 => hw (h.w_eq_zero.mpr h1)
    rw [if_neg hw]
    refine ⟨_, _, rfl, h.length, .inr ⟨st, hst, ?_⟩⟩
    rw [joinSegments_spelled st hne, ← h.w_eq]
    exact ⟨rfl, h.written⟩

/-- **The loop gives the answer of the stack**; the induction is on the turns that are left, and
every turn reads at least one byte. -/
theorem pathLoop_answer {p : Bytes} {s : PathState} {st : List Bytes} (n : Nat)
    (h : PathInv p s st) (hp : 0 < p.length) (hn : p.length < n + s.r) :
    PathAnswer p (pathLoop n s) := by
  induction n generalizing s st with
  | zero =>
    have := h.inside
    omega
  | succ n ih =>
    unfold pathLoop
    rw [h.length]
    by_cases hr : s.r < p.length
    · rw [if_pos hr]
      obtain ⟨t, ht, hspec⟩ := h.turn hr
      rw [ht]
      cases hspec with
      | again hlt h' => exact ih h' (by omega)
      | finish hst => exact pathEnd_answer h hp hst
      | traversal hst => exact ⟨_, _, rfl, h.length, .inl ⟨rfl, hst⟩⟩
    · rw [if_neg hr]
      refine pathEnd_answer h hp ?_
      rw [h.stack, List.drop_of_length_le (by omega)]
      rfl

/-! ## the function -/

theorem normalizePath_answer (p : Bytes) : ∃ res buf, normalizePath p = some (res, buf) ∧
    buf.length = p.length ∧
    (res = none ∧ normalizedPath p = none ∨
      ∃ q, normalizedPath p = some q ∧ res = some q.length ∧ buf.take q.length = q) := by
  unfold normalizePath normalizedPath
  rw [List.head?_eq_getElem?]
  by_cases h : p.length = 0 ∨ p[0]? ≠ some SLASH
  · rw [if_pos h]
    refine ⟨none, p, rfl, rfl, .inl ⟨rfl, ?_⟩⟩
    rw [if_neg]
    rintro h1
    rcases h with h | h
    · rw [List.length_eq_zero_iff.mp h] at h1
      cases h1
    · exact h h1
  · push Not at h
    rw [if_neg (by push Not; exact h), if_pos h.2]
    obtain ⟨res, buf, h1, h2, h3⟩ := pathLoop_answer (p.length + 1) (PathInv.init h.2)
      (Nat.pos_of_ne_zero h.1) (by simp)
    refine ⟨res, buf, h1, h2, ?_⟩
    rcases h3 with ⟨h3, h4⟩ | ⟨st, h3, h4, h5⟩
    · exact .inl ⟨h3, by rw [h4]; rfl⟩
    · exact .inr ⟨_, by rw [h3]; rfl, h4, h5⟩

/-- a normal form: the root, or segments that are kept, each behind a slash -/
def NormalPath (q : Bytes) : Prop :=
  q = [SLASH] ∨ ∃ segs : List Bytes, segs ≠ [] ∧ (∀ x ∈ segs, Kept x) ∧
    q = segs.flatMap (SLASH :: ·)

theorem normalizedPath_normal {p q : Bytes} (h : normalizedPath p = some q) : NormalPath q := by
  unfold normalizedPath at h
  split_ifs at h with hp
  obtain ⟨st, hst, rfl⟩ := Option.map_eq_some_iff.mp h
  have hall := pushSegments_all (by simp) (Bytes.not_mem_splitOn SLASH p) hst
  by_cases hne : st = []
  · subst hne
    exact .inl rfl
  · refine .inr ⟨st.reverse, by simpa using hne, fun x hx => hall x (List.mem_reverse.mp hx), ?_⟩
    exact joinSegments_spelled st hne

/-- a normal form is its own -/
theorem normalizedPath_fixed {q : Bytes} (h : NormalPath q) : normalizedPath q = some q := by
  rcases h with rfl | ⟨segs, hne, hall, rfl⟩
  · rfl
  · have hjoin := joinSegments_spelled segs.reverse (by simpa using hne)
    rw [spelled, List.reverse_reverse] at hjoin
    have hsplit : (joinSegments segs.reverse).splitOn SLASH = [] :: segs := by
      unfold joinSegments
      rw [splitOn_slash, List.reverse_reverse,
        List.splitOn_intercalate SLASH (fun x hx => (hall x hx).2.2.2) hne]
    unfold normalizedPath
    rw [← hjoin, if_pos (show (joinSegments segs.reverse).head? = some SLASH from rfl), hsplit,
      pushSegments_cons]
    show (pushSegments [] segs).map joinSegments = _
    rw [pushSegments_kept [] segs hall, List.append_nil]
    rfl

theorem normalizedPath_none (p : Bytes) : normalizedPath p = none ↔
    p = [] ∨ p.head? ≠ some SLASH ∨
      ∃ a b, p.splitOn SLASH = a ++ [DOT, DOT] :: b ∧ pushSegments [] a = some [] := by
  unfold normalizedPath
  by_cases h : p.head? = some SLASH
  · rw [if_pos h, Option.map_eq_none_iff, pushSegments_none]
    constructor
    · exact fun h1 => .inr (.inr h1)
    · rintro (h1 | h1 | h1)
      · rw [h1] at h
        cases h
      · exact absurd h h1
      · exact h1
  · rw [if_neg h]
    exact ⟨fun _ => .inr (.inl h), fun _ => rfl⟩

/-- **`normalize_path` is the stack definition, in place.**  It never leaves the buffer.  It
returns `-1` for exactly the paths that are empty, start with no slash, or have a `..` that meets
the empty stack; else it returns the length of the normal form, which stands at the front of the
buffer.  A normal form is the root or has kept segments only, and a second run leaves it as it
is.  In every state of the loop the write position is not behind the segment that is read, and
the bytes from the read position on are those of the path; so they are behind every byte that a
segment is copied by. -/
theorem normalizePath_stack (p : Bytes) :
    (∃ res buf, normalizePath p = some (res, buf) ∧ buf.length = p.length ∧
      (res = none ↔ p = [] ∨ p.head? ≠ some SLASH ∨
        ∃ a b, p.splitOn SLASH = a ++ [DOT, DOT] :: b ∧ pushSegments [] a = some []) ∧
      ∀ w, res = some w → ∃ st, pushSegments [] (p.splitOn SLASH) = some st ∧
        buf.take w = SLASH :: [SLASH].intercalate st.reverse ∧ w ≤ p.length ∧
        NormalPath (buf.take w) ∧ normalizePath (buf.take w) = some (some w, buf.take w)) ∧
    ∀ s, PathReach p s → s.buf.length = p.length ∧ s.buf.drop s.r = p.drop s.r ∧ s.w ≤ s.r ∧
      (s.r < p.length → s.w < s.segStart ∧ ∀ j ≤ s.segLen,
        ∃ buf, Bytes.store s.buf s.w SLASH = some buf ∧
          ∃ buf', copySegment buf (s.w + 1) s.segStart j = some (buf', s.w + 1 + j) ∧
            s.w + 1 + j ≤ s.segStart + j ∧
            buf'.drop (s.segStart + j) = p.drop (s.segStart + j) ∧ buf'.length = p.length) := by
  constructor
  · obtain ⟨res, buf, h1, h2, h3⟩ := normalizePath_answer p
    refine ⟨res, buf, h1, h2, ?_, ?_⟩
    · rw [← normalizedPath_none]
      rcases h3 with ⟨h3, h4⟩ | ⟨q, h3, h4, h5⟩
      · simp [h3, h4]
      · simp [h3, h4]
    · intro w hw
      rcases h3 with ⟨h3, h4⟩ | ⟨q, h3, h4, h5⟩
      · rw [h3] at hw
        cases hw
      · rw [h4, Option.some.injEq] at hw
        subst hw
        have hn := normalizedPath_normal h3
        have hlen : q.length ≤ p.length := by
          have h6 := congrArg List.length h5
          rw [List.length_take] at h6
          omega
        have h6 := h3
        unfold normalizedPath at h6
        split_ifs at h6 with hp
        obtain ⟨st, hst, hq⟩ := Option.map_eq_some_iff.mp h6
        rw [h5]
        refine ⟨st, hst, hq.symm, hlen, hn, ?_⟩
        obtain ⟨res', buf', h7, h8, h9⟩ := normalizePath_answer q
        rw [normalizedPath_fixed hn] at h9
        rcases h9 with ⟨-, h9⟩ | ⟨q', h9, h10, h11⟩
        · cases h9
        · rw [Option.some.injEq] at h9
          subst h9
          rw [List.take_of_length_le (by omega)] at h11
          rw [h7, h10, h11]
  · intro s hs
    obtain ⟨st, h⟩ := hs.inv
    refine ⟨h.length, h.unread, h.behind, fun hr => ?_⟩
    obtain ⟨hlt, -⟩ := h.segment hr
    have hb := h.behind
    refine ⟨by omega, fun j hj => ?_⟩
    obtain ⟨buf, hstore, buf', hcopy, hwj, -, hdrop, hlen⟩ := h.copy hr j hj
    exact ⟨buf, hstore, buf', hcopy, hwj, hdrop, hlen⟩

example : normalizePath (ascii "/a/./b//../c/") = some (some 4, ascii "/a/c/b//../c/") := by decide

end Http
