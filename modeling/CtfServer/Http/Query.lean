import CtfServer.Lib.Bytes

/-!
# `parse_query_params`: the parameters of a URI

`parse_query_params` (http_request_path.c).  A `char *` into the URI is an offset.

* `queryComponents`    the text behind the first `?`, split at every `&`;
* `queryPairs`         the components with a `=`, as names and values;
* `queryTurns`         the `while (1)` behind the `?`, `queryScan` the loop around it;
* `parseQueryParams`   the function: whether it returns `0`, the parameters, the new `uri_len`;
* `recordedPairs`      the pairs that it records: the scan for `=` runs over an `&`, so the
                       components without `=` in front of a pair become part of its name;
* `parseQueryParams_iff`  it records the pairs of the query exactly when no component without
                       `=` stands in front of one that is recorded.
-/

set_option linter.unusedVariables false
set_option linter.unusedSimpArgs false

namespace Http

def MAX_QUERY_PARAMS : Nat := 32
def QUESTION : UInt8 := 63
def HASH : UInt8 := 35
def EQUALS : UInt8 := 61
def AMPERSAND : UInt8 := 38

/-! ## what the function is for -/

/-- the text behind the first `?`, split at every `&` -/
def queryComponents (uri : Bytes) : List Bytes :=
  match uri.dropWhile (· != QUESTION) with
  | [] => []
  | _ :: query => query.splitOn AMPERSAND

/-- the bytes before the first `=` and those behind it -/
def splitPair (c : Bytes) : Bytes × Bytes :=
  (c.takeWhile (· != EQUALS), (c.dropWhile (· != EQUALS)).drop 1)

/-- the components with a `=`, in order -/
def pairsOf (components : List Bytes) : List (Bytes × Bytes) :=
  (components.filter (·.contains EQUALS)).map splitPair

/-- the parameters of a query -/
def queryPairs (uri : Bytes) : List (Bytes × Bytes) := pairsOf (queryComponents uri)

/-! ## the function -/

/-- `http_param_t`; `value` is `NULL` for a name whose `=` ends the URI -/
structure HttpParam where
  name : Nat
  nameLen : Nat
  value : Option Nat := none
  valueLen : Nat := 0
  deriving DecidableEq, Repr

/-- the bytes that a parameter points to -/
def HttpParam.read (buf : Bytes) (p : HttpParam) : Bytes × Bytes :=
  (buf.slice p.name p.nameLen, (p.value.map (buf.slice · p.valueLen)).getD [])

/-- a parameter lies inside the buffer, its name from `lo` on -/
def HttpParam.Inside (buf : Bytes) (lo : Nat) (p : HttpParam) : Prop :=
  lo ≤ p.name ∧ p.name + p.nameLen ≤ buf.length ∧
    ∀ v, p.value = some v → lo ≤ v ∧ v + p.valueLen ≤ buf.length

/-- the `while (1)` from index `i` on, with at most `n` turns; `false` stands for `return -1` -/
def queryTurns (uri : Bytes) : Nat → List HttpParam → Nat → Option (Bool × List HttpParam)
  | 0, _, _ => none
  | n + 1, params, i =>
    let j := Bytes.scan (· != EQUALS) uri i
    if j ≥ uri.length then some (true, params)
    else if params.length ≥ MAX_QUERY_PARAMS then some (false, params)
    else if j + 1 ≥ uri.length then some (true, params ++ [{ name := i, nameLen := j - i }])
    else
      let k := Bytes.scan (· != AMPERSAND) uri (j + 1)
      let params := params ++
        [{ name := i, nameLen := j - i, value := some (j + 1), valueLen := k - (j + 1) }]
      if k ≥ uri.length then some (true, params) else queryTurns uri n params (k + 1)

/-- `for (size_t i = 0; i < req->uri_len; i++)`, at the bytes that are left; `finalUriLen` once it
is set.  Every way out of the `while (1)` returns. -/
def queryScan (uri : Bytes) (params : List HttpParam) :
    Bytes → Nat → Option Nat → Option (Bool × List HttpParam × Nat)
  | [], _, finalUriLen => some (true, params, finalUriLen.getD uri.length)
  | c :: rest, i, finalUriLen =>
    if c = QUESTION then
      (queryTurns uri (uri.length + 1) params (i + 1)).map fun (ok, params) =>
        (ok, params, if ok then finalUriLen.getD i else uri.length)
    else if c = HASH then queryScan uri params rest (i + 1) (some (finalUriLen.getD i))
    else queryScan uri params rest (i + 1) finalUriLen

/-- `parse_query_params` on a request without parameters -/
def parseQueryParams (uri : Bytes) : Option (Bool × List HttpParam × Nat) :=
  queryScan uri [] uri 0 none

/-! ## what it records -/

/-- the pairs that the function records; `skipped` is what the scan for `=` ran over -/
def recordedPairs : Bytes → List Bytes → List (Bytes × Bytes)
  | _, [] => []
  | skipped, c :: cs =>
    if c.contains EQUALS then
      (skipped ++ (splitPair c).1, (splitPair c).2) :: recordedPairs [] cs
    else recordedPairs (skipped ++ c ++ [AMPERSAND]) cs

@[simp] theorem recordedPairs_pair (skipped c : Bytes) (cs : List Bytes) (h : EQUALS ∈ c) :
    recordedPairs skipped (c :: cs) =
      (skipped ++ (splitPair c).1, (splitPair c).2) :: recordedPairs [] cs := by
  rw [recordedPairs, if_pos (by simpa using h)]

@[simp] theorem recordedPairs_skip (skipped c : Bytes) (cs : List Bytes) (h : EQUALS ∉ c) :
    recordedPairs skipped (c :: cs) = recordedPairs (skipped ++ c ++ [AMPERSAND]) cs := by
  rw [recordedPairs, if_neg (by simpa using h)]

@[simp] theorem pairsOf_pair (c : Bytes) (cs : List Bytes) (h : EQUALS ∈ c) :
    pairsOf (c :: cs) = splitPair c :: pairsOf cs := by
  simp [pairsOf, h]

@[simp] theorem pairsOf_skip (c : Bytes) (cs : List Bytes) (h : EQUALS ∉ c) :
    pairsOf (c :: cs) = pairsOf cs := by
  simp [pairsOf, h]

/-- the values are right in any case -/
theorem recordedPairs_values (skipped : Bytes) (cs : List Bytes) :
    (recordedPairs skipped cs).map Prod.snd = (pairsOf cs).map Prod.snd := by
  induction cs generalizing skipped with
  | nil => rfl
  | cons c cs ih =>
    by_cases hc : EQUALS ∈ c
    · rw [recordedPairs_pair _ _ _ hc, pairsOf_pair _ _ hc, List.map_cons, List.map_cons, ih]
    · rw [recordedPairs_skip _ _ _ hc, pairsOf_skip _ _ hc, ih]

/-- and so is their number -/
theorem recordedPairs_length (skipped : Bytes) (cs : List Bytes) :
    (recordedPairs skipped cs).length = (pairsOf cs).length := by
  simpa using congrArg List.length (recordedPairs_values skipped cs)

/-- one more byte of a name, an `&` as any other -/
theorem recordedPairs_name (skipped : Bytes) (c : UInt8) (hc : c ≠ EQUALS) (t : Bytes) :
    recordedPairs skipped ((c :: t).splitOn AMPERSAND) =
      recordedPairs (skipped ++ [c]) (t.splitOn AMPERSAND) := by
  rw [List.splitOn_cons_eq_if_modifyHead]
  by_cases hamp : c = AMPERSAND
  · subst hamp
    simp [recordedPairs]
  · rw [if_neg (by simpa using hamp)]
    cases ht : t.splitOn AMPERSAND with
    | nil => exact absurd ht (List.splitOn_ne_nil _ _)
    | cons x xs =>
      have hce : (c != EQUALS) = true := by
        simpa using hc
      have hmem : EQUALS ∈ c :: x ↔ EQUALS ∈ x := by
        simp [Ne.symm hc]
      rw [List.modifyHead_cons]
      by_cases hx : EQUALS ∈ x
      · have h1 : splitPair (c :: x) = (c :: (splitPair x).1, (splitPair x).2) := by
          simp [splitPair, hce]
        rw [recordedPairs_pair _ _ _ (hmem.mpr hx), recordedPairs_pair _ _ _ hx, h1,
          List.append_assoc]
        rfl
      · rw [recordedPairs_skip _ _ _ (fun h => hx (hmem.mp h)), recordedPairs_skip _ _ _ hx]
        simp

theorem recordedPairs_names (skipped name t : Bytes) (h : EQUALS ∉ name) :
    recordedPairs skipped ((name ++ t).splitOn AMPERSAND) =
      recordedPairs (skipped ++ name) (t.splitOn AMPERSAND) := by
  induction name generalizing skipped with
  | nil => simp
  | cons c name ih =>
    have hc : c ≠ EQUALS := fun h1 => h (by simp [h1])
    rw [List.cons_append, recordedPairs_name _ _ hc, ih _ fun h1 => h (List.mem_cons_of_mem _ h1)]
    simp

theorem recordedPairs_equals (skipped t : Bytes) :
    recordedPairs skipped ((EQUALS :: t).splitOn AMPERSAND) =
      (skipped, t.takeWhile (· != AMPERSAND)) ::
        match t.dropWhile (· != AMPERSAND) with
        | [] => []
        | _ :: rest => recordedPairs [] (rest.splitOn AMPERSAND) := by
  rw [Bytes.splitOn_eq, List.takeWhile_cons_of_pos (by decide),
    List.dropWhile_cons_of_pos (by decide)]
  have h1 : splitPair (EQUALS :: t.takeWhile (· != AMPERSAND)) =
      ([], t.takeWhile (· != AMPERSAND)) := by
    simp [splitPair]
  rw [recordedPairs_pair _ _ _ (List.mem_cons_self), h1, List.append_nil]
  cases t.dropWhile (· != AMPERSAND) with
  | nil => rfl
  | cons c rest => rfl

theorem recordedPairs_none (skipped : Bytes) (cs : List Bytes) (h : ∀ c ∈ cs, EQUALS ∉ c) :
    recordedPairs skipped cs = [] := by
  induction cs generalizing skipped with
  | nil => rfl
  | cons c cs ih =>
    rw [recordedPairs_skip _ _ _ (h c List.mem_cons_self)]
    exact ih _ fun x hx => h x (List.mem_cons_of_mem _ hx)

/-- the pairs of the text from a component on, as the two scans of a turn take them -/
theorem recordedPairs_turn (t : Bytes) :
    recordedPairs [] (t.splitOn AMPERSAND) = match t.dropWhile (· != EQUALS) with
      | [] => []
      | _ :: rest => (t.takeWhile (· != EQUALS), rest.takeWhile (· != AMPERSAND)) ::
          match rest.dropWhile (· != AMPERSAND) with
          | [] => []
          | _ :: rest => recordedPairs [] (rest.splitOn AMPERSAND) := by
  have ht := List.takeWhile_append_dropWhile (p := (· != EQUALS)) (l := t)
  have hname : EQUALS ∉ t.takeWhile (· != EQUALS) := by
    intro h
    simpa using List.mem_takeWhile_imp h
  cases hr : t.dropWhile (· != EQUALS) with
  | nil =>
    rw [hr, List.append_nil] at ht
    rw [ht] at hname
    have h1 := recordedPairs_names [] t [] hname
    rw [List.append_nil] at h1
    rw [h1]
    exact recordedPairs_none _ _ (by simp)
  | cons c rest =>
    have hc : c = EQUALS := by
      simpa using Bytes.head_of_dropWhile hr
    subst hc
    rw [hr] at ht
    conv_lhs => rw [← ht]
    rw [recordedPairs_names _ _ _ hname, List.nil_append, recordedPairs_equals]

/-! ## the loops -/

theorem slice_of_prefix (uri x : Bytes) (i n : Nat) (hn : n = x.length) (h : x <+: uri.drop i) :
    uri.slice i n = x := by
  rw [hn, Bytes.slice]
  exact (List.prefix_iff_eq_take.mp h).symm

/-- what the loop leaves when it still records `pairs` -/
def QueryOutcome (uri : Bytes) (lo : Nat) (pairs : List (Bytes × Bytes))
    (o : Option (Bool × List HttpParam)) : Prop :=
  ∃ params, o = some (decide (pairs.length ≤ MAX_QUERY_PARAMS), params) ∧
    params.map (HttpParam.read uri) = pairs.take MAX_QUERY_PARAMS ∧
    ∀ p ∈ params, p.Inside uri lo

/-- **The turns behind the `?`**, from the start of a component on. -/
theorem queryTurns_outcome (uri : Bytes) (lo n : Nat) (params : List HttpParam) (i : Nat)
    (hn : uri.length < n + i) (hi : i ≤ uri.length) (hlo : lo ≤ i)
    (hparams : params.length ≤ MAX_QUERY_PARAMS) (hin : ∀ p ∈ params, p.Inside uri lo) :
    QueryOutcome uri lo
      (params.map (HttpParam.read uri) ++ recordedPairs [] ((uri.drop i).splitOn AMPERSAND))
      (queryTurns uri n params i) := by
  induction n generalizing params i with
  | zero => omega
  | succ n ih =>
    have hj := Bytes.drop_scan (· != EQUALS) uri i
    have hjn := Bytes.scan_eq (· != EQUALS) uri i
    have hjle := Bytes.scan_le (· != EQUALS) uri i hi
    unfold queryTurns
    rw [recordedPairs_turn]
    generalize Bytes.scan (· != EQUALS) uri i = j at hj hjn hjle ⊢
    by_cases h1 : j ≥ uri.length
    · rw [List.drop_of_length_le h1] at hj
      simp only [← hj, if_pos h1, List.append_nil]
      refine ⟨params, by simpa using hparams, ?_, hin⟩
      rw [List.take_of_length_le (by simpa using hparams)]
    · have hname := List.takeWhile_prefix (p := (· != EQUALS)) (l := uri.drop i)
      rw [List.drop_eq_getElem_cons (by omega)] at hj
      simp only [← hj, if_neg h1]
      generalize (uri.drop i).takeWhile (· != EQUALS) = name at hname hjn ⊢
      by_cases h2 : params.length ≥ MAX_QUERY_PARAMS
      · rw [if_pos h2]
        have h3 : params.length = MAX_QUERY_PARAMS := by omega
        refine ⟨params, ?_, ?_, hin⟩
        · simp
          omega
        · rw [List.take_append_of_le_length (by simp; omega),
            List.take_of_length_le (by simp; omega)]
      · -- one more parameter: its name lies from `i` on, its value behind `j`
        rw [if_neg h2]
        have hread : uri.slice i (j - i) = name := slice_of_prefix uri name i _ (by omega) hname
        have hlen : ∀ p : HttpParam, (params ++ [p]).length ≤ MAX_QUERY_PARAMS := by
          intro p
          rw [List.length_append, List.length_singleton]
          omega
        have hins : ∀ p : HttpParam, p.Inside uri lo → ∀ q ∈ params ++ [p], q.Inside uri lo := by
          intro p hp q hq
          rcases List.mem_append.mp hq with hq | hq
          · exact hin q hq
          · rw [List.mem_singleton.mp hq]
            exact hp
        by_cases h3 : j + 1 ≥ uri.length
        · rw [if_pos h3, List.drop_of_length_le h3]
          have h4 := hlen { name := i, nameLen := j - i }
          have hp : (HttpParam.mk i (j - i) none 0).Inside uri lo :=
            ⟨hlo, by show i + (j - i) ≤ _; omega, by simp⟩
          refine ⟨_, ?_, ?_, hins _ hp⟩
          · simpa using h4
          · rw [List.take_of_length_le (by simpa using h4), List.map_append]
            simp [HttpParam.read, hread]
        · have hk := Bytes.drop_scan (· != AMPERSAND) uri (j + 1)
          have hkn := Bytes.scan_eq (· != AMPERSAND) uri (j + 1)
          have hkle := Bytes.scan_le (· != AMPERSAND) uri (j + 1) (by omega)
          have hvalue := List.takeWhile_prefix (p := (· != AMPERSAND)) (l := uri.drop (j + 1))
          rw [if_neg h3]
          generalize Bytes.scan (· != AMPERSAND) uri (j + 1) = k at hk hkn hkle ⊢
          generalize (uri.drop (j + 1)).takeWhile (· != AMPERSAND) = value at hkn hvalue ⊢
          have hread2 : uri.slice (j + 1) (k - (j + 1)) = value :=
            slice_of_prefix uri value _ _ (by omega) hvalue
          have hp : (HttpParam.mk i (j - i) (some (j + 1)) (k - (j + 1))).Inside uri lo := by
            refine ⟨hlo, by show i + (j - i) ≤ _; omega, ?_⟩
            rintro v hv
            cases hv
            exact ⟨by omega, by show j + 1 + (k - (j + 1)) ≤ _; omega⟩
          have hmap : (params ++ [HttpParam.mk i (j - i) (some (j + 1)) (k - (j + 1))]).map
              (HttpParam.read uri) = params.map (HttpParam.read uri) ++ [(name, value)] := by
            simp [HttpParam.read, hread, hread2]
          by_cases h4 : k ≥ uri.length
          · rw [List.drop_of_length_le h4] at hk
            have h5 := hlen ⟨i, j - i, some (j + 1), k - (j + 1)⟩
            simp only [← hk, if_pos h4]
            refine ⟨_, ?_, ?_, hins _ hp⟩
            · simpa using h5
            · rw [hmap, List.take_of_length_le (by simpa using h5)]
          · rw [List.drop_eq_getElem_cons (by omega)] at hk
            have h5 := ih _ (k + 1) (by omega) (by omega) (by omega) (hlen _) (hins _ hp)
            rw [hmap, List.append_assoc, List.singleton_append] at h5
            simp only [← hk, if_neg h4]
            exact h5

/-- the loop around it: nothing happens before the first `?`, and a `#` there fixes `uri_len` -/
theorem queryScan_outcome (uri : Bytes) (rest : Bytes) (i : Nat) (final : Option Nat)
    (hi : uri.drop i = rest) (hle : i ≤ uri.length) :
    ∃ params, queryScan uri [] rest i final =
        some (decide ((recordedPairs [] (queryComponents rest)).length ≤ MAX_QUERY_PARAMS), params,
          if (recordedPairs [] (queryComponents rest)).length ≤ MAX_QUERY_PARAMS then
            final.getD (i + (rest.takeWhile fun c => c != QUESTION && c != HASH).length)
          else uri.length) ∧
      params.map (HttpParam.read uri) =
        (recordedPairs [] (queryComponents rest)).take MAX_QUERY_PARAMS ∧
      ∀ p ∈ params, p.Inside uri (i + (rest.takeWhile (· != QUESTION)).length) := by
  induction rest generalizing i final with
  | nil =>
    refine ⟨[], ?_, rfl, by simp⟩
    have h1 : i = uri.length := by
      have h2 := congrArg List.length hi
      rw [List.length_drop, List.length_nil] at h2
      omega
    simp [queryScan, queryComponents, recordedPairs, h1]
  | cons c rest ih =>
    have hlt : i < uri.length := by
      have h2 := congrArg List.length hi
      rw [List.length_drop, List.length_cons] at h2
      omega
    have hrest : uri.drop (i + 1) = rest := by
      rw [← List.drop_drop, hi]
      rfl
    unfold queryScan
    by_cases hc : c = QUESTION
    · subst hc
      have hcomp : queryComponents (QUESTION :: rest) = rest.splitOn AMPERSAND := by
        simp [queryComponents]
      obtain ⟨params, h1, h2, h3⟩ := queryTurns_outcome uri i (uri.length + 1) [] (i + 1)
        (by omega) (by omega) (by omega) (by simp) (by simp)
      rw [if_pos rfl, h1, hcomp, ← hrest]
      simp only [List.map_nil, List.nil_append] at h2 ⊢
      refine ⟨params, ?_, h2, ?_⟩
      · simp
      · simpa using h3
    · have hcomp : queryComponents (c :: rest) = queryComponents rest := by
        simp [queryComponents, hc]
      rw [if_neg hc, hcomp]
      by_cases hh : c = HASH
      · obtain ⟨params, h1, h2, h3⟩ := ih (i + 1) (some (final.getD i)) hrest (by omega)
        rw [if_pos hh, h1]
        refine ⟨params, ?_, h2, ?_⟩
        · simp [hh]
        · intro p hp
          have h4 := h3 p hp
          rwa [List.takeWhile_cons_of_pos (by simpa using hc), List.length_cons, ← Nat.add_assoc,
            Nat.add_right_comm]
      · obtain ⟨params, h1, h2, h3⟩ := ih (i + 1) final hrest (by omega)
        rw [if_neg hh, h1]
        refine ⟨params, ?_, h2, ?_⟩
        · rw [List.takeWhile_cons_of_pos (by simp [hc, hh]), List.length_cons, ← Nat.add_assoc,
            Nat.add_right_comm]
        · intro p hp
          have h4 := h3 p hp
          rwa [List.takeWhile_cons_of_pos (by simpa using hc), List.length_cons, ← Nat.add_assoc,
            Nat.add_right_comm]

/-- **What `parse_query_params` records**, for every URI. -/
theorem parseQueryParams_outcome (uri : Bytes) :
    ∃ params, parseQueryParams uri =
        some (decide ((queryPairs uri).length ≤ MAX_QUERY_PARAMS), params,
          if (queryPairs uri).length ≤ MAX_QUERY_PARAMS then
            (uri.takeWhile fun c => c != QUESTION && c != HASH).length
          else uri.length) ∧
      params.map (HttpParam.read uri) =
        (recordedPairs [] (queryComponents uri)).take MAX_QUERY_PARAMS ∧
      ∀ p ∈ params, p.Inside uri (uri.takeWhile (· != QUESTION)).length := by
  obtain ⟨params, h1, h2, h3⟩ := queryScan_outcome uri uri 0 none rfl (Nat.zero_le _)
  rw [recordedPairs_length, Nat.zero_add] at h1
  exact ⟨params, h1, h2, by simpa using h3⟩

/-! ## when the names are right -/

/-- no component without `=` stands in front of one that is recorded: behind the components with
`=` that the query starts with, the table is full or no other follows -/
def NamesApart (components : List Bytes) : Prop :=
  MAX_QUERY_PARAMS ≤ (components.takeWhile (·.contains EQUALS)).length ∨
    ∀ c ∈ components.dropWhile (·.contains EQUALS), EQUALS ∉ c

instance (components : List Bytes) : Decidable (NamesApart components) :=
  inferInstanceAs (Decidable (_ ∨ _))

/-- the components in front of the first one without `=` -/
theorem recordedPairs_front (a b : List Bytes) (h : ∀ c ∈ a, EQUALS ∈ c) :
    recordedPairs [] (a ++ b) = a.map splitPair ++ recordedPairs [] b ∧
      pairsOf (a ++ b) = a.map splitPair ++ pairsOf b := by
  induction a with
  | nil => exact ⟨rfl, rfl⟩
  | cons c a ih =>
    have hc := h c List.mem_cons_self
    obtain ⟨h1, h2⟩ := ih fun x hx => h x (List.mem_cons_of_mem _ hx)
    rw [List.cons_append, recordedPairs_pair _ _ _ hc, pairsOf_pair _ _ hc, h1, h2]
    exact ⟨rfl, rfl⟩

/-- what was skipped stands in the next name -/
theorem recordedPairs_skipped (skipped : Bytes) (cs : List Bytes) (hs : skipped ≠ []) (k : Nat)
    (h : (recordedPairs skipped cs).take (k + 1) = (pairsOf cs).take (k + 1)) :
    ∀ c ∈ cs, EQUALS ∉ c := by
  induction cs generalizing skipped with
  | nil => simp
  | cons c cs ih =>
    by_cases hc : EQUALS ∈ c
    · rw [recordedPairs_pair _ _ _ hc, pairsOf_pair _ _ hc, List.take_succ_cons,
        List.take_succ_cons] at h
      injection h with h1 h2
      have h3 := congrArg (fun x => x.1.length) h1
      have h4 := List.length_pos_of_ne_nil hs
      simp only [List.length_append] at h3
      omega
    · rw [recordedPairs_skip _ _ _ hc, pairsOf_skip _ _ hc] at h
      have h1 := ih (skipped ++ c ++ [AMPERSAND]) (by simp) h
      intro x hx
      rcases List.mem_cons.mp hx with rfl | hx
      · exact hc
      · exact h1 x hx

theorem pairsOf_none (cs : List Bytes) (h : ∀ c ∈ cs, EQUALS ∉ c) : pairsOf cs = [] := by
  unfold pairsOf
  rw [List.filter_eq_nil_iff.mpr, List.map_nil]
  simpa using h

theorem recordedPairs_iff (cs : List Bytes) :
    (recordedPairs [] cs).take MAX_QUERY_PARAMS = (pairsOf cs).take MAX_QUERY_PARAMS ↔
      NamesApart cs := by
  have hcs := List.takeWhile_append_dropWhile (p := (·.contains EQUALS)) (l := cs)
  have ha : ∀ c ∈ cs.takeWhile (·.contains EQUALS), EQUALS ∈ c := by
    intro c hc
    simpa using List.mem_takeWhile_imp hc
  have hb : ∀ c b, cs.dropWhile (·.contains EQUALS) = c :: b → EQUALS ∉ c := by
    intro c b hd
    simpa using Bytes.head_of_dropWhile hd
  unfold NamesApart
  generalize cs.takeWhile (·.contains EQUALS) = a at hcs ha ⊢
  generalize cs.dropWhile (·.contains EQUALS) = b at hcs hb ⊢
  obtain ⟨h1, h2⟩ := recordedPairs_front a b ha
  rw [← hcs, h1, h2]
  constructor
  · intro h
    by_cases hfull : MAX_QUERY_PARAMS ≤ a.length
    · exact .inl hfull
    · refine .inr ?_
      have hl : (a.map splitPair).length ≤ MAX_QUERY_PARAMS := by
        rw [List.length_map]
        omega
      rw [List.take_append, List.take_append, List.take_of_length_le hl, List.append_cancel_left_eq,
        List.length_map] at h
      cases b with
      | nil => simp
      | cons c b =>
        have hc := hb c b rfl
        obtain ⟨k, hk⟩ := Nat.exists_eq_add_of_lt (Nat.not_le.mp hfull)
        rw [show MAX_QUERY_PARAMS - a.length = k + 1 by omega, recordedPairs_skip _ _ _ hc,
          pairsOf_skip _ _ hc] at h
        have h3 := recordedPairs_skipped _ b (by simp) k h
        intro x hx
        rcases List.mem_cons.mp hx with rfl | hx
        · exact hc
        · exact h3 x hx
  · rintro (h | h)
    · rw [List.take_append_of_le_length (by simpa using h),
        List.take_append_of_le_length (by simpa using h)]
    · rw [recordedPairs_none _ _ h, pairsOf_none _ h]

/-- the names and values of a query hold no `&` -/
theorem queryPairs_ampersand (uri : Bytes) :
    ∀ x ∈ queryPairs uri, AMPERSAND ∉ x.1 ∧ AMPERSAND ∉ x.2 := by
  intro x hx
  unfold queryPairs pairsOf queryComponents at hx
  obtain ⟨c, hc, rfl⟩ := List.mem_map.mp hx
  have hmem := (List.mem_filter.mp hc).1
  have hno : AMPERSAND ∉ c := by
    cases hd : uri.dropWhile (· != QUESTION) with
    | nil => simp [hd] at hmem
    | cons d query =>
      rw [hd] at hmem
      exact Bytes.not_mem_splitOn AMPERSAND query c hmem
  constructor
  · intro h
    exact hno ((List.takeWhile_prefix _).subset h)
  · intro h
    exact hno ((List.dropWhile_suffix _).subset ((List.drop_suffix _ _).subset h))

theorem takeWhile_noHash (uri : Bytes) (h : HASH ∉ uri) :
    (uri.takeWhile fun c => c != QUESTION && c != HASH) = uri.takeWhile (· != QUESTION) := by
  induction uri with
  | nil => rfl
  | cons c uri ih =>
    have hc : (c != HASH) = true := by
      simpa using fun h1 : c = HASH => h (by simp [h1])
    rw [List.takeWhile_cons, List.takeWhile_cons, hc, Bool.and_true,
      ih fun h1 => h (List.mem_cons_of_mem _ h1)]

/-- what is asked of `parse_query_params`: it records the pairs of the query in order, as far as
its table goes, returns `-1` exactly when they are more, and else cuts the URI before the `?`; no
recorded name or value holds an `&` -/
def QueryRecorded (uri : Bytes) : Prop :=
  ∃ ok params uriLen, parseQueryParams uri = some (ok, params, uriLen) ∧
    params.map (HttpParam.read uri) = (queryPairs uri).take MAX_QUERY_PARAMS ∧
    (ok = false ↔ MAX_QUERY_PARAMS < (queryPairs uri).length) ∧
    (ok = true → uriLen = (uri.takeWhile (· != QUESTION)).length) ∧
    ∀ p ∈ params, AMPERSAND ∉ (p.read uri).1 ∧ AMPERSAND ∉ (p.read uri).2

/-- **`parse_query_params` splits at `&` before `=` exactly when** no component without `=` stands
in front of one that it records. -/
theorem parseQueryParams_iff (uri : Bytes) (h : HASH ∉ uri) :
    QueryRecorded uri ↔ NamesApart (queryComponents uri) := by
  obtain ⟨params, h1, h2, -⟩ := parseQueryParams_outcome uri
  have hcut := takeWhile_noHash uri h
  rw [← recordedPairs_iff]
  constructor
  · rintro ⟨ok, params', uriLen, h3, h4, -⟩
    rw [h1, Option.some.injEq, Prod.mk.injEq, Prod.mk.injEq] at h3
    obtain ⟨-, rfl, -⟩ := h3
    rw [← h2, h4, queryPairs]
  · intro h3
    refine ⟨_, params, _, h1, by rw [h2, h3, queryPairs], ?_, ?_, ?_⟩
    · simp
    · intro hok
      rw [if_pos (of_decide_eq_true hok), hcut]
    · intro p hp
      have h4 : p.read uri ∈ (queryPairs uri).take MAX_QUERY_PARAMS := by
        rw [queryPairs, ← h3, ← h2]
        exact List.mem_map_of_mem hp
      exact queryPairs_ampersand uri _ (List.mem_of_mem_take h4)

/-- a component without `=` in front -/
theorem parseQueryParams_iff_sample :
    HASH ∉ ascii "/p?a=1&b" ∧ (QueryRecorded (ascii "/p?a=1&b") ↔
      NamesApart (queryComponents (ascii "/p?a=1&b"))) :=
  ⟨by decide, parseQueryParams_iff _ (by decide)⟩

/-- `/p?a&b=1` records the name `a&b` -/
theorem parseQueryParams_merged : ¬ ∀ uri, HASH ∉ uri → QueryRecorded uri := by
  intro h
  obtain ⟨ok, params, uriLen, h2, h3, -⟩ := h (ascii "/p?a&b=1") (by decide)
  have h4 : parseQueryParams (ascii "/p?a&b=1") =
      some (true, [{ name := 3, nameLen := 3, value := some 7, valueLen := 1 }], 2) := by decide
  rw [h4, Option.some.injEq, Prod.mk.injEq, Prod.mk.injEq] at h2
  obtain ⟨-, rfl, -⟩ := h2
  revert h3
  decide

end Http
