import CtfServer.Http.Path
import CtfServer.Http.Query

/-!
# `normalize_uri`: a URI normalised in the receive buffer

`url_decode` and `normalize_uri` (http_request_path.c).  The buffer is the URI as the request
parser left it; the parameters of its query point into it while the part before them is decoded
and normalised.

* `percentDecode`, `stripAuthority`, `normalizedUri`   what the function is for;
* `urlDecode`         `url_decode` on a buffer that holds its text and nothing else;
* `normalizeUri`      `normalize_uri`: the value it returns, and the request it leaves;
* `normalizeUri_composes`  the function returns `0` exactly when the URI has a normal form, which
                      is then its path; the recorded parameters read the bytes of the URI.
-/

set_option linter.unusedVariables false
set_option linter.unusedSimpArgs false

namespace Http

def PERCENT : UInt8 := 37
def ASTERISK : UInt8 := 42

/-- `hex_val`; `none` is `-1` -/
def hexVal (c : UInt8) : Option Nat :=
  if 48 ≤ c ∧ c ≤ 57 then some (c.toNat - 48)
  else if 65 ≤ c ∧ c ≤ 70 then some (c.toNat - 65 + 10)
  else if 97 ≤ c ∧ c ≤ 102 then some (c.toNat - 97 + 10)
  else none

/-! ## what the function is for -/

/-- the percent-decoding; `none` for a `%` without two hex digits, and for `%00` -/
def percentDecode : Bytes → Option Bytes
  | [] => some []
  | c :: rest =>
    if c = PERCENT then
      match rest with
      | a :: b :: rest =>
        match hexVal a, hexVal b with
        | some x, some y =>
          if 16 * x + y = 0 then none
          else (percentDecode rest).map (UInt8.ofNat (16 * x + y) :: ·)
        | _, _ => none
      | _ => none
    else (percentDecode rest).map (c :: ·)

/-- the rest of an absolute form from its first slash on, the root if there is none -/
def behindAuthority (d : Bytes) : Bytes :=
  match d.dropWhile (· != SLASH) with
  | [] => [SLASH]
  | rest => rest

/-- a decoded URI without `http://` or `https://` and the authority -/
def stripAuthority (d : Bytes) : Bytes :=
  if Bytes.eqFold (d.take 7) (ascii "http://") then behindAuthority (d.drop 7)
  else if Bytes.eqFold (d.take 8) (ascii "https://") then behindAuthority (d.drop 8)
  else d

/-- the part of a URI before the first `?` or `#` -/
def uriPath (uri : Bytes) : Bytes := uri.takeWhile fun c => c != QUESTION && c != HASH

/-! ## `url_decode` -/

/-- `while (r < len)`, with at most `n` turns; `none` for a fault, else what the function returns
(`none` for `-1`) and the buffer it leaves -/
def urlDecodeLoop : Nat → Bytes → Nat → Nat → Option (Option Nat × Bytes)
  | 0, _, _, _ => none
  | n + 1, str, r, w =>
    if r < str.length then do
      let c ← str[r]?
      if c = PERCENT then
        if r + 2 ≥ str.length then some (none, str)
        else do
          let a ← str[r + 1]?
          let b ← str[r + 2]?
          match hexVal a, hexVal b with
          | some h1, some h2 =>
            let decoded := UInt8.ofNat (h1 <<< 4 ||| h2)
            if decoded = 0 then some (none, str)
            else do
              let str ← Bytes.store str w decoded
              urlDecodeLoop n str (r + 3) (w + 1)
          | _, _ => some (none, str)
      else do
        let str ← Bytes.store str w c
        urlDecodeLoop n str (r + 1) (w + 1)
    else some (some w, str)

/-- `url_decode` -/
def urlDecode (str : Bytes) : Option (Option Nat × Bytes) := urlDecodeLoop (str.length + 1) str 0 0

/-! ## `normalize_uri` -/

/-- the fields of `http_request_t` that the function writes, over the bytes `buf` of the URI;
`uri` is an offset, `none` for the literal `"/"` -/
structure UriRequest where
  buf : Bytes
  uri : Option Nat := some 0
  uriLen : Nat
  queryParams : List HttpParam
  deriving DecidableEq, Repr

/-- the bytes that `uri` points to -/
def UriRequest.path (req : UriRequest) : Bytes :=
  match req.uri with
  | none => [SLASH].take req.uriLen
  | some i => req.buf.slice i req.uriLen

def NORMALIZE_URI_TOO_MANY_QUERY_PARAMS : Int := -2

/-- a function that writes `out` over the bytes from offset `i` on -/
def overwrite (buf : Bytes) (i : Nat) (out : Bytes) : Bytes :=
  buf.take i ++ out ++ buf.drop (i + out.length)

/-- a branch of the absolute form: `none` if the scheme does not stand there, else where the path
starts in the text, if a slash is found -/
def absoluteForm (scheme path : Bytes) : Option (Option Nat) :=
  if path.length ≥ scheme.length ∧ Bytes.eqFold (path.take scheme.length) scheme then
    let slash := Bytes.scan (· != SLASH) path scheme.length
    some (if slash < path.length then some slash else none)
  else none

/-- the two branches; `some 0` if the text is no absolute form -/
def pathStart (path : Bytes) : Option Nat :=
  match absoluteForm (ascii "http://") path with
  | some start => start
  | none =>
    match absoluteForm (ascii "https://") path with
    | some start => start
    | none => some 0

/-- `normalize_uri` -/
def normalizeUri (uri : Bytes) : Option (Int × UriRequest) := do
  let (ok, queryParams, uriLen) ← parseQueryParams uri
  let req : UriRequest := { buf := uri, uriLen := uriLen, queryParams := queryParams }
  if ok = false then some (NORMALIZE_URI_TOO_MANY_QUERY_PARAMS, req)
  else do
    let (newLen, str) ← urlDecode (req.buf.take req.uriLen)
    let req := { req with buf := overwrite req.buf 0 str }
    match newLen with
    | none => some (-1, req)
    | some newLen =>
      let req := { req with uriLen := newLen }
      if req.uriLen = 1 ∧ req.buf[0]? = some ASTERISK then some (-1, req)
      else
        match pathStart (req.buf.take req.uriLen) with
        | none => some (0, { req with uri := none, uriLen := 1 })
        | some start => do
          let (newLen, path) ← normalizePath (req.buf.slice start (req.uriLen - start))
          let req := { req with buf := overwrite req.buf start path }
          match newLen with
          | none => some (-1, req)
          | some newLen => some (0, { req with uri := some start, uriLen := newLen })

/-! ## decoding in place -/

theorem hexVal_lt {c : UInt8} {n : Nat} (h : hexVal c = some n) : n < 16 := by
  unfold hexVal at h
  split_ifs at h with h1 h2 h3
  · cases h
    have := UInt8.le_iff_toNat_le.mp h1.2
    simp at this
    omega
  · cases h
    have := UInt8.le_iff_toNat_le.mp h2.2
    simp at this
    omega
  · cases h
    have := UInt8.le_iff_toNat_le.mp h3.2
    simp at this
    omega

/-- `(char)((h1 << 4) | h2)` -/
theorem shift_or (x y : Nat) (hx : x < 16) (hy : y < 16) :
    x <<< 4 ||| y = 16 * x + y ∧ (UInt8.ofNat (16 * x + y) = 0 ↔ 16 * x + y = 0) := by
  constructor
  · rw [← Nat.shiftLeft_add_eq_or_of_lt (by omega : y < 2 ^ 4), Nat.shiftLeft_eq]
    omega
  · rw [← UInt8.toNat_inj, UInt8.toNat_ofNat']
    simp
    omega

theorem percentDecode_other (c : UInt8) (rest : Bytes) (h : c ≠ PERCENT) :
    percentDecode (c :: rest) = (percentDecode rest).map (c :: ·) := by
  rw [percentDecode.eq_def]
  exact if_neg h

theorem percentDecode_percent (a b : UInt8) (rest : Bytes) :
    percentDecode (PERCENT :: a :: b :: rest) =
      match hexVal a, hexVal b with
      | some x, some y =>
        if 16 * x + y = 0 then none
        else (percentDecode rest).map (UInt8.ofNat (16 * x + y) :: ·)
      | _, _ => none := by
  rw [percentDecode.eq_def]
  exact if_pos rfl

theorem percentDecode_short (rest : Bytes) (h : rest.length ≤ 1) :
    percentDecode (PERCENT :: rest) = none := by
  cases rest with
  | nil => rfl
  | cons a rest =>
    cases rest with
    | nil => rfl
    | cons b rest => simp at h

/-- what the loop returns when `out` is written and `rest` is still to be decoded -/
def DecodeOutcome (len : Nat) (out rest : Bytes) (o : Option (Option Nat × Bytes)) : Prop :=
  ∃ res str, o = some (res, str) ∧ str.length = len ∧
    (res = none ∧ percentDecode rest = none ∨
      ∃ d, percentDecode rest = some d ∧ res = some (out ++ d).length ∧
        str.take (out ++ d).length = out ++ d)

/-- one byte more -/
theorem DecodeOutcome.cons {len : Nat} {out rest rest' : Bytes} {c : UInt8}
    {o : Option (Option Nat × Bytes)} (h : DecodeOutcome len (out ++ [c]) rest' o)
    (hrest : percentDecode rest = (percentDecode rest').map (c :: ·)) :
    DecodeOutcome len out rest o := by
  obtain ⟨res, str, h1, h2, h3⟩ := h
  refine ⟨res, str, h1, h2, ?_⟩
  rw [hrest]
  rcases h3 with ⟨h3, h4⟩ | ⟨d, h3, h4⟩
  · exact .inl ⟨h3, by rw [h4]; rfl⟩
  · refine .inr ⟨c :: d, by rw [h3]; rfl, ?_⟩
    rwa [List.append_assoc, List.singleton_append] at h4

/-- **The decoding loop**: the bytes of `out` are written, those of `rest` are still as they
were, and what is written never passes what is read. -/
theorem urlDecodeLoop_outcome (n : Nat) (str : Bytes) (r w : Nat) (out rest : Bytes)
    (hn : str.length < n + r) (hw : w ≤ r) (hr : r ≤ str.length) (htake : str.take w = out)
    (hdrop : str.drop r = rest) :
    DecodeOutcome str.length out rest (urlDecodeLoop n str r w) := by
  induction n generalizing str r w out rest with
  | zero => omega
  | succ n ih =>
    unfold urlDecodeLoop
    by_cases hlt : r < str.length
    · rw [if_pos hlt, List.getElem?_eq_getElem hlt, Option.bind_eq_bind, Option.bind_some]
      rw [List.drop_eq_getElem_cons hlt] at hdrop
      generalize str[r] = c at hdrop ⊢
      -- a store at `w`, and the rest of the loop
      have hstep : ∀ (c : UInt8) (k : Nat), r < k → k ≤ str.length →
          DecodeOutcome str.length (out ++ [c]) (str.drop k)
            ((Bytes.store str w c).bind fun str => urlDecodeLoop n str k (w + 1)) := by
        intro c k hk hkl
        obtain ⟨str1, hstore, hlen1, htake1, hdrop1⟩ := Bytes.store_eq str w c (by omega)
        rw [hstore, Option.bind_some, ← hlen1, ← hdrop1 k (by omega), ← htake, ← htake1]
        exact ih str1 k (w + 1) _ _ (by omega) (by omega) (by omega) rfl rfl
      by_cases hc : c = PERCENT
      · subst hc
        rw [if_pos rfl]
        by_cases hshort : r + 2 ≥ str.length
        · -- fewer than two bytes behind the `%`
          rw [if_pos hshort]
          refine ⟨none, str, rfl, rfl, .inl ⟨rfl, ?_⟩⟩
          rw [← hdrop]
          exact percentDecode_short _ (by rw [List.length_drop]; omega)
        · rw [if_neg hshort, List.getElem?_eq_getElem (by omega : r + 1 < str.length),
            Option.bind_eq_bind, Option.bind_some,
            List.getElem?_eq_getElem (by omega : r + 2 < str.length), Option.bind_some]
          rw [List.drop_eq_getElem_cons (by omega : r + 1 < str.length),
            List.drop_eq_getElem_cons (by omega : r + 1 + 1 < str.length)] at hdrop
          generalize str[r + 1] = a at hdrop ⊢
          generalize str[r + 2] = b at hdrop ⊢
          have hp := percentDecode_percent a b (str.drop (r + 3))
          rw [show r + 1 + 1 + 1 = r + 3 by omega] at hdrop
          rw [hdrop] at hp
          cases ha : hexVal a with
          | none =>
            rw [ha] at hp
            exact ⟨none, str, rfl, rfl, .inl ⟨rfl, hp⟩⟩
          | some x =>
            cases hb : hexVal b with
            | none =>
              rw [ha, hb] at hp
              exact ⟨none, str, rfl, rfl, .inl ⟨rfl, hp⟩⟩
            | some y =>
              rw [ha, hb] at hp
              obtain ⟨hor, hzero⟩ := shift_or x y (hexVal_lt ha) (hexVal_lt hb)
              simp only [hor, hzero]
              by_cases h0 : 16 * x + y = 0
              · rw [if_pos h0]
                refine ⟨none, str, rfl, rfl, .inl ⟨rfl, ?_⟩⟩
                rw [hp]
                exact if_pos h0
              · rw [if_neg h0]
                refine (hstep _ (r + 3) (by omega) (by omega)).cons ?_
                rw [hp]
                exact if_neg h0
      · rw [if_neg hc, ← hdrop]
        exact (hstep c (r + 1) (by omega) (by omega)).cons (percentDecode_other _ _ hc)
    · rw [if_neg hlt]
      have h1 : r = str.length := by omega
      rw [h1, List.drop_length] at hdrop
      subst hdrop
      refine ⟨some w, str, rfl, rfl, .inr ⟨[], rfl, ?_⟩⟩
      have h2 : out.length = w := by
        rw [← htake, List.length_take]
        omega
      rw [List.append_nil, h2]
      exact ⟨rfl, htake⟩

/-- **`url_decode` is the percent-decoding, in place.** -/
theorem urlDecode_outcome (q : Bytes) : ∃ res str, urlDecode q = some (res, str) ∧
    str.length = q.length ∧ (res = none ∧ percentDecode q = none ∨
      ∃ d, percentDecode q = some d ∧ res = some d.length ∧ str.take d.length = d) := by
  have h := urlDecodeLoop_outcome (q.length + 1) q 0 0 [] q (by omega) le_rfl
    (Nat.zero_le _) rfl rfl
  simpa [DecodeOutcome, urlDecode] using h

/-! ## the buffer -/

theorem overwrite_length (buf : Bytes) (i : Nat) (out : Bytes) (h : i + out.length ≤ buf.length) :
    (overwrite buf i out).length = buf.length := by
  simp only [overwrite, List.length_append, List.length_take, List.length_drop]
  omega

/-- what stands behind the part that is written over -/
theorem overwrite_drop (buf : Bytes) (i : Nat) (out : Bytes) (k : Nat) (hi : i ≤ buf.length)
    (hk : i + out.length ≤ k) : (overwrite buf i out).drop k = buf.drop k := by
  have h1 : (buf.take i ++ out).length = i + out.length := by
    rw [List.length_append, List.length_take]
    omega
  rw [overwrite, List.drop_append, h1, List.drop_of_length_le (by omega), List.nil_append,
    List.drop_drop]
  congr 1
  omega

theorem overwrite_slice (buf : Bytes) (i : Nat) (out : Bytes) (n : Nat) (hi : i ≤ buf.length)
    (hn : n ≤ out.length) : (overwrite buf i out).slice i n = out.take n := by
  have h1 : (buf.take i).length = i := by
    rw [List.length_take]
    omega
  rw [overwrite, Bytes.slice, List.append_assoc, List.drop_left' h1,
    List.take_append_of_le_length hn]

/-- a parameter behind the part of the buffer that changes -/
theorem HttpParam.read_frame {uri buf : Bytes} {lo : Nat} {p : HttpParam} (h : p.Inside uri lo)
    (hbuf : ∀ k, lo ≤ k → buf.drop k = uri.drop k) : p.read buf = p.read uri := by
  obtain ⟨hname, -, hvalue⟩ := h
  have h1 : buf.slice p.name p.nameLen = uri.slice p.name p.nameLen := by
    rw [Bytes.slice, hbuf _ hname, Bytes.slice]
  cases hv : p.value with
  | none => simp [HttpParam.read, hv, h1]
  | some v =>
    have h2 : buf.slice v p.valueLen = uri.slice v p.valueLen := by
      rw [Bytes.slice, hbuf _ (hvalue v hv).1, Bytes.slice]
    simp [HttpParam.read, hv, h1, h2]

/-! ## the absolute form -/

theorem absoluteForm_eq (scheme path : Bytes) :
    absoluteForm scheme path =
      if Bytes.eqFold (path.take scheme.length) scheme then
        some (if ((path.drop scheme.length).dropWhile (· != SLASH)) = [] then none
          else some (Bytes.scan (· != SLASH) path scheme.length))
      else none := by
  unfold absoluteForm
  by_cases h : Bytes.eqFold (path.take scheme.length) scheme = true
  · have hlen : path.length ≥ scheme.length := by
      have h1 := Bytes.eqFold_length _ _ h
      rw [List.length_take] at h1
      omega
    have hle := Bytes.scan_le (· != SLASH) path scheme.length hlen
    have hnil : Bytes.scan (· != SLASH) path scheme.length < path.length ↔
        ¬ (path.drop scheme.length).dropWhile (· != SLASH) = [] := by
      rw [← Bytes.drop_scan, List.drop_eq_nil_iff, Nat.not_le]
    rw [if_pos ⟨hlen, h⟩, if_pos h]
    simp only [hnil, ite_not]
  · rw [if_neg fun h1 => h h1.2, if_neg h]

/-- a branch that is taken finds the path behind the authority -/
theorem behindAuthority_start (d : Bytes) (n : Nat) (hn : n ≤ d.length) :
    match (if (d.drop n).dropWhile (· != SLASH) = [] then none
        else some (Bytes.scan (· != SLASH) d n)) with
    | none => behindAuthority (d.drop n) = [SLASH]
    | some i => i ≤ d.length ∧ d.drop i = behindAuthority (d.drop n) := by
  unfold behindAuthority
  cases hd : (d.drop n).dropWhile (· != SLASH) with
  | nil => rfl
  | cons c rest =>
    refine ⟨Bytes.scan_le _ _ _ hn, ?_⟩
    rw [Bytes.drop_scan, hd]

theorem pathStart_eq (d : Bytes) :
    match pathStart d with
    | none => stripAuthority d = [SLASH]
    | some i => i ≤ d.length ∧ d.drop i = stripAuthority d := by
  have hlen : ∀ scheme : Bytes, Bytes.eqFold (d.take scheme.length) scheme = true →
      scheme.length ≤ d.length := by
    intro scheme h
    have h1 := Bytes.eqFold_length _ _ h
    rw [List.length_take] at h1
    omega
  have h7 : (ascii "http://").length = 7 := by decide
  have h8 : (ascii "https://").length = 8 := by decide
  unfold pathStart stripAuthority
  rw [absoluteForm_eq, absoluteForm_eq, h7, h8]
  by_cases hhttp : Bytes.eqFold (d.take 7) (ascii "http://") = true
  · rw [if_pos hhttp, if_pos hhttp]
    exact behindAuthority_start d 7 (by rw [← h7]; exact hlen _ (by rw [h7]; exact hhttp))
  · rw [if_neg hhttp, if_neg hhttp]
    by_cases hhttps : Bytes.eqFold (d.take 8) (ascii "https://") = true
    · rw [if_pos hhttps, if_pos hhttps]
      exact behindAuthority_start d 8 (by rw [← h8]; exact hlen _ (by rw [h8]; exact hhttps))
    · rw [if_neg hhttps, if_neg hhttps]
      exact ⟨Nat.zero_le _, rfl⟩

/-! ## the function -/

/-- what a URI is normalised to: decoded, not `*`, without its authority, as a path -/
def normalizedUri (uri : Bytes) : Option Bytes :=
  (percentDecode (uriPath uri)).bind fun d =>
    if d = [ASTERISK] then none else normalizedPath (stripAuthority d)

/-- what `normalize_uri` is to return and to leave, for a URI whose parameters fit the table -/
def UriOutcome (uri : Bytes) (params : List HttpParam) (o : Option (Int × UriRequest)) : Prop :=
  ∃ code req, o = some (code, req) ∧ req.queryParams = params ∧ req.buf.length = uri.length ∧
    (∀ k, (uriPath uri).length ≤ k → req.buf.drop k = uri.drop k) ∧
    (code = -1 ∧ normalizedUri uri = none ∨ code = 0 ∧ normalizedUri uri = some req.path)

/-- the part of the function behind the decoding -/
theorem normalizeUri_decoded (uri buf d : Bytes) (params : List HttpParam)
    (hd : percentDecode (uriPath uri) = some d) (hstar : d ≠ [ASTERISK])
    (hlen : buf.length = uri.length) (hle : d.length ≤ (uriPath uri).length)
    (htake : buf.take d.length = d)
    (hdrop : ∀ k, (uriPath uri).length ≤ k → buf.drop k = uri.drop k) :
    UriOutcome uri params (match pathStart d with
      | none => some (0, ⟨buf, none, 1, params⟩)
      | some start => do
        let (newLen, path) ← normalizePath (buf.slice start (d.length - start))
        match newLen with
        | none => some (-1, ⟨overwrite buf start path, some 0, d.length, params⟩)
        | some newLen => some (0, ⟨overwrite buf start path, some start, newLen, params⟩)) := by
  have hq : (uriPath uri).length ≤ uri.length := (List.takeWhile_prefix _).length_le
  have hnorm : normalizedUri uri = normalizedPath (stripAuthority d) := by
    rw [normalizedUri, hd, Option.bind_some, if_neg hstar]
  have hstart := pathStart_eq d
  cases hs : pathStart d with
  | none =>
    rw [hs] at hstart
    refine ⟨_, _, rfl, rfl, hlen, hdrop, .inr ⟨rfl, ?_⟩⟩
    rw [hnorm, hstart]
    rfl
  | some start =>
    rw [hs] at hstart
    obtain ⟨hsle, hsd⟩ := hstart
    have hslice : buf.slice start (d.length - start) = stripAuthority d := by
      rw [← hsd, Bytes.slice, ← List.drop_take, htake]
    obtain ⟨res, path, h1, h2, h3⟩ := normalizePath_answer (stripAuthority d)
    have hpl : path.length = d.length - start := by
      rw [h2, ← hsd, List.length_drop]
    have hkeep : ∀ k, (uriPath uri).length ≤ k → (overwrite buf start path).drop k =
      uri.drop k := by
      intro k hk
      rw [overwrite_drop _ _ _ _ (by omega) (by omega), hdrop k hk]
    have hkl := overwrite_length buf start path (by omega)
    simp only [hslice, h1, Option.bind_eq_bind, Option.bind_some]
    rcases h3 with ⟨rfl, h4⟩ | ⟨p, h4, rfl, h5⟩
    · exact ⟨_, _, rfl, rfl, by rw [hkl, hlen], hkeep, .inl ⟨rfl, by rw [hnorm, h4]⟩⟩
    · refine ⟨_, _, rfl, rfl, by rw [hkl, hlen], hkeep, .inr ⟨rfl, ?_⟩⟩
      have h6 : p.length ≤ path.length := by
        have h7 := congrArg List.length h5
        rw [List.length_take] at h7
        omega
      rw [hnorm, h4]
      show some p = some ((overwrite buf start path).slice start p.length)
      rw [overwrite_slice _ _ _ _ (by omega) h6, h5]

theorem uriPath_length_le (uri : Bytes) :
    (uriPath uri).length ≤ (uri.takeWhile (· != QUESTION)).length := by
  unfold uriPath
  induction uri with
  | nil => exact le_rfl
  | cons c uri ih =>
    rw [List.takeWhile_cons, List.takeWhile_cons]
    cases c != QUESTION with
    | false => simp
    | true =>
      cases c != HASH with
      | false => simp
      | true => simpa using ih

theorem normalizeUri_outcome (uri : Bytes) :
    ∃ ok params uriLen, parseQueryParams uri = some (ok, params, uriLen) ∧
      (ok = true ↔ (queryPairs uri).length ≤ MAX_QUERY_PARAMS) ∧
      (∀ p ∈ params, p.Inside uri (uriPath uri).length) ∧
      if (queryPairs uri).length ≤ MAX_QUERY_PARAMS then UriOutcome uri params (normalizeUri uri)
      else ∃ req, normalizeUri uri = some (NORMALIZE_URI_TOO_MANY_QUERY_PARAMS, req) := by
  obtain ⟨params, h1, h2, h3⟩ := parseQueryParams_outcome uri
  have hq := uriPath_length_le uri
  refine ⟨_, params, _, h1, decide_eq_true_iff, fun p hp => ?_, ?_⟩
  · obtain ⟨h4, h5, h6⟩ := h3 p hp
    exact ⟨by omega, h5, fun v hv => ⟨by have := (h6 v hv).1; omega, (h6 v hv).2⟩⟩
  · unfold normalizeUri
    rw [h1]
    by_cases h : (queryPairs uri).length ≤ MAX_QUERY_PARAMS
    · have hpre : uri.take (uriPath uri).length = uriPath uri :=
        (List.prefix_iff_eq_take.mp (List.takeWhile_prefix _)).symm
      have hle : (uriPath uri).length ≤ uri.length := (List.takeWhile_prefix _).length_le
      simp only [if_pos h, Option.bind_eq_bind, Option.bind_some, decide_eq_true h,
        Bool.true_eq_false, if_false]
      change UriOutcome uri params ((urlDecode (uri.take (uriPath uri).length)).bind _)
      rw [hpre]
      obtain ⟨res, str, h4, h5, h6⟩ := urlDecode_outcome (uriPath uri)
      have hlen := overwrite_length uri 0 str (by omega)
      have hdrop : ∀ k, (uriPath uri).length ≤ k → (overwrite uri 0 str).drop k = uri.drop k :=
        fun k hk => overwrite_drop uri 0 str k (Nat.zero_le _) (by omega)
      rw [h4, Option.bind_some]
      rcases h6 with ⟨rfl, h6⟩ | ⟨d, h6, rfl, h7⟩
      · exact ⟨_, _, rfl, rfl, hlen, hdrop, .inl ⟨rfl, by rw [normalizedUri, h6]; rfl⟩⟩
      · have hdl : d.length ≤ str.length := by
          have h8 := congrArg List.length h7
          rw [List.length_take] at h8
          omega
        have htake : (overwrite uri 0 str).take d.length = d := by
          have h8 := overwrite_slice uri 0 str d.length (Nat.zero_le _) hdl
          rwa [Bytes.slice, List.drop_zero, h7] at h8
        have hstar : d.length = 1 ∧ (overwrite uri 0 str)[0]? = some ASTERISK ↔ d = [ASTERISK] := by
          have h8 := slice_dot (overwrite uri 0 str) 0 d.length (by omega) ASTERISK
          rw [Bytes.slice, List.drop_zero, htake] at h8
          exact h8.symm
        by_cases hd : d = [ASTERISK]
        · simp only [if_pos (hstar.mpr hd)]
          exact ⟨_, _, rfl, rfl, hlen, hdrop,
            .inl ⟨rfl, by rw [normalizedUri, h6, Option.bind_some, if_pos hd]⟩⟩
        · simp only [if_neg fun h8 => hd (hstar.mp h8), htake]
          exact normalizeUri_decoded uri _ d params h6 hd hlen (by omega) htake hdrop
    · simp only [if_neg h, Option.bind_eq_bind, Option.bind_some, decide_eq_false h]
      exact ⟨_, rfl⟩

/-- **`normalize_uri` composes its steps without disturbing the query**, for every URI whose
query has at most 32 parameters.  With `q` the part before the first `?` or `#`, it returns `0`
exactly when `q` decodes to some `d`, `d` is not `*` and `d` without its authority has a normal
form, which is then what `uri` points to; else it returns `-1`.  Nothing behind `q` is written,
and every parameter recorded before the decoding reads the bytes that it read in the URI. -/
theorem normalizeUri_composes (uri : Bytes) (h : (queryPairs uri).length ≤ MAX_QUERY_PARAMS) :
    ∃ code req params uriLen, normalizeUri uri = some (code, req) ∧
      (code = 0 ↔ ∃ d p, percentDecode (uriPath uri) = some d ∧ d ≠ [ASTERISK] ∧
        normalizedPath (stripAuthority d) = some p) ∧
      (code = 0 → ∀ d, percentDecode (uriPath uri) = some d →
        normalizedPath (stripAuthority d) = some req.path) ∧
      (code ≠ 0 → code = -1) ∧
      parseQueryParams uri = some (true, params, uriLen) ∧ req.queryParams = params ∧
      (∀ p ∈ params, p.read req.buf = p.read uri) ∧ req.buf.length = uri.length ∧
      req.buf.drop (uriPath uri).length = uri.drop (uriPath uri).length := by
  obtain ⟨ok, params, uriLen, hparse, hok, hinside, hout⟩ := normalizeUri_outcome uri
  rw [hok.mpr h] at hparse
  rw [if_pos h] at hout
  obtain ⟨code, req, h1, h2, h3, h4, h5⟩ := hout
  have hnorm : ∀ p, normalizedUri uri = some p ↔ ∃ d, percentDecode (uriPath uri) = some d ∧
      d ≠ [ASTERISK] ∧ normalizedPath (stripAuthority d) = some p := by
    intro p
    unfold normalizedUri
    rw [Option.bind_eq_some_iff]
    constructor
    · rintro ⟨d, hd, hp⟩
      split_ifs at hp with hstar
      exact ⟨d, hd, hstar, hp⟩
    · rintro ⟨d, hd, hstar, hp⟩
      exact ⟨d, hd, by rw [if_neg hstar, hp]⟩
  refine ⟨code, req, params, uriLen, h1, ?_, ?_, ?_, hparse, h2,
    fun p hp => HttpParam.read_frame (hinside p hp) h4, h3, h4 _ le_rfl⟩
  · rcases h5 with ⟨rfl, h5⟩ | ⟨rfl, h5⟩
    · constructor
      · intro h6
        cases h6
      · rintro ⟨d, p, h6⟩
        rw [(hnorm p).mpr ⟨d, h6⟩] at h5
        cases h5
    · obtain ⟨d, h6⟩ := (hnorm _).mp h5
      exact ⟨fun _ => ⟨d, _, h6⟩, fun _ => rfl⟩
  · rintro rfl d hd
    rcases h5 with ⟨h5, -⟩ | ⟨-, h5⟩
    · cases h5
    · obtain ⟨d', h6, -, h7⟩ := (hnorm _).mp h5
      rw [hd, Option.some.injEq] at h6
      rwa [h6]
  · rintro hne
    rcases h5 with ⟨h5, -⟩ | ⟨h5, -⟩
    · exact h5
    · exact absurd h5 hne

/-- an absolute form with an encoded letter, dots and a parameter -/
theorem normalizeUri_composes_sample :
    (queryPairs (ascii "HTTP://h/a/%2e/%62?x=%41")).length ≤ MAX_QUERY_PARAMS ∧
      ∃ code req params uriLen, normalizeUri (ascii "HTTP://h/a/%2e/%62?x=%41") = some (code, req) ∧
        (code = 0 → ∀ d, percentDecode (uriPath (ascii "HTTP://h/a/%2e/%62?x=%41")) = some d →
          normalizedPath (stripAuthority d) = some req.path) ∧
        parseQueryParams (ascii "HTTP://h/a/%2e/%62?x=%41") = some (true, params, uriLen) := by
  have h : (queryPairs (ascii "HTTP://h/a/%2e/%62?x=%41")).length ≤ MAX_QUERY_PARAMS := by decide
  obtain ⟨code, req, params, uriLen, h1, -, h2, -, h3, -⟩ := normalizeUri_composes _ h
  exact ⟨h, code, req, params, uriLen, h1, h2, h3⟩

example : (normalizeUri (ascii "/%2e/%62?x=%41")).map (fun x => (x.1, x.2.path)) =
    some (0, ascii "/b") := by decide

end Http
