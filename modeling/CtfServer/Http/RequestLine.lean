import CtfServer.Http.Chunks
import CtfServer.Http.Grammar

/-!
# The request line

The states of the parser are positions in the grammar of `Http.Grammar`.  For every part of a
head there are two lemmas: `…_run` (the parser runs over a part that stands there) and `…_split`
(an accepting run finds such a part there).  Here are the parts of the request line.

* `Span`                 states that stay where they are over a class of bytes;
* `LineEnd`              states that end a line with LF or CRLF;
* `parseMethod_at_start`   the look-ahead finds exactly the nine methods;
* `parseVersion_iff`     and `parse_version` the two versions;
* `requestLine_run`, `requestLine_split`
-/

set_option linter.unusedVariables false
set_option linter.unusedSimpArgs false

namespace Http

/-! ## runs from an index -/

/-- the loop of `parse_chunk` over the complete input `b`, from the index `i` -/
def runFrom (b : Bytes) (i : Nat) (req : HttpRequest) : ChunkResult := parseLoop b b.length i req

def runStep (b : Bytes) : Step → ChunkResult
  | .stop res => res
  | .next j req => runFrom b j req

/-- the run from `i` ends with `ERR_NONE` -/
def Accepting (b : Bytes) (i : Nat) (req : HttpRequest) : Prop := (runFrom b i req).err.code = .none

theorem byteAt_drop {b l : Bytes} {i : Nat} {c : UInt8} (h : b.drop i = c :: l) :
    byteAt b i = c ∧ i < b.length ∧ b.drop (i + 1) = l := by
  have hi : i < b.length := by
    by_contra hge
    rw [List.drop_of_length_le (by omega)] at h
    cases h
  have h1 := List.drop_eq_getElem_cons hi
  rw [h] at h1
  obtain ⟨h2, h3⟩ := List.cons.inj h1
  refine ⟨?_, hi, h3.symm⟩
  unfold byteAt
  rw [List.getD_eq_getElem b 0 hi, h2]

theorem drop_append_length {b u l : Bytes} {i : Nat} (h : b.drop i = u ++ l) :
    b.drop (i + u.length) = l := by
  rw [← List.drop_drop, h, List.drop_left]

theorem slice_drop {b u l : Bytes} {i : Nat} (h : b.drop i = u ++ l) :
    Bytes.slice b i u.length = u := by
  unfold Bytes.slice
  rw [h, List.take_left]

theorem runFrom_step {b l : Bytes} {i : Nat} {c : UInt8} (req : HttpRequest)
    (h : b.drop i = c :: l) :
    runFrom b i req = runStep b (parseStep b b.length i req) := by
  have hi := (byteAt_drop h).2.1
  unfold runFrom
  cases hs : parseStep b b.length i req with
  | stop res => exact parseLoop_stop _ _ _ _ res hi hs
  | next j r => exact parseLoop_next _ _ _ _ _ _ hi hs

/-- a run that has no byte left waits for more -/
theorem not_accepting_nil {b : Bytes} {i : Nat} (req : HttpRequest) (h : b.drop i = []) :
    ¬ Accepting b i req := by
  have hi : b.length ≤ i := List.drop_eq_nil_iff.mp h
  unfold Accepting runFrom
  rw [parseLoop_end _ _ _ _ hi]
  exact fun h => by cases h

/-- inside the head the loop first looks at the limit of 4096 bytes -/
theorem parseStep_head {b : Bytes} {e i : Nat} {req : HttpRequest}
    (hs : req.state.beforeBody = true) (hi : i + 1 < MAX_HEADER_BYTES) :
    parseStep b e i req = match parseByte b e i req with
      | .stop res => .stop res
      | .next j r => headerComplete j r := by
  unfold parseStep
  exact if_neg fun h => by omega

theorem not_accepting_limit {b l : Bytes} {i : Nat} {c : UInt8} (req : HttpRequest)
    (h : b.drop i = c :: l) (hs : req.state.beforeBody = true) (hi : MAX_HEADER_BYTES ≤ i + 1) :
    ¬ Accepting b i req := by
  unfold Accepting
  rw [runFrom_step req h]
  unfold parseStep
  rw [if_pos ⟨hs, hi⟩]
  exact fun h => by cases h

/-- a byte that an accepting run finds in the head -/
theorem Accepting.cons {b : Bytes} {i : Nat} {req : HttpRequest} (h : Accepting b i req)
    (hs : req.state.beforeBody = true) : ∃ c l, b.drop i = c :: l ∧ i + 1 < MAX_HEADER_BYTES := by
  cases hd : b.drop i with
  | nil => exact absurd h (not_accepting_nil req hd)
  | cons c l =>
    refine ⟨c, l, rfl, ?_⟩
    by_contra hi
    exact not_accepting_limit req hd hs (by omega) h

/-! ## spans -/

/-- the effect `g` of a run of bytes -/
def scan (g : Nat → UInt8 → HttpRequest → HttpRequest) (i : Nat) : Bytes → HttpRequest → HttpRequest
  | [], req => req
  | c :: cs, req => scan g (i + 1) cs (g i c req)

/-- in the requests of `S` the bytes of `p` are taken one by one, each with the effect `g` -/
structure Span (b : Bytes) (p : UInt8 → Bool) (S : HttpRequest → Prop)
    (g : Nat → UInt8 → HttpRequest → HttpRequest) : Prop where
  step : ∀ i c l req, S req → b.drop i = c :: l → p c = true → i + 1 < MAX_HEADER_BYTES →
    parseStep b b.length i req = .next (i + 1) (g i c req)
  keep : ∀ i c req, S req → p c = true → S (g i c req)
  head : ∀ req, S req → req.state.beforeBody = true

section
variable {b : Bytes} {p : UInt8 → Bool} {S : HttpRequest → Prop}
  {g : Nat → UInt8 → HttpRequest → HttpRequest}

theorem Span.run (H : Span b p S g) {i : Nat} {u l : Bytes} {req : HttpRequest} (hS : S req)
    (hd : b.drop i = u ++ l) (hu : ∀ c ∈ u, p c = true) (hi : i + u.length < MAX_HEADER_BYTES) :
    runFrom b i req = runFrom b (i + u.length) (scan g i u req) ∧ S (scan g i u req) := by
  induction u generalizing i req with
  | nil => exact ⟨rfl, hS⟩
  | cons c u ih =>
    rw [List.length_cons] at hi
    have hc := hu c List.mem_cons_self
    have hstep := H.step i c (u ++ l) req hS hd hc (by omega)
    obtain ⟨h1, h2⟩ := ih (H.keep i c req hS hc) (byteAt_drop hd).2.2
      (fun d hd => hu d (List.mem_cons_of_mem _ hd)) (by omega)
    refine ⟨?_, h2⟩
    rw [runFrom_step req hd, hstep]
    show runFrom b (i + 1) (g i c req) = _
    rw [h1, List.length_cons]
    congr 1
    omega

/-- an accepting run over a span finds its end -/
theorem Span.split (H : Span b p S g) {i : Nat} {req : HttpRequest} (hS : S req)
    (ha : Accepting b i req) :
    ∃ u c l, b.drop i = u ++ c :: l ∧ (∀ d ∈ u, p d = true) ∧ p c = false ∧
      i + u.length + 1 < MAX_HEADER_BYTES ∧ Accepting b (i + u.length) (scan g i u req) := by
  obtain ⟨n, hn⟩ : ∃ n, n = b.length - i := ⟨_, rfl⟩
  induction n generalizing i req with
  | zero =>
    exact absurd ha (not_accepting_nil req (List.drop_of_length_le (by omega)))
  | succ n ih =>
    obtain ⟨c, l, hd, hi⟩ := ha.cons (H.head req hS)
    cases hc : p c with
    | false => exact ⟨[], c, l, hd, fun _ h => absurd h List.not_mem_nil, hc, hi, ha⟩
    | true =>
      have ha' : Accepting b (i + 1) (g i c req) := by
        unfold Accepting at ha ⊢
        rw [runFrom_step req hd, H.step i c l req hS hd hc hi] at ha
        exact ha
      obtain ⟨u, d, m, h1, h2, h3, h4, h5⟩ := ih (H.keep i c req hS hc) ha' (by omega)
      rw [(byteAt_drop hd).2.2] at h1
      refine ⟨c :: u, d, m, by rw [hd, h1]; rfl, ?_, h3, ?_, ?_⟩
      · exact List.forall_mem_cons.mpr ⟨hc, h2⟩
      · rw [List.length_cons]; omega
      · rw [List.length_cons, show i + (u.length + 1) = i + 1 + u.length by omega]
        exact h5

end

/-! ## the URI -/

theorem span_uri (b : Bytes) : Span b uriByte (fun req => req.state = .reqUri)
    (fun i _ req => { req with uri := some (req.uri.getD i) }) where
  step := by
    intro i c l req hS hd hc hi
    obtain ⟨hb, -, -⟩ := byteAt_drop hd
    unfold uriByte at hc
    simp only [Bool.and_eq_true, bne_iff_ne, ne_eq] at hc
    rw [parseStep_head (by rw [hS]; rfl) hi]
    unfold parseByte
    simp only [hS, hb, hc.1.1, hc.1.2, hc.2, or_self, if_false]
    simp [headerComplete, hS]
  keep := fun _ _ _ h _ => h
  head := fun req h => by rw [h]; rfl

theorem scan_uri (i : Nat) (u : Bytes) (req : HttpRequest) (hu : u ≠ []) :
    scan (fun i _ req => { req with uri := some (req.uri.getD i) }) i u req
      = { req with uri := some (req.uri.getD i) } := by
  induction u generalizing i req with
  | nil => exact absurd rfl hu
  | cons c u ih =>
    cases u with
    | nil => rfl
    | cons d u =>
      rw [scan, ih _ _ (by simp)]
      simp

theorem uri_end {b l : Bytes} {i s : Nat} (req : HttpRequest) (hd : b.drop i = SP :: l)
    (hi : i + 1 < MAX_HEADER_BYTES) (hs : req.state = .reqUri) (hu : req.uri = some s)
    (hlt : s < i) :
    runFrom b i req = runFrom b (i + 1) { req with uriLen := i - s, state := .reqVersion } := by
  obtain ⟨hb, -, -⟩ := byteAt_drop hd
  rw [runFrom_step req hd, parseStep_head (by rw [hs]; rfl) hi]
  unfold parseByte
  have h0 : i - s ≠ 0 := by omega
  simp only [hs, hb, hu, Option.getD_some, if_true, h0, if_false]
  simp [headerComplete, runStep]

theorem uri_run {b u l : Bytes} {i : Nat} (req : HttpRequest) (hd : b.drop i = u ++ SP :: l)
    (hs : req.state = .reqUri) (hn : req.uri = none) (hne : u ≠ []) (hu : ∀ c ∈ u, uriByte c = true)
    (hi : i + u.length + 1 < MAX_HEADER_BYTES) :
    runFrom b i req = runFrom b (i + u.length + 1)
      { req with uri := some i, uriLen := u.length, state := .reqVersion } := by
  have hlen : 0 < u.length := List.length_pos_of_ne_nil hne
  rw [((span_uri b).run hs hd hu (by omega)).1, scan_uri i u req hne, hn]
  have h := uri_end (s := i) { req with uri := some i } (drop_append_length hd) hi hs rfl (by omega)
  rw [Nat.add_sub_cancel_left] at h
  exact h

theorem uri_split {b : Bytes} {i : Nat} {req : HttpRequest} (ha : Accepting b i req)
    (hs : req.state = .reqUri) (hn : req.uri = none) :
    ∃ u l, b.drop i = u ++ SP :: l ∧ u ≠ [] ∧ (∀ c ∈ u, uriByte c = true) ∧
      i + u.length + 1 < MAX_HEADER_BYTES := by
  obtain ⟨u, c, l, hd, hu, hc, hi, ha'⟩ := (span_uri b).split hs ha
  have hdc := drop_append_length hd
  obtain ⟨hb, -, -⟩ := byteAt_drop hdc
  have hs' := ((span_uri b).run hs hd hu (by omega)).2
  -- what stands behind the span is a space, and the span is not empty
  have hkey : c = SP ∧ u ≠ [] := by
    unfold Accepting at ha'
    rw [runFrom_step _ hdc, parseStep_head (by rw [hs']; rfl) hi] at ha'
    unfold parseByte at ha'
    simp only [hs', hb] at ha'
    by_cases h1 : c = SP
    · refine ⟨h1, fun h2 => ?_⟩
      subst h2 h1
      simp [scan, hn, failWith, runStep] at ha'
    · have h2 : c = CR ∨ c = LF := by
        unfold uriByte at hc
        simp only [Bool.and_eq_false_iff, bne_eq_false_iff_eq] at hc
        tauto
      rw [if_neg h1, if_pos h2] at ha'
      cases ha'
  exact ⟨u, l, hkey.1 ▸ hd, hkey.2, hu, hi⟩

/-! ## the method -/

/-- a mask of whole bytes compares a prefix -/
theorem mask_iff (w c : Bytes) (v mask : Nat) (hm : mask = 2 ^ (8 * c.length) - 1)
    (hv : v = Bytes.leNat c) (hl : c.length ≤ w.length) : Bytes.leNat w &&& mask = v ↔ c <+: w := by
  rw [hm, Nat.and_two_pow_sub_one_eq_mod, Nat.pow_mul, hv]
  exact Bytes.leNat_mod_eq_iff w c hl

theorem word_iff (w c : Bytes) (v : Nat) (hv : v = Bytes.leNat c) (hl : c.length = w.length) :
    Bytes.leNat w = v ↔ c <+: w := by
  rw [hv]
  constructor
  · intro h
    exact Bytes.leNat_inj w c hl.symm h ▸ List.prefix_rfl
  · intro h
    rw [h.eq_of_length hl]

theorem methods_disjoint (m m' : HttpMethod) (w : Bytes) (h : m.bytes ++ [SP] <+: w)
    (h' : m'.bytes ++ [SP] <+: w) : m = m' := by
  have hp := List.prefix_or_prefix_of_prefix h h'
  revert hp
  cases m <;> cases m' <;> decide

/-- what the masks of `parse_method` find in a word of eight bytes -/
theorem parseMethod_at_start (b : Bytes) (m : HttpMethod) (len : Nat) (h8 : 8 ≤ b.length) :
    parseMethod b 0 = some (m, len) ↔ m.bytes ++ [SP] <+: b ∧ len = m.bytes.length := by
  have hw : (Bytes.slice b 0 8).length = 8 := by simp [Bytes.slice]; omega
  have hpre : ∀ c : Bytes, c.length ≤ 8 → (c <+: Bytes.slice b 0 8 ↔ c <+: b) := by
    intro c hc
    unfold Bytes.slice
    rw [List.drop_zero, List.prefix_take_iff]
    exact ⟨fun h => h.1, fun h => ⟨h, hc⟩⟩
  have hget := (mask_iff (Bytes.slice b 0 8) (HttpMethod.get.bytes ++ [SP]) METHOD_VALUE_GET
    0x00000000ffffffff rfl rfl (by rw [hw]; decide)).trans (hpre _ (by decide))
  have hput := (mask_iff (Bytes.slice b 0 8) (HttpMethod.put.bytes ++ [SP]) METHOD_VALUE_PUT
    0x00000000ffffffff rfl rfl (by rw [hw]; decide)).trans (hpre _ (by decide))
  have hpost := (mask_iff (Bytes.slice b 0 8) (HttpMethod.post.bytes ++ [SP]) METHOD_VALUE_POST
    0x000000ffffffffff rfl rfl (by rw [hw]; decide)).trans (hpre _ (by decide))
  have hhead := (mask_iff (Bytes.slice b 0 8) (HttpMethod.head.bytes ++ [SP]) METHOD_VALUE_HEAD
    0x000000ffffffffff rfl rfl (by rw [hw]; decide)).trans (hpre _ (by decide))
  have hpatch := (mask_iff (Bytes.slice b 0 8) (HttpMethod.patch.bytes ++ [SP]) METHOD_VALUE_PATCH
    0x0000ffffffffffff rfl rfl (by rw [hw]; decide)).trans (hpre _ (by decide))
  have htrace := (mask_iff (Bytes.slice b 0 8) (HttpMethod.trace.bytes ++ [SP]) METHOD_VALUE_TRACE
    0x0000ffffffffffff rfl rfl (by rw [hw]; decide)).trans (hpre _ (by decide))
  have hdelete := (mask_iff (Bytes.slice b 0 8) (HttpMethod.delete.bytes ++ [SP])
    METHOD_VALUE_DELETE
    0x00ffffffffffffff rfl rfl (by rw [hw]; decide)).trans (hpre _ (by decide))
  have hoptions := (word_iff (Bytes.slice b 0 8) (HttpMethod.options.bytes ++ [SP])
    METHOD_VALUE_OPTIONS rfl (by rw [hw]; decide)).trans (hpre _ (by decide))
  have hconnect := (word_iff (Bytes.slice b 0 8) (HttpMethod.connect.bytes ++ [SP])
    METHOD_VALUE_CONNECT rfl (by rw [hw]; decide)).trans (hpre _ (by decide))
  unfold parseMethod
  simp only [hget, hput, hpost, hhead, hpatch, htrace, hdelete, hoptions, hconnect]
  constructor
  · intro h
    split at h
    · cases h; exact ⟨‹_›, rfl⟩
    split at h
    · cases h; exact ⟨‹_›, rfl⟩
    split at h
    · cases h; exact ⟨‹_›, rfl⟩
    split at h
    · cases h; exact ⟨‹_›, rfl⟩
    split at h
    · cases h; exact ⟨‹_›, rfl⟩
    split at h
    · cases h; exact ⟨‹_›, rfl⟩
    split at h
    · cases h; exact ⟨‹_›, rfl⟩
    split at h
    · cases h; exact ⟨‹_›, rfl⟩
    split at h
    · cases h; exact ⟨‹_›, rfl⟩
    · cases h
  · rintro ⟨h1, rfl⟩
    have hne : ∀ m', m' ≠ m → ¬ m'.bytes ++ [SP] <+: b :=
      fun m' hm h' => hm (methods_disjoint m' m b h' h1)
    cases m <;> simp only [h1, hne, if_true, if_false, ne_eq, reduceCtorEq, not_false_eq_true] <;>
      rfl

/-! ## the version -/

/-- the two tests on a digit of the version -/
theorem digitByte_iff (c d : UInt8) (h1 : 48 ≤ d) (h2 : d ≤ 57) :
    (48 ≤ c ∧ c ≤ 57 ∧ c.toNat - 48 = d.toNat - 48) ↔ c = d := by
  simp only [UInt8.le_iff_toNat_le, ← UInt8.toNat_inj] at *
  simp only [show (48 : UInt8).toNat = 48 from rfl, show (57 : UInt8).toNat = 57 from rfl] at *
  omega

theorem parseVersion_iff (b v l : Bytes) (i : Nat) (ver : HttpVersion) (hd : b.drop i = v ++ l) :
    parseVersion b i v.length = some ver ↔ v = ver.bytes := by
  have hc : ∀ k (hk : k < v.length), byteAt b (i + k) = v[k] := by
    intro k hk
    have h1 : (b.drop i)[k]? = (v ++ l)[k]? := by rw [hd]
    rw [List.getElem?_drop, List.getElem?_append_left hk, List.getElem?_eq_getElem hk] at h1
    unfold byteAt
    rw [List.getD_eq_getElem?_getD, h1, Option.getD_some]
  by_cases h8 : v.length = 8
  · obtain ⟨c0, c1, c2, c3, c4, c5, c6, c7, rfl⟩ : ∃ c0 c1 c2 c3 c4 c5 c6 c7 : UInt8,
        v = [c0, c1, c2, c3, c4, c5, c6, c7] := by
      match v, h8 with
      | [c0, c1, c2, c3, c4, c5, c6, c7], _ => exact ⟨c0, c1, c2, c3, c4, c5, c6, c7, rfl⟩
    have e0 := hc 0 (by simp)
    have e1 := hc 1 (by simp)
    have e2 := hc 2 (by simp)
    have e3 := hc 3 (by simp)
    have e4 := hc 4 (by simp)
    have e5 := hc 5 (by simp)
    have e6 := hc 6 (by simp)
    have e7 := hc 7 (by simp)
    unfold parseVersion
    simp only [e0, e1, e2, e3, e4, e5, e6, e7]
    have h5 := digitByte_iff c5 49 (by decide) (by decide)
    cases ver with
    | http10 =>
      have h7 := digitByte_iff c7 48 (by decide) (by decide)
      have hbytes : HttpVersion.http10.bytes = [72, 84, 84, 80, 47, 49, 46, 48] := by decide +kernel
      simp [hbytes]
      clear hc hd e0 e1 e2 e3 e4 e5 e6 e7
      grind
    | http11 =>
      have h7 := digitByte_iff c7 49 (by decide) (by decide)
      have hbytes : HttpVersion.http11.bytes = [72, 84, 84, 80, 47, 49, 46, 49] := by decide +kernel
      simp [hbytes]
      clear hc hd e0 e1 e2 e3 e4 e5 e6 e7
      grind
  · unfold parseVersion
    simp only [if_pos h8]
    refine ⟨fun h => absurd h (by simp), fun h => absurd ?_ h8⟩
    rw [h]
    cases ver <;> rfl

/-! ## ends of lines -/

/-- at `i` a line may end; behind its end the request is `o`, if the parser takes the line -/
structure LineEnd (b : Bytes) (i : Nat) (req : HttpRequest) (o : Option HttpRequest) : Prop where
  head : req.state.beforeBody = true
  refuse : o = none → byteAt b i = CR ∨ byteAt b i = LF → i + 1 < MAX_HEADER_BYTES →
    ∃ res, parseStep b b.length i req = .stop res ∧ res.err.code ≠ .none
  lf : ∀ r, o = some r → byteAt b i = LF → i + 1 < MAX_HEADER_BYTES →
    parseStep b b.length i req = .next (i + 1) r
  cr : ∀ r, o = some r → byteAt b i = CR → i + 1 < MAX_HEADER_BYTES →
    ∃ m res, m.state.beforeBody = true ∧ res.err.code ≠ .none ∧
      parseStep b b.length i req = .next (i + 1) m ∧
      (i + 2 < MAX_HEADER_BYTES →
        parseStep b b.length (i + 1) m = if byteAt b (i + 1) = LF then
        .next (i + 2) r else .stop res)

theorem not_accepting_stop {b l : Bytes} {i : Nat} {c : UInt8} {req : HttpRequest} {r : ChunkResult}
    (hd : b.drop i = c :: l) (hs : parseStep b b.length i req = .stop r)
    (hr : r.err.code ≠ .none) : ¬ Accepting b i req := by
  unfold Accepting
  rw [runFrom_step req hd, hs]
  exact hr

theorem LineEnd.run {b l : Bytes} {i : Nat} {req r : HttpRequest} {eol : Eol}
    (H : LineEnd b i req (some r)) (hd : b.drop i = eol.bytes ++ l)
    (hi : i + eol.bytes.length < MAX_HEADER_BYTES) :
    runFrom b i req = runFrom b (i + eol.bytes.length) r := by
  cases eol with
  | lf =>
    rw [runFrom_step req hd, H.lf r rfl (byteAt_drop hd).1 hi]
    rfl
  | crlf =>
    obtain ⟨hb, -, hd'⟩ := byteAt_drop hd
    obtain ⟨m, res, -, -, h1, h2⟩ := H.cr r rfl hb (by simp [Eol.bytes] at hi; omega)
    have hi2 : i + 2 < MAX_HEADER_BYTES := hi
    rw [runFrom_step req hd, h1]
    show runFrom b (i + 1) m = _
    rw [runFrom_step m hd', h2 hi2, if_pos (byteAt_drop hd').1]
    rfl

theorem LineEnd.split {b l : Bytes} {i : Nat} {req : HttpRequest}
    {o : Option HttpRequest} {c : UInt8}
    (H : LineEnd b i req o) (ha : Accepting b i req) (hd : b.drop i = c :: l)
    (hc : c = CR ∨ c = LF) :
    ∃ r eol l', o = some r ∧ b.drop i = Eol.bytes eol ++ l' ∧
      i + eol.bytes.length < MAX_HEADER_BYTES := by
  obtain ⟨c', l', hd', hi⟩ := ha.cons H.head
  obtain ⟨hb, -, hdl⟩ := byteAt_drop hd
  cases o with
  | none =>
    obtain ⟨res, h1, h2⟩ := H.refuse rfl (hb ▸ hc) hi
    exact absurd ha (not_accepting_stop hd h1 h2)
  | some r =>
    rcases hc with rfl | rfl
    · obtain ⟨m, res, hm, hres, h1, h2⟩ := H.cr r rfl hb hi
      have ha1 : Accepting b (i + 1) m := by
        unfold Accepting at ha ⊢
        rw [runFrom_step req hd, h1] at ha
        exact ha
      obtain ⟨d, k, hd1, hi1⟩ := ha1.cons hm
      have h3 := h2 hi1
      by_cases hlf : byteAt b (i + 1) = LF
      · refine ⟨r, .crlf, k, rfl, ?_, hi1⟩
        rw [hd, ← hdl, hd1, ← (byteAt_drop hd1).1, hlf]
        rfl
      · rw [if_neg hlf] at h3
        exact absurd ha1 (not_accepting_stop hd1 h3 hres)
    · exact ⟨r, .lf, l, rfl, hd, hi⟩

/-! ## the version in its line -/

theorem span_version (b : Bytes) : Span b valueByte (fun req => req.state = .reqVersion)
    (fun i _ req => { req with versionPtr := some (req.versionPtr.getD i) }) where
  step := by
    intro i c l req hS hd hc hi
    obtain ⟨hb, -, -⟩ := byteAt_drop hd
    unfold valueByte at hc
    simp only [Bool.and_eq_true, bne_iff_ne, ne_eq] at hc
    rw [parseStep_head (by rw [hS]; rfl) hi]
    unfold parseByte
    simp only [hS, hb, hc.1, hc.2, if_false]
    simp [headerComplete, hS]
  keep := fun _ _ _ h _ => h
  head := fun req h => by rw [h]; rfl

theorem scan_version (i : Nat) (u : Bytes) (req : HttpRequest) (hn : req.versionPtr = none) :
    ∃ p, scan (fun i _ req => { req with versionPtr := some (req.versionPtr.getD i) }) i u req
      = { req with versionPtr := p } ∧ p.getD (i + u.length) = i := by
  have hsome : ∀ (u : Bytes) (j s : Nat) (req : HttpRequest), req.versionPtr = some s →
      scan (fun i _ req => { req with versionPtr := some (req.versionPtr.getD i) }) j u
      req = req := by
    intro u
    induction u with
    | nil => exact fun _ _ _ _ => rfl
    | cons c u ih =>
      intro j s req hs
      have he : ({ req with versionPtr := some (req.versionPtr.getD j) } : HttpRequest) = req := by
        rw [hs, Option.getD_some, ← hs]
      rw [scan, he, ih _ s req hs]
  cases u with
  | nil => exact ⟨none, by rw [← hn]; rfl, rfl⟩
  | cons c u => exact ⟨some i, by rw [scan, hsome u _ i _ (by rw [hn]; rfl), hn]; rfl, rfl⟩

/-- the request behind the version, if there is one -/
def behindVersion (b : Bytes) (i s : Nat) (req : HttpRequest) : Option HttpRequest :=
  (parseVersion b s (i - s)).map fun v =>
    { req with versionPtr := some s, versionLen := i - s, version := v, state := .headerKey }

theorem reqLf_step (b : Bytes) (i : Nat) (req : HttpRequest) (hs : req.state = .reqLf) :
    ∃ res, res.err.code ≠ .none ∧ (i + 1 < MAX_HEADER_BYTES →
      parseStep b b.length i req
        = if byteAt b i = LF then .next (i + 1) { req with state := .headerKey } else
        .stop res) := by
  refine ⟨⟨⟨.httpParseFailed, "invalid request line: expected LF"⟩, 400,
    { req with state := .error }⟩,
    by simp, fun hi => ?_⟩
  rw [parseStep_head (by rw [hs]; rfl) hi]
  unfold parseByte
  simp only [hs]
  by_cases hc : byteAt b i = LF
  · rw [if_pos hc, if_pos hc]
    rfl
  · rw [if_neg hc, if_neg hc]
    rfl

theorem lineEnd_version (b : Bytes) (i : Nat) (req : HttpRequest) (hs : req.state = .reqVersion) :
    LineEnd b i req (behindVersion b i (req.versionPtr.getD i) req) where
  head := by rw [hs]; rfl
  refuse := by
    intro ho hc hi
    have hp : parseVersion b (req.versionPtr.getD i) (i - req.versionPtr.getD i) = none := by
      simpa [behindVersion] using ho
    rw [parseStep_head (by rw [hs]; rfl) hi]
    unfold parseByte endVersion
    simp only [hs, hp]
    rcases hc with hc | hc
    · rw [if_pos hc]
      exact ⟨_, rfl, by simp⟩
    · rw [if_neg (by rw [hc]; decide), if_pos hc]
      exact ⟨_, rfl, by simp⟩
  lf := by
    intro r ho hc hi
    obtain ⟨v, hp, rfl⟩ := Option.map_eq_some_iff.mp ho
    rw [parseStep_head (by rw [hs]; rfl) hi]
    unfold parseByte endVersion
    simp only [hs, hp, hc, show ¬ LF = CR by decide, if_true, if_false]
    rfl
  cr := by
    intro r ho hc hi
    obtain ⟨v, hp, rfl⟩ := Option.map_eq_some_iff.mp ho
    obtain ⟨res, hres, h⟩ := reqLf_step b (i + 1)
      { req with versionPtr := some (req.versionPtr.getD i), versionLen :=
        i - req.versionPtr.getD i,
                 version := v, state := .reqLf } rfl
    refine ⟨_, res, rfl, hres, ?_, h⟩
    rw [parseStep_head (by rw [hs]; rfl) hi]
    unfold parseByte endVersion
    simp only [hs, hp, hc, if_true]
    rfl

theorem version_run {b l : Bytes} {i : Nat} (req : HttpRequest) (ver : HttpVersion) (eol : Eol)
    (hd : b.drop i = ver.bytes ++ (eol.bytes ++ l)) (hs : req.state = .reqVersion)
    (hn : req.versionPtr = none)
    (hi : i + (ver.bytes.length + eol.bytes.length) < MAX_HEADER_BYTES) :
    runFrom b i req = runFrom b (i + (ver.bytes.length + eol.bytes.length))
      { req with versionPtr := some i, versionLen := ver.bytes.length, version := ver,
                 state := .headerKey } := by
  have hv : ∀ c ∈ ver.bytes, valueByte c = true := by cases ver <;> decide +kernel
  obtain ⟨p, hp, hpi⟩ := scan_version i ver.bytes req hn
  have hdl := drop_append_length hd
  rw [((span_version b).run hs hd hv (by omega)).1, hp]
  have h := lineEnd_version b (i + ver.bytes.length) { req with versionPtr := p } hs
  simp only [behindVersion, hpi, Nat.add_sub_cancel_left,
    (parseVersion_iff b _ _ i ver hd).mpr rfl] at h
  rw [h.run hdl (by omega), Nat.add_assoc]

theorem version_split {b : Bytes} {i : Nat} {req : HttpRequest} (ha : Accepting b i req)
    (hs : req.state = .reqVersion) (hn : req.versionPtr = none) :
    ∃ ver eol l, b.drop i = HttpVersion.bytes ver ++ (Eol.bytes eol ++ l) ∧
      i + (ver.bytes.length + eol.bytes.length) < MAX_HEADER_BYTES := by
  obtain ⟨u, c, l, hd, hu, hc, hi, ha'⟩ := (span_version b).split hs ha
  obtain ⟨p, hp, hpi⟩ := scan_version i u req hn
  have hdl := drop_append_length hd
  rw [hp] at ha'
  have hcr : c = CR ∨ c = LF := by
    unfold valueByte at hc
    simpa only [Bool.and_eq_false_iff, bne_eq_false_iff_eq] using hc
  have h := lineEnd_version b (i + u.length) { req with versionPtr := p } hs
  obtain ⟨r, eol, l', ho, hdl', hi'⟩ := h.split ha' hdl hcr
  simp only [behindVersion, hpi, Nat.add_sub_cancel_left] at ho
  obtain ⟨ver, hver, -⟩ := Option.map_eq_some_iff.mp ho
  have hb := (parseVersion_iff b u _ i ver hd).mp hver
  refine ⟨ver, eol, l', ?_, by rw [← hb]; omega⟩
  rw [hd, ← hdl, hdl', hb]

/-! ## the request line -/

/-- the request behind a request line -/
def afterLine (m : HttpMethod) (u : Bytes) (ver : HttpVersion) : HttpRequest :=
  { state := .headerKey, methodPtr := some 0, methodLen := m.bytes.length, method := m
    uri := some (m.bytes.length + 1), uriLen := u.length
    versionPtr := some (m.bytes.length + 1 + u.length + 1), versionLen := ver.bytes.length
    version := ver }

def lineBytes (m : HttpMethod) (u : Bytes) (ver : HttpVersion) (eol : Eol) : Bytes :=
  m.bytes ++ SP :: (u ++ SP :: (ver.bytes ++ eol.bytes))

theorem method_run (b : Bytes) (m : HttpMethod) (h8 : 8 ≤ b.length) (hb : m.bytes ++ [SP] <+: b) :
    runFrom b 0 HttpRequest.fresh = runFrom b (m.bytes.length + 1)
      { state := .reqUri, methodPtr := some 0, methodLen := m.bytes.length, method := m } := by
  have hp := (parseMethod_at_start b m _ h8).mpr ⟨hb, rfl⟩
  have hstart := parseStep_start b b.length 0 none (by omega) rfl
  rw [if_neg (by omega)] at hstart
  simp only [hp] at hstart
  exact parseLoop_next _ _ _ _ _ _ (by omega) hstart

theorem method_split (b : Bytes) (ha : Accepting b 0 HttpRequest.fresh) :
    8 ≤ b.length ∧ ∃ m, HttpMethod.bytes m ++ [SP] <+: b := by
  obtain ⟨c, l, hd, -⟩ := ha.cons rfl
  have hstart := parseStep_start b b.length 0 none (by omega) rfl
  by_cases h8 : b.length < 8
  · rw [if_pos h8] at hstart
    exact absurd ha (not_accepting_stop hd hstart (by decide))
  · rw [if_neg h8] at hstart
    cases hp : parseMethod b 0 with
    | none =>
      simp only [hp] at hstart
      exact absurd ha (not_accepting_stop hd hstart (by decide))
    | some ml => exact ⟨by omega, ml.1, ((parseMethod_at_start b ml.1 ml.2 (by omega)).mp hp).1⟩

theorem requestLine_run {b l u : Bytes} (m : HttpMethod) (ver : HttpVersion) (eol : Eol)
    (hb : b = lineBytes m u ver eol ++ l) (hne : u ≠ []) (hu : ∀ c ∈ u, uriByte c = true)
    (hi : (lineBytes m u ver eol).length < MAX_HEADER_BYTES) :
    runFrom b 0 HttpRequest.fresh = runFrom b (lineBytes m u ver eol).length
      (afterLine m u ver) := by
  have hlen : (lineBytes m u ver eol).length
      = m.bytes.length + 1 + u.length + 1 + (ver.bytes.length + eol.bytes.length) := by
    simp [lineBytes]
    omega
  have hver : ver.bytes.length = 8 := by cases ver <;> rfl
  have h0 : b.drop 0 = m.bytes ++ [SP] ++ (u ++ SP :: (ver.bytes ++ (eol.bytes ++ l))) := by
    rw [hb]
    simp [lineBytes]
  have h1 := drop_append_length h0
  simp only [Nat.zero_add, List.length_append, List.length_singleton] at h1
  have h2 := drop_append_length (l := ver.bytes ++ (eol.bytes ++ l)) (u := u ++ [SP])
    (h1.trans (by simp))
  simp only [List.length_append, List.length_singleton, ← Nat.add_assoc] at h2
  have h8 : 8 ≤ b.length := by rw [hb, List.length_append, hlen]; omega
  rw [method_run b m h8 ⟨_, h0.symm⟩, uri_run _ h1 rfl rfl hne hu (by omega),
    version_run _ ver eol h2 rfl rfl (by omega), hlen]
  rfl

theorem requestLine_split (b : Bytes) (ha : Accepting b 0 HttpRequest.fresh) :
    ∃ m u ver eol l, b = lineBytes m u ver eol ++ l ∧ u ≠ [] ∧ (∀ c ∈ u, uriByte c = true) ∧
      (lineBytes m u ver eol).length < MAX_HEADER_BYTES := by
  obtain ⟨h8, m, hm⟩ := method_split b ha
  obtain ⟨l0, h0⟩ := hm
  have h1 : b.drop (m.bytes.length + 1) = l0 := by rw [← h0]; simp
  unfold Accepting at ha
  rw [method_run b m h8 ⟨l0, h0⟩] at ha
  obtain ⟨u, l1, hd, hne, hu, hi⟩ := uri_split ha rfl rfl
  rw [uri_run _ hd rfl rfl hne hu hi] at ha
  have h2 := drop_append_length (l := l1) (u := u ++ [SP]) (hd.trans (by simp))
  simp only [List.length_append, List.length_singleton, ← Nat.add_assoc] at h2
  obtain ⟨ver, eol, l, hv, hi2⟩ := version_split ha rfl rfl
  refine ⟨m, u, ver, eol, l, ?_, hne, hu, ?_⟩
  · rw [← h0, ← h1, hd, ← h2, hv]
    simp [lineBytes]
  · simp [lineBytes]
    omega

end Http
