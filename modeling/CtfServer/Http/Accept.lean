import CtfServer.Http.HeaderLines

/-!
# The parser accepts exactly the grammar

* `headEnd_run`         the end of the head: the limits, then the body;
* `Extracts b h n req`  the request `req` is the parse of the head `h` and of `n` bytes of body;
* `parseWhole_accepts`  one call accepts exactly the inputs of `Accepts`, and extracts their parts.
-/

set_option linter.unusedVariables false
set_option linter.unusedSimpArgs false

namespace Http

/-! ## the end of the head -/

/-- the request of an accepted head that ends at the offset `j` -/
def finished (req : HttpRequest) (j : Nat) : HttpRequest :=
  { req with state := .done, body := if req.contentLength = 0 then none else some j
             bodyBytesRead := req.contentLength }

/-- the body of an accepted input has arrived, and the whole request is within its limit -/
def Complete (b : Bytes) (j n : Nat) : Prop := n < MAX_REQUEST_BYTES - j ∧ j + n ≤ b.length

theorem body_run (b : Bytes) (j : Nat) (req : HttpRequest) (hs : req.state = .body)
    (hr : req.bodyBytesRead = 0) (hn : req.contentLength ≠ 0) :
    (j + req.contentLength ≤ b.length → runFrom b j req
      = ⟨⟨.none, ""⟩, STATUS_OK, { req with state := .done, bodyBytesRead := req.contentLength }⟩) ∧
    (¬ j + req.contentLength ≤ b.length → ¬ Accepting b j req) := by
  unfold Accepting runFrom
  by_cases hj : j < b.length
  · have h := parseLoop_body b b.length j req hj hs
    unfold bodyOutcome at h
    rw [hr, Nat.zero_add, Nat.sub_zero] at h
    constructor
    · intro hle
      have hmin : min (b.length - j) req.contentLength = req.contentLength := by omega
      rw [hmin, if_pos rfl] at h
      exact (outcome_inr _ _ h).2
    · intro hle hacc
      rw [if_neg (by omega)] at h
      rw [(outcome_inl _ _ h).1] at hacc
      cases hacc
  · refine ⟨fun hle => by omega, fun _ hacc => ?_⟩
    rw [parseLoop_end _ _ _ _ (by omega)] at hacc
    cases hacc

theorem headerComplete_run (b : Bytes) (i : Nat) (req : HttpRequest) (hb : req.body = none)
    (hr : req.bodyBytesRead = 0) (hi : i + 1 ≤ b.length) :
    (Complete b (i + 1) req.contentLength → runStep b (headerComplete i { req with state := .body })
      = ⟨⟨.none, ""⟩, STATUS_OK, finished req (i + 1)⟩) ∧
    (¬ Complete b (i + 1) req.contentLength →
      (runStep b (headerComplete i { req with state := .body })).err.code ≠ .none) := by
  unfold headerComplete Complete
  simp only [if_true]
  by_cases hlim : req.contentLength ≥ MAX_REQUEST_BYTES - (i + 1)
  · rw [if_pos hlim]
    exact ⟨fun h => absurd h.1 (by omega), fun _ => by simp [failWith, runStep]⟩
  · rw [if_neg hlim]
    by_cases hn : req.contentLength = 0
    · rw [if_pos hn]
      refine ⟨fun _ => ?_, fun h => absurd ⟨by omega, by omega⟩ h⟩
      simp only [stopNone, runStep, finished, hn, if_true, hb, hr]
    · rw [if_neg hn]
      obtain ⟨h1, h2⟩ := body_run b (i + 1) { req with state := .body, body := some (i + 1) } rfl hr hn
      refine ⟨fun h => ?_, fun h hacc => h2 (fun hle => h ⟨by omega, hle⟩) hacc⟩
      show runFrom b (i + 1) _ = _
      rw [h1 h.2]
      simp only [finished, hn, if_false]

section
variable {b : Bytes} {m : HttpMethod} {u : Bytes} {ver : HttpVersion}
  {hs : List HeaderLine} {n : Nat}
  {req : HttpRequest}

/-- an empty line ends the head -/
theorem emptyLine_run {l : Bytes} {i : Nat} {eol : Eol} (K : Keyed b m u ver hs n req)
    (hd : b.drop i = eol.bytes ++ l) (hi : i + eol.bytes.length < MAX_HEADER_BYTES) :
    ∃ k, k + 1 = i + eol.bytes.length ∧ k + 1 ≤ b.length ∧
      runFrom b i req = runStep b (headerComplete k { req with state := .body }) := by
  cases eol with
  | lf =>
    obtain ⟨hb, hlt, -⟩ := byteAt_drop hd
    refine ⟨i, rfl, hlt, ?_⟩
    rw [runFrom_step req hd, parseStep_head (by rw [K.state]; rfl) hi]
    unfold parseByte
    simp only [K.state, hb, show ¬ LF = CR by decide, if_true, if_false]
  | crlf =>
    obtain ⟨hb, -, hd1⟩ := byteAt_drop hd
    obtain ⟨hb1, hlt1, -⟩ := byteAt_drop hd1
    have hi1 : i + 1 + 1 < MAX_HEADER_BYTES := hi
    refine ⟨i + 1, rfl, hlt1, ?_⟩
    have h1 : parseStep b b.length i req = .next (i + 1) { req with state := .headerEnd } := by
      rw [parseStep_head (by rw [K.state]; rfl) (by omega)]
      unfold parseByte
      simp only [K.state, hb, if_true]
      rfl
    rw [runFrom_step req hd, h1]
    show runFrom b (i + 1) _ = _
    rw [runFrom_step _ hd1, parseStep_head rfl hi1]
    unfold parseByte
    simp only [hb1, ne_eq, not_true_eq_false, if_false]

theorem emptyLine_split {c : UInt8} {l : Bytes} {i : Nat} (K : Keyed b m u ver hs n req)
    (ha : Accepting b i req) (hd : b.drop i = c :: l) (hc : c = CR ∨ c = LF) :
    ∃ eol l', b.drop i = Eol.bytes eol ++ l' ∧ i + eol.bytes.length < MAX_HEADER_BYTES := by
  obtain ⟨c', l', hd', hi⟩ := ha.cons (by rw [K.state]; rfl)
  obtain ⟨hb, -, hdl⟩ := byteAt_drop hd
  rcases hc with rfl | rfl
  · have h1 : parseStep b b.length i req = .next (i + 1) { req with state := .headerEnd } := by
      rw [parseStep_head (by rw [K.state]; rfl) hi]
      unfold parseByte
      simp only [K.state, hb, if_true]
      rfl
    have ha1 : Accepting b (i + 1) { req with state := .headerEnd } := by
      unfold Accepting at ha ⊢
      rw [runFrom_step req hd, h1] at ha
      exact ha
    obtain ⟨d, k, hd1, hi1⟩ := ha1.cons rfl
    obtain ⟨hb1, -, -⟩ := byteAt_drop hd1
    have hlf : d = LF := by
      by_contra hne
      refine not_accepting_stop (r := ⟨⟨.httpParseFailed, "expected LF after CR"⟩, 400,
        { req with state := .error }⟩) hd1 ?_ (by simp) ha1
      rw [parseStep_head rfl hi1]
      unfold parseByte
      simp only [hb1, ne_eq, hne, not_false_eq_true, if_true]
      rfl
    refine ⟨.crlf, k, ?_, hi1⟩
    rw [hd, ← hdl, hd1, hlf]
    rfl
  · exact ⟨.lf, l, hd, hi⟩

/-- the end of the head: the limits, then the body -/
theorem headEnd_run {l : Bytes} {i : Nat} {eol : Eol} (K : Keyed b m u ver hs n req)
    (hd : b.drop i = eol.bytes ++ l) (hi : i + eol.bytes.length < MAX_HEADER_BYTES) :
    (Complete b (i + eol.bytes.length) n → runFrom b i req
      = ⟨⟨.none, ""⟩, STATUS_OK, finished req (i + eol.bytes.length)⟩) ∧
    (¬ Complete b (i + eol.bytes.length) n → ¬ Accepting b i req) := by
  obtain ⟨k, hk, hle, hrun⟩ := emptyLine_run K hd hi
  unfold Accepting
  rw [hrun, ← hk, ← K.length]
  exact headerComplete_run b k req K.body K.read hle

end

/-! ## the whole request -/

theorem parseWhole_eq (b : Bytes) : parseWhole b = runFrom b 0 HttpRequest.fresh := by
  unfold parseWhole parseChunk runFrom
  rw [Nat.sub_self, if_neg (by decide)]

theorem keyed_afterLine {b l : Bytes} (m : HttpMethod) (u : Bytes) (ver : HttpVersion) (eol : Eol)
    (hb : b = lineBytes m u ver eol ++ l) : Keyed b m u ver [] 0 (afterLine m u ver) := by
  refine ⟨rfl, ⟨_, rfl, ?_⟩, rfl, rfl, rfl, rfl, rfl, List.Forall₂.nil, rfl⟩
  have h : b.drop (m.bytes.length + 1) = u ++ SP :: (ver.bytes ++ (eol.bytes ++ l)) := by
    rw [hb]
    simp [lineBytes]
  exact slice_drop h

theorem Head.bytes_eq (h : Head) : h.bytes = lineBytes h.method h.uri h.version h.eol
    ++ (h.headers.flatMap HeaderLine.bytes ++ h.lastEol.bytes) := by
  simp [Head.bytes, lineBytes]

/-- `req` is the parse of the head `h`, and of a body of `n` bytes behind it -/
structure Extracts (b : Bytes) (h : Head) (n : Nat) (req : HttpRequest) : Prop where
  state : req.state = .done
  method : req.method = h.method
  uri : ∃ s, req.uri = some s ∧ Bytes.slice b s req.uriLen = h.uri
  version : req.version = h.version
  headers : req.headers.map (fun x => (x.nameBytes b, x.valueBytes b))
    = h.headers.map (fun x => (x.name, x.stripped))
  contentLength : req.contentLength = n
  body : req.body = if n = 0 then none else some h.bytes.length
  bodyBytesRead : req.bodyBytesRead = n

theorem Keyed.extracts {b : Bytes} {h : Head} {n j : Nat} {req : HttpRequest}
    (K : Keyed b h.method h.uri h.version h.headers n req) (hj : j = h.bytes.length) :
    Extracts b h n (finished req j) where
  state := rfl
  method := K.method
  uri := K.uri
  version := K.version
  headers := by
    have h1 : ∀ {hl : List HttpHeader} {hs : List HeaderLine}, List.Forall₂ (HeaderAt b) hl hs →
        hl.map (fun x => (x.nameBytes b, x.valueBytes b)) = hs.map
        (fun x => (x.name, x.stripped)) := by
      intro hl hs hf
      induction hf with
      | nil => rfl
      | cons hx _ ih => rw [List.map_cons, List.map_cons, ih, hx.name, hx.value]
    exact h1 K.headers
  contentLength := K.length
  body := by
    unfold finished
    rw [K.length, hj]
  bodyBytesRead := K.length

/-- an input of the grammar is accepted -/
theorem Accepts.run {b : Bytes} {h : Head} {n : Nat} (H : Accepts b h n) :
    (parseWhole b).err.code = .none ∧ Extracts b h n (parseWhole b).req := by
  obtain ⟨tail, htail⟩ := H.head
  have hlen := H.headLen
  have hbody := H.body
  rw [Head.bytes_eq, List.length_append, List.length_append] at hlen
  have hb : b = lineBytes h.method h.uri h.version h.eol
      ++ (h.headers.flatMap HeaderLine.bytes ++ (h.lastEol.bytes ++ tail)) := by
    rw [← htail, Head.bytes_eq, List.append_assoc, List.append_assoc]
  have hd : b.drop (lineBytes h.method h.uri h.version h.eol).length
      = h.headers.flatMap HeaderLine.bytes ++ (h.lastEol.bytes ++ tail) := by
    rw [hb, List.drop_left]
  obtain ⟨req, hrun, K⟩ := headers_run h.headers (keyed_afterLine _ _ _ _ hb) hd
    H.wellFormed.headers
    (by simpa using H.wellFormed.count) (by omega) ((declares_iff _ _).mp H.declares)
  rw [List.nil_append] at K
  have hend := (headEnd_run K (drop_append_length hd) (by omega)).1
  have hj : (lineBytes h.method h.uri h.version h.eol).length
      + (h.headers.flatMap HeaderLine.bytes).length + h.lastEol.bytes.length = h.bytes.length := by
    rw [Head.bytes_eq, List.length_append, List.length_append, Nat.add_assoc]
  rw [hj] at hend
  rw [parseWhole_eq, requestLine_run h.method h.version h.eol hb H.wellFormed.uri.1
    H.wellFormed.uri.2
    (by omega), hrun, hend ⟨H.bodyLen, hbody⟩]
  exact ⟨rfl, K.extracts rfl⟩

/-- an accepted input is in the grammar -/
theorem parseWhole_split (b : Bytes) (ha : (parseWhole b).err.code = .none) :
    ∃ h n, Accepts b h n := by
  rw [parseWhole_eq] at ha
  obtain ⟨m, u, ver, eol, l, hb, hne, hu, hi⟩ := requestLine_split b ha
  have hd : b.drop (lineBytes m u ver eol).length = l := by rw [hb, List.drop_left]
  have K := keyed_afterLine m u ver eol hb
  rw [requestLine_run m ver eol hb hne hu hi] at ha
  obtain ⟨xs, c, l1, n, hd1, hc, hx, hcount, hi1, hn⟩ := headers_split K ha (Nat.zero_le _)
  obtain ⟨req, hrun, K1⟩ := headers_run xs K hd1 hx hcount hi1 hn
  rw [List.nil_append] at K1
  rw [hrun] at ha
  obtain ⟨last, tail, hd2, hi2⟩ := emptyLine_split K1 ha (drop_append_length hd1) hc
  have hcomplete := not_not.mp fun hnot => (headEnd_run K1 hd2 hi2).2 hnot ha
  have hbytes : b = Head.bytes ⟨m, u, ver, eol, xs, last⟩ ++ tail := by
    rw [Head.bytes_eq, List.append_assoc, List.append_assoc, ← hd2, drop_append_length hd1]
    rw [hb, ← hd, hd1]
  have hlen : (Head.bytes ⟨m, u, ver, eol, xs, last⟩).length = (lineBytes m u ver eol).length
      + (xs.flatMap HeaderLine.bytes).length + last.bytes.length := by
    rw [Head.bytes_eq, List.length_append, List.length_append, Nat.add_assoc]
  rw [← hlen] at hi2 hcomplete
  rw [List.length_nil, Nat.zero_add] at hcount
  exact ⟨⟨m, u, ver, eol, xs, last⟩, n, ⟨⟨hne, hu⟩, hx, hcount⟩, (declares_iff _ _).mpr hn,
    ⟨tail, hbytes.symm⟩, hi2, hcomplete.1, hcomplete.2⟩

/-- **The parser accepts exactly the grammar, and extracts the parts of the request.** -/
theorem parseWhole_accepts (b : Bytes) :
    ((parseWhole b).err.code = .none ↔ ∃ h n, Accepts b h n) ∧
      ∀ h n, Accepts b h n → Extracts b h n (parseWhole b).req :=
  ⟨⟨parseWhole_split b, fun ⟨_, _, H⟩ => H.run.1⟩, fun _ _ H => H.run.2⟩

end Http
