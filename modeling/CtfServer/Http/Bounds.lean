import CtfServer.Http.Chunks

/-!
# The buffer of the parser

The limits of `parse_chunk` keep room in the buffer for the next byte, and every pointer of the
request inside the bytes received.

* `HttpRequest.Bounded i`   what holds of the request when the loop is at the index `i`;
* `parseStep_bounded`       a turn keeps it, and `Fed.bounded` a call does;
* `Fed`, `Turn`             the requests between two calls, and the turns of the calls;
* `parser_bounds`           **the buffer never fills, and nothing leaves it**.
-/

set_option linter.unusedVariables false
set_option linter.unusedSimpArgs false

namespace Http

/-! ## the invariant -/

/-- the pointers and counters of the head -/
structure HttpRequest.Framed (i : Nat) (req : HttpRequest) : Prop where
  within : req.Within i
  values : ∀ h ∈ req.headers, h.value.getD 0 + h.valueLen ≤ i
  uri : req.uri.getD 0 + req.uriLen ≤ i
  unnamed : req.state = .reqMethod ∨ req.state = .reqUri → req.uriLen = 0
  named : req.state ≠ .reqMethod → req.state ≠ .reqUri → req.uri.isSome = true ∧ 0 < req.uriLen
  count : req.headers.length ≤ MAX_HEADERS
  /-- the slot is one of the array -/
  room : req.state = .headerName ∨ req.state = .headerValue ∨ req.state = .headerLf →
    req.headers.length < MAX_HEADERS

/-- the loop is at the index `i` -/
structure HttpRequest.Bounded (i : Nat) (req : HttpRequest) :
    Prop extends HttpRequest.Framed i req where
  head : req.state.beforeBody = true → i < MAX_HEADER_BYTES ∧ req.bodyBytesRead = 0
  method : req.state = .reqMethod →
    req = { HttpRequest.fresh with methodPtr := req.methodPtr } ∧ req.methodPtr.getD i = 0 ∧ i < 8
  body : req.state.beforeBody = false → req.state = .body ∧ ∃ header, req.body = some header ∧
    header < MAX_HEADER_BYTES ∧ req.contentLength < MAX_REQUEST_BYTES - header ∧
    req.bodyBytesRead < req.contentLength ∧ i = header + req.bodyBytesRead

theorem bounded_fresh : HttpRequest.fresh.Bounded 0 where
  within := within_fresh 0
  values h hh := absurd hh List.not_mem_nil
  uri := Nat.le_refl 0
  unnamed _ := rfl
  named h := absurd rfl h
  count := Nat.zero_le _
  room h := by rcases h with h | h | h <;> cases h
  head _ := ⟨by decide, rfl⟩
  method _ := ⟨rfl, rfl, by decide⟩
  body h := by cases h

/-- what the request of an accepted call points to -/
structure HttpRequest.Inside (n : Nat) (req : HttpRequest) : Prop where
  uri : ∃ uri, req.uri = some uri ∧ uri + req.uriLen ≤ n
  names : ∀ h ∈ req.headers, h.name + h.nameLen ≤ n
  values : ∀ h ∈ req.headers, ∀ value, h.value = some value → value + h.valueLen ≤ n
  body : 0 < req.contentLength → ∃ body, req.body = some body ∧ body + req.contentLength ≤ n

theorem HttpRequest.Framed.inside {i n : Nat} {req : HttpRequest} (h : req.Framed i) (hin : i ≤ n)
    (hstate : req.state ≠ .reqMethod ∧ req.state ≠ .reqUri)
    (hbody : 0 < req.contentLength → ∃ body, req.body = some body ∧ body + req.contentLength ≤ n) :
    req.Inside n := by
  obtain ⟨uri, huri⟩ := Option.isSome_iff_exists.1 (h.named hstate.1 hstate.2).1
  refine ⟨⟨uri, huri, ?_⟩, fun x hx => (h.within.headers x hx).trans hin, ?_, hbody⟩
  · have := h.uri
    rw [huri, Option.getD_some] at this
    omega
  · intro x hx value hvalue
    have := h.values x hx
    rw [hvalue, Option.getD_some] at this
    omega

/-! ## one turn -/

theorem parseHeader_uri (buf : Bytes) (req req' : HttpRequest) (h : HttpHeader)
    (hp : parseHeader buf req h = some req') :
    req'.uri = req.uri ∧ req'.uriLen = req.uriLen ∧ req'.bodyBytesRead = req.bodyBytesRead ∧
      req'.body = req.body := by
  unfold parseHeader at hp
  grind

theorem endVersion_frame (buf : Bytes) (i v j : Nat) (req req' : HttpRequest) (st : ParseState)
    (h : endVersion buf i v req st = .next j req') :
    req'.headers = req.headers ∧ req'.uri = req.uri ∧ req'.uriLen = req.uriLen ∧
      req'.bodyBytesRead = req.bodyBytesRead ∧ req'.state = st := by
  unfold endVersion at h
  dsimp only at h
  split at h
  · cases h
  · cases h
    exact ⟨rfl, rfl, rfl, rfl, rfl⟩

theorem HttpRequest.Framed.uri_le {i : Nat} {req : HttpRequest} (h : req.Framed i) :
    req.uri.getD i + req.uriLen ≤ i + req.uriLen := by
  have := h.uri
  cases hp : req.uri with
  | none => simp
  | some u =>
    simp only [hp, Option.getD_some] at this ⊢
    omega

/-- outside of the states that write to them, the head stays as it is -/
theorem HttpRequest.Framed.same {i : Nat} {req r : HttpRequest} (h : req.Framed i)
    (hw : r.Within (i + 1))
    (hheaders : r.headers = req.headers) (huri : r.uri = req.uri) (hlen : r.uriLen = req.uriLen)
    (hnamed : req.state ≠ .reqMethod ∧ req.state ≠ .reqUri)
    (hnext : r.state ≠ .reqMethod ∧ r.state ≠ .reqUri)
    (hroom : r.state = .headerName ∨ r.state = .headerValue ∨ r.state = .headerLf →
      req.headers.length < MAX_HEADERS) :
    r.Framed (i + 1) where
  within := hw
  values x hx := (h.values x (hheaders ▸ hx)).trans (Nat.le_succ i)
  uri := by
    rw [huri, hlen]
    exact h.uri.trans (Nat.le_succ i)
  unnamed hr := absurd hr (not_or.2 hnext)
  named _ _ := by
    rw [huri, hlen]
    exact h.named hnamed.1 hnamed.2
  count := hheaders ▸ h.count
  room hr := by
    rw [hheaders]
    exact hroom hr

/-- counting the header of the slot -/
theorem HttpRequest.Framed.push {i : Nat} {req r : HttpRequest} (h : req.Framed i)
    (hw : r.Within (i + 1))
    (hheaders : r.headers = req.headers ++ [req.slot]) (huri : r.uri = req.uri)
    (hlen : r.uriLen = req.uriLen)
    (hnamed : req.state ≠ .reqMethod ∧ req.state ≠ .reqUri)
    (hroom : req.headers.length < MAX_HEADERS)
    (hstate : r.state = .headerKey) : r.Framed (i + 1) where
  within := hw
  values x hx := by
    rw [hheaders] at hx
    rcases List.mem_append.1 hx with hx | hx
    · exact (h.values x hx).trans (Nat.le_succ i)
    · rw [List.mem_singleton.1 hx]
      exact h.within.value.trans (Nat.le_succ i)
  uri := by
    rw [huri, hlen]
    exact h.uri.trans (Nat.le_succ i)
  unnamed hr := by rw [hstate] at hr; rcases hr with hr | hr <;> cases hr
  named _ _ := by
    rw [huri, hlen]
    exact h.named hnamed.1 hnamed.2
  count := by
    rw [hheaders, List.length_append]
    exact hroom
  room hr := by rw [hstate] at hr; rcases hr with hr | hr | hr <;> cases hr

/-- the slices stay apart from what was not read, and the header array has room -/
theorem ReadsByte.framed {buf : Bytes} {i : Nat} {req req' : HttpRequest}
    (h : ReadsByte buf i req req') (hf : req.Framed i) :
    req'.Framed (i + 1) ∧ req'.bodyBytesRead = req.bodyBytesRead := by
  have hw := h.within hf.within
  have hvalues : ∀ x ∈ req.headers, x.value.getD 0 + x.valueLen ≤ i + 1 :=
    fun x hx => (hf.values x hx).trans (Nat.le_succ i)
  cases h with
  | uri hs =>
    have hzero := hf.unnamed (.inr hs)
    have hroom : ¬ (req.state = .headerName ∨ req.state = .headerValue ∨
      req.state = .headerLf) := by simp [hs]
    refine ⟨⟨hw, hvalues, ?_, fun _ => hzero, fun _ h2 => absurd hs h2, hf.count, fun hr =>
      absurd hr hroom⟩, rfl⟩
    show req.uri.getD i + req.uriLen ≤ i + 1
    have := hf.uri_le
    omega
  | uriEnd hs hlen =>
    refine ⟨⟨hw, hvalues, ?_, by simp, fun _ _ => ⟨rfl, Nat.pos_of_ne_zero hlen⟩, hf.count,
      fun hr => by rcases hr with hr | hr | hr <;> cases hr⟩, rfl⟩
    show req.uri.getD i + (i - req.uri.getD i) ≤ i + 1
    have := hf.uri_le
    omega
  | version hs => exact ⟨hf.same hw rfl rfl rfl (by simp [hs]) (by simp [hs]) (by simp [hs]), rfl⟩
  | versionEnd hs hst h =>
    obtain ⟨h1, h2, h3, h4, h5⟩ := endVersion_frame _ _ _ _ _ _ _ h
    refine ⟨hf.same hw h1 h2 h3 (by simp [hs]) ?_ ?_, h4⟩
    all_goals rcases hst with rfl | rfl <;> simp [h5]
  | line hs => rcases hs with ⟨hs, rfl⟩ | ⟨hs, rfl | rfl⟩ | ⟨hs, rfl⟩ <;>
      exact ⟨hf.same hw rfl rfl rfl (by simp [hs]) (by simp) nofun, rfl⟩
  | nameStart hs hroom =>
    exact ⟨hf.same hw rfl rfl rfl (by simp [hs]) (by simp) fun _ => hroom, rfl⟩
  | name hs =>
    exact ⟨hf.same hw rfl rfl rfl (by simp [hs]) (by simp [hs]) fun _ => hf.room (.inl hs), rfl⟩
  | nameEnd hs =>
    exact ⟨hf.same hw rfl rfl rfl (by simp [hs]) (by simp) fun _ => hf.room (.inl hs), rfl⟩
  | value hs =>
    exact ⟨hf.same hw rfl rfl rfl (by simp [hs]) (by simp [hs]) fun _ =>
      hf.room (.inr (.inl hs)), rfl⟩
  | valueEnd hs hp =>
    obtain ⟨-, h2, -⟩ := parseHeader_state _ _ _ _ hp
    obtain ⟨h4, h5, h6, -⟩ := parseHeader_uri _ _ _ _ hp
    exact ⟨hf.same hw h2 h4 h5 (by simp [hs]) (by simp) fun _ => hf.room (.inr (.inl hs)), h6⟩
  | valueLf hs hp =>
    obtain ⟨-, h2, h3⟩ := parseHeader_state _ _ _ _ hp
    obtain ⟨h4, h5, h6, -⟩ := parseHeader_uri _ _ _ _ hp
    exact ⟨hf.push hw (by rw [h2, h3]) h4 h5 (by simp [hs]) (hf.room (.inr (.inl hs))) rfl, h6⟩
  | headerLine hs =>
    exact ⟨hf.push hw rfl rfl rfl (by simp [hs]) (hf.room (.inr (.inr hs))) rfl, rfl⟩

/-- the first turn behind the method -/
theorem parseByte_method_framed (buf : Bytes) (e i j : Nat) (req req' : HttpRequest)
    (hb : req.Bounded i) (hm : req.state = .reqMethod) (h : parseByte buf e i req = .next j req') :
    req'.Framed (j + 1) ∧ j + 1 ≤ 8 ∧ 8 ≤ e ∧ req'.bodyBytesRead = 0 ∧ req'.state = .reqUri := by
  obtain ⟨hreq, hptr, -⟩ := hb.method hm
  unfold parseByte at h
  simp only [hm, hptr, Nat.sub_zero, Nat.zero_add] at h
  split at h
  · cases h
  · split at h
    · cases h
    · next hmore _ method len hmethod =>
      have hlen := parseMethod_len _ _ _ _ hmethod
      cases h
      rw [hreq]
      refine ⟨⟨⟨Nat.zero_le _, fun x hx => absurd hx List.not_mem_nil, Nat.zero_le _, Nat.zero_le _,
        fun _ _ => rfl⟩,
        fun x hx => absurd hx List.not_mem_nil, Nat.zero_le _, fun _ => rfl, fun _ h2 =>
        absurd rfl h2, Nat.zero_le _,
        fun hr => by rcases hr with hr | hr | hr <;> cases hr⟩, by omega, by omega, rfl, rfl⟩

/-- the test for the end of the head -/
theorem headerComplete_bounded (i j : Nat) (req req' : HttpRequest) (hf : req.Framed (i + 1))
    (hlimit : i + 1 < MAX_HEADER_BYTES) (hread : req.bodyBytesRead = 0)
    (hm : req.state ≠ .reqMethod)
    (hlive : req.state.beforeBody = false → req.state = .body)
    (h : headerComplete i req = .next j req') :
    req'.Bounded (i + 1) ∧ j = i + 1 := by
  unfold headerComplete at h
  split at h
  · next hbody =>
    dsimp only at h
    split at h
    · cases h
    · next hsize =>
      split at h
      · cases h
      · next hne =>
        cases h
        refine ⟨⟨⟨⟨hf.within.version, hf.within.headers, hf.within.name, hf.within.value,
          hf.within.unnamed⟩, hf.values,
          hf.uri, hf.unnamed, hf.named, hf.count, hf.room⟩, fun hr => ?_, fun hr => absurd hr hm,
            fun _ => ?_⟩, rfl⟩
        · rw [show req.state = .body from hbody] at hr
          cases hr
        · refine ⟨hbody, i + 1, rfl, hlimit, not_le.1 hsize, ?_, ?_⟩
          · show req.bodyBytesRead < req.contentLength
            omega
          · show i + 1 = i + 1 + req.bodyBytesRead
            omega
  · next hbody =>
    cases h
    exact ⟨⟨hf, fun _ => ⟨hlimit, hread⟩, fun hr => absurd hr hm, fun hr =>
      absurd (hlive hr) hbody⟩, rfl⟩

/-- **a turn that goes on keeps the bounds** -/
theorem parseStep_bounded (buf : Bytes) (i j : Nat) (req req' : HttpRequest) (hb : req.Bounded i)
    (hi : i < buf.length)
    (h : parseStep buf buf.length i req = .next j req') : req'.Bounded j ∧ j ≤ buf.length := by
  unfold parseStep at h
  split at h
  · cases h
  next hlimit =>
  split at h
  · cases h
  next k r hbyte =>
  by_cases hm : req.state = .reqMethod
  · obtain ⟨hf, h8, he, hread, hstate⟩ := parseByte_method_framed _ _ _ _ _ _ hb hm hbyte
    have hk : k + 1 < MAX_HEADER_BYTES := Nat.lt_of_le_of_lt h8 (by decide)
    obtain ⟨hbounded, rfl⟩ := headerComplete_bounded k j r req' hf hk hread (by simp [hstate])
      (fun hr => by rw [hstate] at hr; cases hr) h
    exact ⟨hbounded, h8.trans he⟩
  · obtain ⟨rfl, hturn⟩ := parseByte_readsByte buf _ i k req r hbyte hm
    obtain ⟨hf, hread⟩ := hturn.framed hb.toFramed
    obtain ⟨hm', -, hlive⟩ := hturn.states
    have hhead := hturn.head
    have hk : k + 1 < MAX_HEADER_BYTES := by
      rw [not_and] at hlimit
      exact not_le.1 (hlimit hhead)
    obtain ⟨hbounded, rfl⟩ := headerComplete_bounded k j r req' hf hk
      (hread.trans (hb.head hhead).2) hm' hlive h
    exact ⟨hbounded, hi⟩

/-! ## the ends of a call -/

/-- what a call leaves behind -/
structure ChunkResult.Fits (n : Nat) (res : ChunkResult) : Prop where
  count : res.req.headers.length ≤ MAX_HEADERS
  more : res.err.code = .moreDataNeeded → res.req.Bounded n
  accepted : res.err.code = .none → res.req.Inside n

theorem fits_failed {n : Nat} {req : HttpRequest} {status : Nat} {msg : String}
    (h : req.headers.length ≤ MAX_HEADERS) :
    ChunkResult.Fits n ⟨⟨.httpParseFailed, msg⟩, status, req⟩ := ⟨h, nofun, nofun⟩

/-- a failure of the `switch` leaves the headers alone -/
theorem parseByte_failed (buf : Bytes) (e i : Nat) (req : HttpRequest) (res : ChunkResult)
    (hm : req.state ≠ .reqMethod)
    (hb : req.state.beforeBody = true) (h : parseByte buf e i req = .stop res) :
    res.err.code = .httpParseFailed ∧ res.req.headers = req.headers := by
  unfold parseByte endVersion failWith at h
  cases hs : req.state with
  | reqMethod => exact absurd hs hm
  | body | done | error => rw [hs] at hb; cases hb
  | _ =>
    simp only [hs] at h
    grind

/-- a turn of the method -/
theorem parseByte_method_stop (buf : Bytes) (i : Nat) (req : HttpRequest) (res : ChunkResult)
    (hb : req.Bounded i)
    (hm : req.state = .reqMethod) (h : parseByte buf buf.length i req = .stop res) :
    res.Fits buf.length := by
  obtain ⟨hreq, hptr, -⟩ := hb.method hm
  unfold parseByte at h
  simp only [hm, hptr, Nat.sub_zero] at h
  split at h
  · next hshort =>
    cases h
    rw [hreq]
    have hlimit : buf.length < MAX_HEADER_BYTES := Nat.lt_trans hshort (by decide)
    refine ⟨Nat.zero_le _, fun _ =>
      ⟨⟨⟨Nat.zero_le _, fun x hx => absurd hx List.not_mem_nil, Nat.zero_le _, Nat.zero_le _,
      fun _ _ => rfl⟩, fun x hx => absurd hx List.not_mem_nil, Nat.zero_le _, fun _ => rfl,
        fun h1 _ => absurd rfl h1,
      Nat.zero_le _, fun hr => by rcases hr with hr | hr | hr <;> cases hr⟩, fun _ => ⟨hlimit, rfl⟩,
      fun _ => ⟨rfl, rfl, hshort⟩, nofun⟩, nofun⟩
  · split at h
    · cases h
      rw [hreq]
      exact fits_failed (Nat.zero_le _)
    · cases h

/-- a turn of the body: it takes all the bytes there are -/
theorem parseStep_body_fits (buf : Bytes) (i : Nat) (req : HttpRequest) (res : ChunkResult)
    (hb : req.Bounded i)
    (hi : i < buf.length) (hs : req.state = .body)
    (h : parseStep buf buf.length i req = .stop res) :
    res.Fits buf.length := by
  obtain ⟨-, header, hptr, hheader, hsize, hread, hindex⟩ := hb.body (by rw [hs]; rfl)
  rw [parseStep_body _ _ _ _ hs] at h
  have hframed : ∀ n st, st = .body ∨ st = .done →
      HttpRequest.Framed buf.length { req with bodyBytesRead := n, state := st } := by
    intro n st hst
    have hw := hb.within.mono (Nat.le_of_lt hi)
    have hun := hb.within.unnamed (by rw [hs]; decide) (by rw [hs]; decide)
    refine ⟨⟨hw.version, hw.headers, hw.name, hw.value, fun _ _ => hun⟩, fun x hx =>
      (hb.values x hx).trans (Nat.le_of_lt hi),
      hb.uri.trans (Nat.le_of_lt hi), ?_, fun _ _ => hb.named (by rw [hs]; decide)
      (by rw [hs]; decide), hb.count, ?_⟩
    · rcases hst with rfl | rfl <;> (intro hr; rcases hr with hr | hr <;> cases hr)
    · rcases hst with rfl | rfl <;> (intro hr; rcases hr with hr | hr | hr <;> cases hr)
  split at h
  · next hall =>
    cases h
    refine ⟨hb.count, nofun, fun _ =>
      (hframed _ .done (.inr rfl)).inside (Nat.le_refl _) ⟨nofun, nofun⟩ fun _ => ?_⟩
    refine ⟨header, hptr, ?_⟩
    show header + req.contentLength ≤ buf.length
    omega
  · next hpart =>
    cases h
    have hsame : ∀ n,
        ({ req with bodyBytesRead := n } : HttpRequest) = { req with bodyBytesRead := n, state := .body } := by
      intro n
      rw [← hs]
    rw [hsame]
    refine ⟨hb.count, fun _ => ⟨hframed _ .body (.inl rfl), nofun, nofun, fun _ =>
      ⟨rfl, header, hptr, hheader, hsize, ?_, ?_⟩⟩, nofun⟩
    · show req.bodyBytesRead + min (buf.length - i) (req.contentLength - req.bodyBytesRead)
        < req.contentLength
      omega
    · show buf.length = header +
        (req.bodyBytesRead + min (buf.length - i) (req.contentLength - req.bodyBytesRead))
      omega

theorem headerComplete_fits (n i : Nat) (req : HttpRequest) (res : ChunkResult)
    (hf : req.Framed (i + 1)) (hi : i < n) (h : headerComplete i req = .stop res) : res.Fits n := by
  unfold headerComplete at h
  split at h
  · next hbody =>
    dsimp only at h
    split at h
    · cases h
      exact fits_failed hf.count
    · split at h
      · next hzero =>
        cases h
        have hstate : req.state ≠ .reqMethod ∧ req.state ≠ .reqUri := by simp [hbody]
        obtain ⟨uri, huri⟩ := hf.inside hi hstate fun hpos => by omega
        exact ⟨hf.count, nofun, fun _ =>
          ⟨uri, huri, by assumption, fun hpos => absurd hzero (Nat.ne_of_gt hpos)⟩⟩
      · cases h
  · cases h

/-- **a turn that ends the call leaves the request within its bounds** -/
theorem parseStep_fits (buf : Bytes) (i : Nat) (req : HttpRequest) (res : ChunkResult)
    (hb : req.Bounded i)
    (hi : i < buf.length) (h : parseStep buf buf.length i req = .stop res) :
    res.Fits buf.length := by
  by_cases hs : req.state = .body
  · exact parseStep_body_fits buf i req res hb hi hs h
  have hhead : req.state.beforeBody = true := by
    by_contra hno
    rw [Bool.not_eq_true] at hno
    exact hs (hb.body hno).1
  unfold parseStep at h
  split at h
  · cases h
    exact fits_failed hb.count
  · split at h
    · next r hbyte =>
      cases h
      by_cases hm : req.state = .reqMethod
      · exact parseByte_method_stop buf i req _ hb hm hbyte
      · obtain ⟨hcode, hheaders⟩ := parseByte_failed _ _ _ _ _ hm hhead hbyte
        exact ⟨hheaders ▸ hb.count, fun hr => (by rw [hcode] at hr; cases hr), fun hr =>
          (by rw [hcode] at hr; cases hr)⟩
    · next k r hbyte =>
      by_cases hm : req.state = .reqMethod
      · obtain ⟨hf, h8, he, -, -⟩ := parseByte_method_framed _ _ _ _ _ _ hb hm hbyte
        exact headerComplete_fits _ k r res hf (by omega) h
      · obtain ⟨rfl, hturn⟩ := parseByte_readsByte buf _ i k req r hbyte hm
        exact headerComplete_fits _ k r res (hturn.framed hb.toFramed).1 hi h

/-! ## calls -/

theorem parseLoop_fits (buf : Bytes) (i : Nat) (req : HttpRequest) (hb : req.Bounded i)
    (hi : i ≤ buf.length) :
    (parseLoop buf buf.length i req).Fits buf.length := by
  by_cases hlt : i < buf.length
  · cases hs : parseStep buf buf.length i req with
    | stop res =>
      rw [parseLoop_stop _ _ _ _ _ hlt hs]
      exact parseStep_fits buf i req res hb hlt hs
    | next j req' =>
      rw [parseLoop_next _ _ _ _ _ _ hlt hs]
      obtain ⟨hb', hj⟩ := parseStep_bounded buf i j req req' hb hlt hs
      exact parseLoop_fits buf j req' hb' hj
  · obtain rfl : i = buf.length := by omega
    rw [parseLoop_end _ _ _ _ (Nat.le_refl _)]
    exact ⟨hb.count, fun _ => hb, nofun⟩
termination_by turnsLeft buf.length i req
decreasing_by exact parseStep_turns buf buf.length i j req req' hs hlt

/-- the buffer and the request between two calls, when every chunk fitted into the free space -/
inductive Fed : Bytes → HttpRequest → Prop where
  | fresh : Fed [] .fresh
  | chunk {buf chunk : Bytes} {req : HttpRequest} : Fed buf req → chunk.length ≤ MAX_REQUEST_BYTES
      - buf.length →
      (parseChunk (buf ++ chunk) chunk.length req).err.code = .moreDataNeeded →
      Fed (buf ++ chunk) (parseChunk (buf ++ chunk) chunk.length req).req

/-- the turns of the calls -/
inductive Turn : Bytes → Nat → HttpRequest → Prop where
  | start {buf chunk : Bytes} {req : HttpRequest} : Fed buf req → chunk.length ≤ MAX_REQUEST_BYTES
      - buf.length →
      Turn (buf ++ chunk) ((buf ++ chunk).length - chunk.length) req
  | next {buf : Bytes} {i j : Nat} {req req' : HttpRequest} : Turn buf i req → i < buf.length →
      parseStep buf buf.length i req = .next j req' → Turn buf j req'

theorem parseChunk_fits {buf chunk : Bytes} {req : HttpRequest} (hb : req.Bounded buf.length) :
    (parseChunk (buf ++ chunk) chunk.length req).Fits (buf ++ chunk).length := by
  have hstart : (buf ++ chunk).length - chunk.length = buf.length := by
    rw [List.length_append, Nat.add_sub_cancel]
  have hlive : req.state ≠ .done := by
    intro hdone
    have hbody := (hb.body (by rw [hdone]; rfl)).1
    rw [hdone] at hbody
    cases hbody
  unfold parseChunk
  dsimp only
  rw [if_neg hlive, hstart]
  exact parseLoop_fits (buf ++ chunk) buf.length req hb (by rw [List.length_append]; omega)

theorem Fed.bounded {buf : Bytes} {req : HttpRequest} (h : Fed buf req) :
    req.Bounded buf.length := by
  induction h with
  | fresh => exact bounded_fresh
  | chunk _ _ hmore ih => exact (parseChunk_fits ih).more hmore

theorem Turn.bounded {buf : Bytes} {i : Nat} {req : HttpRequest} (h : Turn buf i req) :
    req.Bounded i ∧ i ≤ buf.length := by
  induction h with
  | @start buf chunk req hfed _ =>
    rw [List.length_append, Nat.add_sub_cancel]
    exact ⟨hfed.bounded, Nat.le_add_right _ _⟩
  | @next buf i j req req' _ hi hs ih => exact parseStep_bounded buf i j req req' ih.1 hi hs

/-- **Whatever the chunks: while the parser asks for more, the buffer has room for the next byte,
and holds the head, or the head and the bytes of the body that were counted; no subtraction
underflows, `parse_method` looks at received bytes only, the array of the headers is not left, and
every slice of an accepted request lies inside the bytes received.** -/
theorem parser_bounds :
    (∀ buf req, Fed buf req → buf.length < MAX_REQUEST_BYTES ∧
      (req.state.beforeBody = true → buf.length ≤ 4095) ∧
      (req.state.beforeBody = false → req.state = .body ∧ ∃ header, req.body = some header ∧
        buf.length = header + req.bodyBytesRead ∧ req.bodyBytesRead < req.contentLength)) ∧
    (∀ buf i req, Turn buf i req → i < buf.length →
      (req.state = .reqMethod → req.methodPtr.getD i ≤ buf.length ∧
        (¬ buf.length - req.methodPtr.getD i < 8 → req.methodPtr.getD i + 8 ≤ buf.length)) ∧
      (∀ k r, ¬ (req.state.beforeBody ∧ i + 1 ≥ MAX_HEADER_BYTES) → parseByte buf buf.length i req
        = .next k r →
        r.state = .body → k + 1 ≤ MAX_REQUEST_BYTES) ∧
      (req.state = .body → req.bodyBytesRead ≤ req.contentLength) ∧
      req.headers.length ≤ MAX_HEADERS) ∧
    (∀ buf chunk req, Fed buf req → chunk.length ≤ MAX_REQUEST_BYTES - buf.length →
      (parseChunk (buf ++ chunk) chunk.length req).req.headers.length ≤ MAX_HEADERS ∧
      ((parseChunk (buf ++ chunk) chunk.length req).err.code = .none →
        (parseChunk (buf ++ chunk) chunk.length req).req.Inside (buf ++ chunk).length)) := by
  refine ⟨fun buf req hfed => ?_, fun buf i req hturn hi => ?_, fun buf chunk req hfed _ => ?_⟩
  · have hb := hfed.bounded
    have hhead : req.state.beforeBody = true → buf.length ≤ 4095 := fun hr => Nat.le_of_lt_succ
      (hb.head hr).1
    have hbody : req.state.beforeBody = false → buf.length < MAX_REQUEST_BYTES := by
      intro hr
      obtain ⟨-, header, -, hheader, hsize, hread, hindex⟩ := hb.body hr
      omega
    refine ⟨?_, hhead, fun hr => ?_⟩
    · cases hr : req.state.beforeBody with
      | true => exact Nat.lt_of_le_of_lt (hhead hr) (by decide)
      | false => exact hbody hr
    · obtain ⟨hs, header, hptr, -, -, hread, hindex⟩ := hb.body hr
      exact ⟨hs, header, hptr, hindex, hread⟩
  · obtain ⟨hb, -⟩ := hturn.bounded
    refine ⟨fun hm => ?_, fun k r hlimit hbyte hr => ?_, fun hs => ?_, hb.count⟩
    · obtain ⟨-, hptr, -⟩ := hb.method hm
      omega
    · by_cases hm : req.state = .reqMethod
      · obtain ⟨-, -, -, -, hstate⟩ := parseByte_method_framed _ _ _ _ _ _ hb hm hbyte
        rw [hstate] at hr
        cases hr
      · obtain ⟨rfl, hread⟩ := parseByte_readsByte buf _ i k req r hbyte hm
        have hk : k + 1 < MAX_HEADER_BYTES := not_le.1 (not_and.1 hlimit hread.head)
        exact (Nat.lt_trans hk (by decide)).le
    · obtain ⟨-, header, -, -, -, hread, -⟩ := hb.body (by rw [hs]; rfl)
      exact hread.le
  · have hfits : (parseChunk (buf ++ chunk) chunk.length req).Fits (buf ++ chunk).length :=
      parseChunk_fits hfed.bounded
    exact ⟨hfits.count, hfits.accepted⟩

/-- a request whose body comes in two parts, up to the first byte of the body -/
def postHead : Bytes := ascii "POST / HTTP/1.1\r\nContent-Length: 2\r\n\r\nh"

def postStart : HttpRequest := (parseChunk ([] ++ postHead) postHead.length .fresh).req

theorem postStart_fed : Fed postHead postStart := .chunk .fresh (by decide) (by decide +kernel)

theorem parser_bounds_sample :
    postHead.length < MAX_REQUEST_BYTES ∧
      (∃ header, postStart.body = some header ∧ postHead.length = header + postStart.bodyBytesRead ∧
        postStart.bodyBytesRead < postStart.contentLength) ∧
      postStart.bodyBytesRead ≤ postStart.contentLength ∧
      (parseChunk (postHead ++ ascii "i") 1 postStart).req.Inside 40 := by
  have hfed := parser_bounds.1 postHead postStart postStart_fed
  have hturn := parser_bounds.2.1 (postHead ++ ascii "i") 39 postStart
    (.start postStart_fed (by decide)) (by decide)
  have hchunk := parser_bounds.2.2 postHead (ascii "i") postStart postStart_fed (by decide)
  exact ⟨hfed.1, (hfed.2.2 (by decide +kernel)).2, hturn.2.2.1 (by decide +kernel),
    hchunk.2 (by decide +kernel)⟩

end Http
