import CtfServer.Http.Response

/-!
# Sending a response in parts

`advance_iovec`, `connection_send_buffer` and `start_send_http_response` (server.c): the header and
the body are handed to `writev`, which takes as much as it likes, until all of it is sent.

* `Outcome`, `Permitted`     what `writev` may do;
* `connectionSendBuffer`     one call, on the outcomes of its `writev`s;
* `Sending whole`            what was sent and what is left are `whole`, in this order;
* `partial_sends`            **over any calls, what was sent and what is left are the header and the
                             body; a call returns 1 when nothing is left, and only then**.
-/

set_option linter.unusedVariables false
set_option linter.unusedSimpArgs false

namespace Http

open Buffer (Malloc Libc)

/-! ## the position -/

/-- `struct iovec`, in the buffer it points into -/
structure Iovec where
  buffer : Bytes
  base : Nat
  len : Nat
  deriving DecidableEq, Repr

def Iovec.data (v : Iovec) : Bytes := Bytes.slice v.buffer v.base v.len

/-- `client_connection_state_t` as far as it is about sending -/
structure ClientState where
  iov : List Iovec
  iovCount : Nat
  iovIndex : Nat
  deriving DecidableEq, Repr

/-- `advance_iovec`: true when all is sent -/
def advanceIovec (conn : ClientState) (sendBytes : Nat) : Option (Bool × ClientState) :=
  if h : conn.iovIndex < conn.iovCount ∧ sendBytes > 0 then
    match conn.iov[conn.iovIndex]? with
    | none => none
    | some cur =>
      if sendBytes ≥ cur.len then advanceIovec { conn with iovIndex := conn.iovIndex + 1 }
        (sendBytes - cur.len)
      else
        advanceIovec { conn with
          iov := conn.iov.set conn.iovIndex { cur with base := cur.base + sendBytes, len :=
            cur.len - sendBytes } } 0
  else some (decide (conn.iovIndex ≥ conn.iovCount), conn)
termination_by conn.iovCount - conn.iovIndex + sendBytes
decreasing_by
  · show conn.iovCount - (conn.iovIndex + 1) + (sendBytes - cur.len) < conn.iovCount
      - conn.iovIndex + sendBytes
    omega
  · show conn.iovCount - conn.iovIndex + 0 < conn.iovCount - conn.iovIndex + sendBytes
    omega

/-- the iovecs that `writev` is given -/
def ClientState.remaining (conn : ClientState) : List Iovec :=
  (conn.iov.take conn.iovCount).drop conn.iovIndex

/-- the bytes they offer -/
def ClientState.offered (conn : ClientState) : Bytes := conn.remaining.flatMap Iovec.data

/-! ## `connection_send_buffer` -/

/-- what `writev` did: it took that many bytes, would have blocked, or failed -/
inductive Outcome where
  | sent (n : Nat)
  | again
  | failed
  deriving DecidableEq, Repr

/-- a call that returned, or one that waits for its next `writev`; with the bytes that the kernel
got -/
inductive Call where
  | returned (result : Int) (conn : ClientState) (kernel : Bytes)
  | writing (conn : ClientState) (kernel : Bytes)
  deriving DecidableEq, Repr

def Call.conn : Call → ClientState
  | .returned _ conn _ => conn
  | .writing conn _ => conn

def Call.kernel : Call → Bytes
  | .returned _ _ kernel => kernel
  | .writing _ kernel => kernel

/-- `connection_send_buffer` on the outcomes of its `writev`s -/
def connectionSendBuffer (conn : ClientState) (kernel : Bytes) : List Outcome → Option Call
  | [] =>
    if conn.iovIndex < conn.iovCount then some (.writing conn kernel) else
      some (.returned 1 conn kernel)
  | outcome :: outcomes =>
    if conn.iovIndex < conn.iovCount then
      match outcome with
      | .sent n =>
        if n > 0 then do
          let (all, conn') ← advanceIovec conn n
          if all then some (.returned 1 conn' (kernel ++ conn.offered.take n))
          else connectionSendBuffer conn' (kernel ++ conn.offered.take n) outcomes
        else some (.returned 0 conn kernel)
      | .again => some (.returned 0 conn kernel)
      | .failed => some (.returned (-1) conn kernel)
    else some (.returned 1 conn kernel)

/-- `start_send_http_response` up to its first `connection_send_buffer` -/
def startSend (headerBuf : Bytes) (headerBufLen : Nat) (response : Response) : ClientState :=
  match response.body with
  | some body =>
    if response.bodyLen > 0 then ⟨[⟨headerBuf, 0, headerBufLen⟩, ⟨body, 0, response.bodyLen⟩], 2, 0⟩
    else ⟨[⟨headerBuf, 0, headerBufLen⟩], 1, 0⟩
  | none => ⟨[⟨headerBuf, 0, headerBufLen⟩], 1, 0⟩

/-- `writev` takes at least a byte and at most what it is offered, if it takes any -/
def Permitted (conn : ClientState) : List Outcome → Prop
  | [] => True
  | .sent n :: outcomes =>
    0 < n ∧ n ≤ conn.offered.length ∧ ∀ all conn', advanceIovec conn n = some (all, conn') →
      Permitted conn' outcomes
  | _ :: _ => True

/-- the states between the calls -/
inductive Calls (start : ClientState) : ClientState → Bytes → Prop
  | start : Calls start start []
  | call {conn conn' : ClientState} {kernel kernel' : Bytes} {outcomes : List Outcome}
      {result : Int} :
      Calls start conn kernel → Permitted conn outcomes →
      connectionSendBuffer conn kernel outcomes = some (.returned result conn' kernel') →
      Calls start conn' kernel'

/-! ## advancing -/

/-- what the position keeps: no iovec that is left is empty, and each lies in its buffer -/
structure Sound (conn : ClientState) : Prop where
  count : conn.iovCount ≤ conn.iov.length
  nonempty : ∀ v ∈ conn.remaining, 0 < v.len ∧ v.base + v.len ≤ v.buffer.length

section
variable {conn : ClientState}

theorem Iovec.data_length {v : Iovec} (h : v.base + v.len ≤ v.buffer.length) :
    v.data.length = v.len := by
  unfold Iovec.data Bytes.slice
  rw [List.length_take, List.length_drop]
  omega

theorem Iovec.data_drop (v : Iovec) (n : Nat) : (⟨v.buffer, v.base + n, v.len - n⟩ : Iovec).data =
    v.data.drop n := by
  unfold Iovec.data Bytes.slice
  rw [List.drop_take, List.drop_drop]

/-- the current iovec and those behind it -/
theorem remaining_cons (hlt : conn.iovIndex < conn.iovCount)
    (hcount : conn.iovCount ≤ conn.iov.length) :
    ∃ cur, conn.iov[conn.iovIndex]? = some cur ∧
      conn.remaining = cur :: ({ conn with iovIndex := conn.iovIndex + 1 }
        : ClientState).remaining := by
  have hi : conn.iovIndex < conn.iov.length := by omega
  have htake : conn.iovIndex < (conn.iov.take conn.iovCount).length := by
    rw [List.length_take]
    omega
  refine ⟨conn.iov[conn.iovIndex], List.getElem?_eq_getElem hi, ?_⟩
  unfold ClientState.remaining
  rw [List.drop_eq_getElem_cons htake, List.getElem_take]

theorem remaining_set (hlt : conn.iovIndex < conn.iovCount)
    (hcount : conn.iovCount ≤ conn.iov.length) (v : Iovec) :
    ({ conn with iov := conn.iov.set conn.iovIndex v } : ClientState).remaining =
      v :: ({ conn with iovIndex := conn.iovIndex + 1 } : ClientState).remaining := by
  have htake : conn.iovIndex < ((conn.iov.set conn.iovIndex v).take conn.iovCount).length := by
    rw [List.length_take, List.length_set]
    omega
  unfold ClientState.remaining
  show ((conn.iov.set conn.iovIndex v).take conn.iovCount).drop conn.iovIndex =
    v :: (conn.iov.take conn.iovCount).drop (conn.iovIndex + 1)
  rw [List.drop_eq_getElem_cons htake, List.getElem_take, List.getElem_set_self, List.take_set,
    List.drop_set_of_lt]
  omega

theorem Sound.offered_nil_iff (h : Sound conn) :
    conn.offered = [] ↔ conn.iovCount ≤ conn.iovIndex := by
  constructor
  · intro hnil
    by_contra hlt
    obtain ⟨cur, -, hcons⟩ := remaining_cons (Nat.not_le.mp hlt) h.count
    have hcur := h.nonempty cur (by rw [hcons]; exact List.mem_cons_self)
    have hlength := Iovec.data_length hcur.2
    unfold ClientState.offered at hnil
    rw [hcons, List.flatMap_cons] at hnil
    rw [(List.append_eq_nil_iff.mp hnil).1] at hlength
    simp at hlength
    omega
  · intro hle
    unfold ClientState.offered ClientState.remaining
    rw [List.drop_of_length_le (by rw [List.length_take]; omega)]
    rfl

/-- the position moves on by the bytes that were taken, wherever they end -/
theorem advanceIovec_spec {n : Nat} (h : Sound conn) (hn : n ≤ conn.offered.length) :
    ∃ conn', advanceIovec conn n = some (decide (conn'.iovIndex ≥ conn'.iovCount), conn') ∧ Sound conn' ∧
      conn'.offered = conn.offered.drop n := by
  induction conn, n using advanceIovec.induct with
  | case1 conn n hgo hnone =>
    obtain ⟨cur, hcur, -⟩ := remaining_cons hgo.1 h.count
    rw [hcur] at hnone
    cases hnone
  | case2 conn n hgo cur hcur hge ih =>
    obtain ⟨cur', hcur', hcons⟩ := remaining_cons hgo.1 h.count
    obtain rfl := Option.some.inj (hcur'.symm.trans hcur)
    have hlength := Iovec.data_length (h.nonempty cur' (by rw [hcons]; exact List.mem_cons_self)).2
    have hoffered : conn.offered =
        cur'.data ++ ({ conn with iovIndex := conn.iovIndex + 1 } : ClientState).offered := by
      unfold ClientState.offered
      rw [hcons, List.flatMap_cons]
    have hsound : Sound { conn with iovIndex := conn.iovIndex + 1 } :=
      ⟨h.count, fun v hv => h.nonempty v (by rw [hcons]; exact List.mem_cons_of_mem _ hv)⟩
    rw [hoffered, List.length_append] at hn
    obtain ⟨conn', hrun, hsound', hdrop⟩ := ih hsound (by omega)
    refine ⟨conn', ?_, hsound', ?_⟩
    · rw [advanceIovec, dif_pos hgo, hcur]
      show (if n ≥ cur'.len then _ else _) = _
      rw [if_pos hge, hrun]
    · rw [hdrop, hoffered, List.drop_append, List.drop_of_length_le
        (show cur'.data.length ≤ n by omega), hlength,
        List.nil_append]
  | case3 conn n hgo cur hcur hlt ih =>
    obtain ⟨cur', hcur', hcons⟩ := remaining_cons hgo.1 h.count
    obtain rfl := Option.some.inj (hcur'.symm.trans hcur)
    obtain ⟨hpos, hfits⟩ := h.nonempty cur' (by rw [hcons]; exact List.mem_cons_self)
    have hset := remaining_set hgo.1 h.count ⟨cur'.buffer, cur'.base + n, cur'.len - n⟩
    have hsound : Sound { conn with
        iov := conn.iov.set conn.iovIndex ⟨cur'.buffer, cur'.base + n, cur'.len - n⟩ } := by
      refine ⟨by show conn.iovCount ≤ (conn.iov.set _ _).length; rw [List.length_set]; exact h.count, ?_⟩
      rw [hset]
      refine List.forall_mem_cons.mpr ⟨⟨by show 0 < cur'.len - n; omega,
        by show cur'.base + n + (cur'.len - n) ≤ cur'.buffer.length; omega⟩, fun v hv => ?_⟩
      exact h.nonempty v (by rw [hcons]; exact List.mem_cons_of_mem _ hv)
    obtain ⟨conn', hrun, hsound', hdrop⟩ := ih hsound (Nat.zero_le _)
    refine ⟨conn', ?_, hsound', ?_⟩
    · rw [advanceIovec, dif_pos hgo, hcur]
      show (if n ≥ cur'.len then _ else _) = _
      rw [if_neg hlt]
      exact hrun
    · rw [hdrop, List.drop_zero]
      unfold ClientState.offered
      rw [hset, hcons, List.flatMap_cons, List.flatMap_cons, Iovec.data_drop,
        List.drop_append_of_le_length]
      rw [Iovec.data_length hfits]
      omega
  | case4 conn n hstop =>
    refine ⟨conn, ?_, h, ?_⟩
    · rw [advanceIovec, dif_neg hstop]
    · by_cases hlt : conn.iovIndex < conn.iovCount
      · have h0 : n = 0 := by omega
        rw [h0, List.drop_zero]
      · rw [(h.offered_nil_iff).mpr (by omega), List.drop_nil]

end

/-! ## the calls -/

/-- what the kernel got and what is left are the whole, in this order -/
structure Sending (whole : Bytes) (conn : ClientState) (kernel : Bytes) :
    Prop extends Sound conn where
  whole : kernel ++ conn.offered = whole

/-- how a call ended: nothing is left, `writev` would have blocked, or it failed; without that it
goes on with the bytes that are left -/
def Ended (outcomes : List Outcome) : Call → Prop
  | .returned result conn _ =>
    (result = 1 ∧ conn.offered = []) ∨
    (result = 0 ∧ conn.offered ≠ [] ∧ ∃ (ns : List Nat) (rest : List Outcome), outcomes =
      ns.map .sent ++ .again :: rest) ∨
    (result = -1 ∧ conn.offered ≠ [] ∧ ∃ (ns : List Nat) (rest : List Outcome), outcomes =
      ns.map .sent ++ .failed :: rest)
  | .writing conn _ => conn.offered ≠ [] ∧ ∃ ns : List Nat, outcomes = ns.map .sent

theorem Ended.cons {outcomes : List Outcome} {c : Call} (n : Nat) (h : Ended outcomes c) :
    Ended (.sent n :: outcomes) c := by
  cases c with
  | writing conn kernel =>
    obtain ⟨hne, ns, rfl⟩ := h
    exact ⟨hne, n :: ns, rfl⟩
  | returned result conn kernel =>
    rcases h with h | ⟨hr, hne, ns, rest, rfl⟩ | ⟨hr, hne, ns, rest, rfl⟩
    · exact Or.inl h
    · exact Or.inr (Or.inl ⟨hr, hne, n :: ns, rest, rfl⟩)
    · exact Or.inr (Or.inr ⟨hr, hne, n :: ns, rest, rfl⟩)

section
variable {whole kernel : Bytes} {conn : ClientState}

/-- one call, by induction on what its `writev`s do -/
theorem Sending.call {outcomes : List Outcome} (h : Sending whole conn kernel)
    (hp : Permitted conn outcomes) :
    ∃ c, connectionSendBuffer conn kernel outcomes = some c ∧ Sending whole c.conn c.kernel ∧
      Ended outcomes c := by
  induction outcomes generalizing conn kernel with
  | nil =>
    rw [connectionSendBuffer]
    by_cases hlt : conn.iovIndex < conn.iovCount
    · rw [if_pos hlt]
      exact ⟨_, rfl, h, fun hnil => absurd (h.offered_nil_iff.mp hnil) (by omega), [], rfl⟩
    · rw [if_neg hlt]
      exact ⟨_, rfl, h, Or.inl ⟨rfl, h.offered_nil_iff.mpr (by omega)⟩⟩
  | cons outcome outcomes ih =>
    unfold connectionSendBuffer
    by_cases hlt : conn.iovIndex < conn.iovCount
    · have hleft : conn.offered ≠ [] := fun hnil => absurd (h.offered_nil_iff.mp hnil) (by omega)
      rw [if_pos hlt]
      cases outcome with
      | again => exact ⟨_, rfl, h, Or.inr (Or.inl ⟨rfl, hleft, [], outcomes, rfl⟩)⟩
      | failed => exact ⟨_, rfl, h, Or.inr (Or.inr ⟨rfl, hleft, [], outcomes, rfl⟩)⟩
      | sent n =>
        obtain ⟨hpos, hle, hrest⟩ := hp
        obtain ⟨conn', hadvance, hsound, hdrop⟩ := advanceIovec_spec h.toSound hle
        have hsending : Sending whole conn' (kernel ++ conn.offered.take n) :=
          ⟨hsound, by rw [hdrop, List.append_assoc, List.take_append_drop, h.whole]⟩
        simp only [if_pos hpos, hadvance, Option.bind_eq_bind, Option.bind_some, decide_eq_true_eq]
        by_cases hall : conn'.iovIndex ≥ conn'.iovCount
        · rw [if_pos hall]
          exact ⟨_, rfl, hsending, Or.inl ⟨rfl, hsound.offered_nil_iff.mpr hall⟩⟩
        · rw [if_neg hall]
          obtain ⟨c, hc, hsending', hended⟩ := ih hsending (hrest _ _ hadvance)
          exact ⟨c, hc, hsending', hended.cons n⟩
    · rw [if_neg hlt]
      exact ⟨_, rfl, h, Or.inl ⟨rfl, h.offered_nil_iff.mpr (by omega)⟩⟩

/-- and so any calls -/
theorem Sending.calls {start : ClientState} (hstart : Sending whole start [])
    (h : Calls start conn kernel) :
    Sending whole conn kernel := by
  induction h with
  | start => exact hstart
  | call _ hp hcall ih =>
    obtain ⟨c, hc, hsending, -⟩ := ih.call hp
    rw [hcall] at hc
    obtain rfl := Option.some.inj hc
    exact hsending

end

/-! ## responses -/

/-- the body that is sent -/
def sentBody (response : Response) : Bytes := (response.body.getD []).take response.bodyLen

theorem httpResponseBuildHeader_sized {libc : Libc} {malloc : Malloc} {response : Response}
    {headerBuf : Bytes}
    {headerBufLen : Nat} (h : httpResponseBuildHeader libc malloc response =
      some (.ok (headerBuf, headerBufLen))) :
    0 < headerBufLen ∧ headerBufLen ≤ headerBuf.length := by
  unfold httpResponseBuildHeader at h
  split at h
  · cases h
  split at h
  · cases h
  next buffer hb =>
  simp only [Option.bind_eq_bind, Option.bind_eq_some_iff] at h
  obtain ⟨⟨n, out⟩, hout, h⟩ := h
  obtain ⟨rfl, rfl⟩ := Prod.mk.inj (Except.ok.inj (Option.some.inj h))
  have hlength := Buffer.snprintf_length hout
  rw [malloc.sized _ _ hb] at hlength
  show 0 < headerLen response ∧ headerLen response ≤ out.length
  rw [hlength]
  refine ⟨?_, Nat.le_succ _⟩
  unfold headerLen
  omega

theorem startSend_sending {response : Response} {headerBuf : Bytes} {headerBufLen : Nat}
    (hpos : 0 < headerBufLen)
    (hle : headerBufLen ≤ headerBuf.length) (hbody : ∀ body, response.body = some body →
      response.bodyLen ≤ body.length) :
    Sending (headerBuf.take headerBufLen ++ sentBody response)
      (startSend headerBuf headerBufLen response) [] := by
  have hone : Sending (headerBuf.take headerBufLen) ⟨[⟨headerBuf, 0, headerBufLen⟩], 1, 0⟩ [] := by
    refine ⟨⟨Nat.le_refl 1, List.forall_mem_singleton.mpr ⟨hpos, by rwa [Nat.zero_add]⟩⟩, ?_⟩
    show [] ++ (Bytes.slice headerBuf 0 headerBufLen ++ []) = _
    rw [List.nil_append, List.append_nil]
    rfl
  unfold startSend sentBody
  cases hb : response.body with
  | none =>
    rw [Option.getD_none, List.take_nil, List.append_nil]
    exact hone
  | some body =>
    rw [Option.getD_some]
    by_cases h0 : response.bodyLen > 0
    · simp only [if_pos h0]
      refine ⟨⟨Nat.le_refl 2, ?_⟩, ?_⟩
      · refine List.forall_mem_cons.mpr
          ⟨⟨hpos, by rwa [Nat.zero_add]⟩, List.forall_mem_singleton.mpr ⟨h0, ?_⟩⟩
        have := hbody body hb
        show 0 + response.bodyLen ≤ body.length
        omega
      · show [] ++ (Bytes.slice headerBuf 0 headerBufLen ++
          (Bytes.slice body 0 response.bodyLen ++ [])) = _
        rw [List.nil_append, List.append_nil]
        rfl
    · simp only [if_neg h0]
      rw [show response.bodyLen = 0 by omega, List.take_zero, List.append_nil]
      exact hone

/-- **Partial sends lose and repeat nothing**: after any calls, and during the next one, what the
kernel got and what is left are the header and the body; a call returns 1 exactly when they are all
sent, 0 only after `EAGAIN` and -1 only after another error, both with bytes left; and it goes on as
long as `writev` takes bytes and some are left -/
theorem partial_sends {libc : Libc} {malloc : Malloc} {response : Response} {headerBuf : Bytes}
    {headerBufLen : Nat}
    (hbuild : httpResponseBuildHeader libc malloc response = some (.ok (headerBuf, headerBufLen)))
    (hbody : ∀ body, response.body = some body → response.bodyLen ≤ body.length)
    {conn : ClientState} {kernel : Bytes}
    (h : Calls (startSend headerBuf headerBufLen response) conn kernel)
    {outcomes : List Outcome} (hp : Permitted conn outcomes) :
    kernel ++ conn.offered = headerBuf.take headerBufLen ++ sentBody response ∧
    ∃ c, connectionSendBuffer conn kernel outcomes = some c ∧
      c.kernel ++ c.conn.offered = headerBuf.take headerBufLen ++ sentBody response ∧
      ((∃ conn' kernel', c = .returned 1 conn' kernel') ↔ c.kernel = headerBuf.take headerBufLen ++
        sentBody response) ∧
      (∀ result conn' kernel', c = .returned result conn' kernel' →
        (result = 1 ∨ result = 0 ∨ result = -1) ∧
        (result = 0 → conn'.offered ≠ [] ∧ ∃ (ns : List Nat) (rest : List Outcome), outcomes =
          ns.map .sent ++ .again :: rest) ∧
        (result = -1 → conn'.offered ≠ [] ∧
          ∃ (ns : List Nat) (rest : List Outcome), outcomes = ns.map .sent ++ .failed :: rest)) ∧
      ∀ conn' kernel', c = .writing conn' kernel' → conn'.offered ≠ [] ∧ ∃ ns : List Nat, outcomes =
        ns.map .sent := by
  obtain ⟨hpos, hle⟩ := httpResponseBuildHeader_sized hbuild
  have hsending := (startSend_sending hpos hle hbody).calls h
  obtain ⟨c, hc, hsent, hended⟩ := hsending.call hp
  have hall : c.kernel = headerBuf.take headerBufLen ++ sentBody response ↔
    c.conn.offered = [] := by
    rw [← hsent.whole]
    exact List.self_eq_append_right
  refine ⟨hsending.whole, c, hc, hsent.whole, ?_⟩
  rw [hall]
  cases c with
  | writing conn' kernel' =>
    refine ⟨⟨?_, fun hnil => absurd hnil hended.1⟩, ?_, ?_⟩
    · rintro ⟨conn'', kernel'', heq⟩
      cases heq
    · intro result conn'' kernel'' heq
      cases heq
    · intro conn'' kernel'' heq
      cases heq
      exact hended
  | returned result conn' kernel' =>
    refine ⟨?_, ?_, ?_⟩
    · rcases hended with ⟨rfl, hnil⟩ | ⟨rfl, hne, -⟩ | ⟨rfl, hne, -⟩
      · exact ⟨fun _ => hnil, fun _ => ⟨_, _, rfl⟩⟩
      · refine ⟨?_, fun hnil => absurd hnil hne⟩
        rintro ⟨conn'', kernel'', heq⟩
        cases heq
      · refine ⟨?_, fun hnil => absurd hnil hne⟩
        rintro ⟨conn'', kernel'', heq⟩
        cases heq
    · intro result' conn'' kernel'' heq
      cases heq
      rcases hended with ⟨rfl, -⟩ | ⟨rfl, hlast⟩ | ⟨rfl, hlast⟩
      · exact ⟨Or.inl rfl, fun hr => absurd hr (by decide), fun hr => absurd hr (by decide)⟩
      · exact ⟨Or.inr (Or.inl rfl), fun _ => hlast, fun hr => absurd hr (by decide)⟩
      · exact ⟨Or.inr (Or.inr rfl), fun hr => absurd hr (by decide), fun _ => hlast⟩
    · intro conn'' kernel'' heq
      cases heq

/-- a response with a body of two bytes -/
def emptyList : Response := ⟨.ok, some (ascii "[]"), 2, false, false, none⟩

theorem emptyList_length : (headerText emptyList).length = 83 := by
  rw [← headerLen_eq]
  unfold headerLen resolveContentLength
  rw [digitsLoop, dif_neg (by decide)]
  rfl

/-- what is left when the kernel has all but the last byte -/
def lastByte : ClientState :=
  ⟨[⟨headerText emptyList ++ [0], 0, 83⟩, ⟨ascii "[]", 1, 1⟩], 2, 1⟩

/-- the header and a byte of the body, then a full socket -/
theorem emptyList_first :
    connectionSendBuffer (startSend (headerText emptyList ++ [0]) 83 emptyList) []
    [.sent 84, .again] = some (.returned 0 lastByte (headerText emptyList ++ [0x5b])) := by
  have hoffered : (startSend (headerText emptyList ++ [0]) 83 emptyList).offered.take 84 =
    headerText emptyList ++ [0x5b] := by
    have hall : (startSend (headerText emptyList ++ [0]) 83 emptyList).offered =
      headerText emptyList ++ [0x5b, 0x5d] := by
      show ((headerText emptyList ++ [0]).drop 0).take 83 ++ ([0x5b, 0x5d] ++ []) = _
      rw [List.drop_zero, ← emptyList_length, List.take_left, List.append_nil]
    rw [hall, List.take_append, emptyList_length, List.take_of_length_le
      (by rw [emptyList_length]; decide)]
    rfl
  have hadvance : advanceIovec (startSend (headerText emptyList ++ [0]) 83 emptyList) 84 =
    some (false, lastByte) := by
    rw [advanceIovec, dif_pos (by decide)]
    show advanceIovec ⟨[⟨headerText emptyList ++ [0], 0, 83⟩, ⟨ascii "[]", 0, 2⟩], 2, 1⟩ 1 = _
    rw [advanceIovec, dif_pos (by decide)]
    show advanceIovec lastByte 0 = _
    rw [advanceIovec, dif_neg (by decide)]
    rfl
  rw [connectionSendBuffer, if_pos (by decide)]
  simp only [if_pos (show 84 > 0 by decide), hadvance, Option.bind_eq_bind,
    Option.bind_some, hoffered]
  rfl

/-- a header, a body of two bytes and three outcomes, over two calls -/
theorem partial_sends_again :
    ∃ c, connectionSendBuffer lastByte (headerText emptyList ++ [0x5b]) [.sent 1] = some c ∧
      ((∃ conn' kernel', c = .returned 1 conn' kernel') ↔
        c.kernel = (headerText emptyList ++ [0]).take 83 ++ sentBody emptyList) := by
  have hlength := emptyList_length
  have hbuild : httpResponseBuildHeader ⟨id, fun _ => rfl⟩ .zeroed emptyList =
      some (.ok (headerText emptyList ++ [0], 83)) := by
    rw [← hlength]
    exact httpResponseBuildHeader_writes (fun size => ⟨_, rfl⟩) (by rw [hlength]; decide)
      (by rw [hlength]; decide)
  have hpermitted : Permitted (startSend (headerText emptyList ++ [0]) 83 emptyList)
    [.sent 84, .again] := by
    refine ⟨by decide, ?_, fun _ _ _ => trivial⟩
    show 84 ≤ (((headerText emptyList ++ [0]).drop 0).take 83 ++ ([0x5b, 0x5d] ++ [])).length
    rw [List.drop_zero, ← hlength, List.take_left, List.length_append, hlength]
    decide
  have hbody : ∀ body, emptyList.body = some body → emptyList.bodyLen ≤ body.length := by
    intro body hb
    cases hb
    decide
  have hlast : Permitted lastByte [.sent 1] := by
    refine ⟨by decide, ?_, fun _ _ _ => trivial⟩
    show 1 ≤ ((([0x5b, 0x5d] : Bytes).drop 1).take 1 ++ []).length
    decide
  obtain ⟨c, hc, -, hone, -⟩ :=
    (partial_sends hbuild hbody (.call .start hpermitted emptyList_first) hlast).2
  exact ⟨c, hc, hone⟩

end Http
