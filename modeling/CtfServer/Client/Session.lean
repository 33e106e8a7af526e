import CtfServer.Lib.Runs

/-!
# Requests and the session of the client

`HttpClient.request` (http-client.ts), `SessionService` (session-service.ts) and `MyApp.logout`
(my-app.ts).  Code runs from one `await` to the next; what is awaited completes in any order, and a
session may be started or cleared in between.  A log keeps what the calls did.

* `SessionService`, `Call`, `LogoutCall`   the session, and the calls that are suspended;
* `World.step`            one event: a call, a completion, a start or a clear;
* `World.Good`            the invariant: an entry whose version is the current one is cut off from
                          no session change, and the calls that may still clear have not done so;
* `client_isolated`       **what comes for an old session does not reach a new one**;
* `logout_turned_away`    a second `logout` ends while the token is still stored.
-/

set_option linter.unusedVariables false
set_option linter.unusedSimpArgs false

namespace Client

open Runs (run run_invariant Every every_nil every_snoc Since since_snoc After after_last)

/-! ## the session -/

structure SessionService where
  token : String := ""
  version : Nat := 0
  notice : String := ""
  deriving DecidableEq, Repr

namespace SessionService

def authenticated (session : SessionService) : Bool := session.token.length > 0

def clear (session : SessionService) (notice : String) : SessionService :=
  { token := "", notice := notice, version := session.version + 1 }

def start (session : SessionService) (token : String) : SessionService :=
  { token := token, notice := "", version := session.version + 1 }

end SessionService

/-! ## errors -/

structure ApiError where
  message : String
  status : Nat := 0
  deriving DecidableEq, Repr

/-- what a call throws: an `ApiError`, or anything else -/
inductive Thrown where
  | api (error : ApiError)
  | other
  deriving DecidableEq, Repr

def errorMessage : Thrown → String
  | .api error => error.message
  | .other => "処理に失敗しました。もう一度お試しください。"

/-- `messages` -/
def statusMessage (status : Nat) : String :=
  if status = 400 then "入力内容を確認してください。"
  else if status = 401 then "認証に失敗しました。ログイン情報を確認してください。"
  else if status = 403 then "この操作を行う権限がありません。"
  else if status = 404 then "対象の問題が見つかりません。"
  else if status = 409 then "同じユーザー名が登録されています。"
  else if status = 503 then "サーバーが混み合っています。しばらく待ってから再試行してください。"
  else "サーバーでエラーが発生しました。再試行してください。"

def connectionMessage (method : String) : String :=
  if method = "GET" then "サーバーに接続できません。再試行してください。"
  else "通信が切れました。処理が完了している可能性があります。履歴や一覧を確認してください。"

def discarded : ApiError := { message := "ログイン状態が変わったため結果を破棄しました。" }
def unreadable : ApiError := { message := "サーバーの応答を読み取れませんでした。" }

/-! ## the calls -/

/-- the options of a request that its answer depends on -/
structure RequestOptions where
  method : String
  path : String
  empty : Bool := false
  isProtected : Bool := false
  deriving DecidableEq, Repr

/-- `Api.logout` -/
def logoutOptions : RequestOptions :=
  { method := "POST", path := "/logout", empty := true, isProtected := true }

/-- the header `Authorization` -/
def authorization (options : RequestOptions) (session : SessionService) : Option String :=
  if options.isProtected && session.authenticated then some ("Bearer " ++ session.token) else none

/-- a request behind one of its two `await`s; `reading` is the second, for the body -/
structure Call where
  id : Nat
  options : RequestOptions
  version : Nat
  authorization : Option String
  reading : Bool := false

/-- how a request ends; `none` is `undefined` -/
inductive Outcome (β : Type) where
  | returned (value : Option β)
  | threw (error : ApiError)

/-- a logout behind its `await`, with how its request ended, once it has -/
structure LogoutCall (β : Type) where
  id : Nat
  version : Nat
  result : Option (Outcome β) := none

/-- what happened, with the version of the session at that moment -/
inductive Entry (β : Type) where
  | sent (id : Nat) (options : RequestOptions) (version : Nat)
  | returned (id : Nat) (value : Option β) (version : Nat)
  | threw (id : Nat) (error : ApiError)
  /-- `MyApp.logout` is called, `busy` or not -/
  | called (id : Nat) (busy : Bool) (version : Nat)
  /-- it ends, and this token is stored -/
  | finished (id : Nat) (token : String)
  /-- a request or a logout clears the session -/
  | cleared (id : Nat) (version : Nat)
  | started (token : String)
  /-- anything else clears the session -/
  | changed

/-- the session is another one -/
def Entry.isChange {β : Type} : Entry β → Prop
  | .cleared _ _ | .started _ | .changed => True
  | _ => False

structure World (β : Type) where
  session : SessionService := {}
  busy : Bool := false
  requests : List Call := []
  logouts : List (LogoutCall β) := []
  next : Nat := 0
  log : List (Entry β) := []

namespace World
variable {β : Type}

/-- the part of `HttpClient.request` up to its first `await` -/
def request (w : World β) (options : RequestOptions) : World β :=
  { w with
    requests := ⟨w.next, options, w.session.version, authorization options w.session, false⟩
    :: w.requests
    next := w.next + 1
    log := w.log ++ [.sent w.next options w.session.version] }

/-- a request ends; the logout that awaits it keeps how -/
def settle (w : World β) (call : Call) (outcome : Outcome β) : World β :=
  { w with
    requests := w.requests.filter fun c => c.id ≠ call.id
    logouts := w.logouts.map fun l => if l.id = call.id then
      { l with result := some outcome } else l
    log := w.log ++ [match outcome with
      | .returned value => .returned call.id value w.session.version
      | .threw error => .threw call.id error] }

/-- the session is cleared by a call -/
def clear (w : World β) (id : Nat) (notice : String) : World β :=
  { w with session := w.session.clear notice, log := w.log ++ [.cleared id w.session.version] }

/-- `response.ok` -/
def ok (status : Nat) : Prop := 200 ≤ status ∧ status ≤ 299

instance (status : Nat) : Decidable (ok status) := inferInstanceAs (Decidable (_ ∧ _))

/-- behind the first `await`, where a response came -/
def responded (w : World β) (call : Call) (status : Nat) : World β :=
  if call.options.isProtected ∧ call.version ≠ w.session.version then w.settle call
    (.threw discarded)
  else if ¬ ok status then
    let w :=
      if status = 401 ∧ call.options.isProtected then
        w.clear call.id (if call.options.path = "/logout" then "ログアウトしました。"
          else "ログインが無効になりました。再度ログインしてください。")
      else w
    w.settle call (.threw { message := statusMessage status, status := status })
  else if call.options.empty then w.settle call (.returned none)
  else { w with requests := w.requests.map fun c => if c.id = call.id then
    { c with reading := true } else c }

/-- behind the second `await`, where the body could be read -/
def bodyRead (w : World β) (call : Call) (value : β) : World β :=
  if call.options.isProtected ∧ call.version ≠ w.session.version then w.settle call
    (.threw discarded)
  else w.settle call (.returned (some value))

/-- the part of `MyApp.logout` up to its `await` -/
def logout (w : World β) : World β :=
  if w.busy then
    { w with
      next := w.next + 1
      log := w.log ++ [.called w.next true w.session.version] ++
        [.finished w.next w.session.token] }
  else
    let sent := w.request logoutOptions
    { sent with
      busy := true
      logouts := { id := w.next, version := w.session.version } :: w.logouts
      log := sent.log ++ [.called w.next false w.session.version] }

/-- `notice` when `finally` is reached -/
def logoutNotice : Outcome β → String
  | .returned _ => "ログアウトしました。"
  | .threw error =>
    if error.status = 401 then "ログアウトしました。"
    else "端末のログイン情報を削除しました。サーバー側の失効は確認できませんでした。" ++ errorMessage (.api error)

/-- `MyApp.logout` behind its `await` -/
def logoutResumed (w : World β) (call : LogoutCall β) (outcome : Outcome β) : World β :=
  let w := if call.version = w.session.version then w.clear call.id (logoutNotice outcome) else w
  { w with
    busy := false
    logouts := w.logouts.filter fun l => l.id ≠ call.id
    log := w.log ++ [.finished call.id w.session.token] }

/-- the request that awaits the response, or the body -/
def waiting (w : World β) (id : Nat) (reading : Bool) : Option Call :=
  w.requests.find? fun c => c.id == id && c.reading == reading

end World

inductive Event (β : Type) where
  | request (options : RequestOptions)
  | responded (id status : Nat)
  | fetchFailed (id : Nat)
  | bodyRead (id : Nat) (value : β)
  | bodyFailed (id : Nat)
  | logout
  | logoutResumed (id : Nat)
  | start (token : String)
  | clear (notice : String)

/-- one event; `none` for the completion of what is not awaited -/
def World.step {β : Type} (w : World β) : Event β → Option (World β)
  | .request options => some (w.request options)
  | .responded id status => (w.waiting id false).map fun call => w.responded call status
  | .fetchFailed id => (w.waiting id false).map fun call =>
      w.settle call (.threw { message := connectionMessage call.options.method })
  | .bodyRead id value => (w.waiting id true).map fun call => w.bodyRead call value
  | .bodyFailed id => (w.waiting id true).map fun call => w.settle call (.threw unreadable)
  | .logout => some w.logout
  | .logoutResumed id => do
      let call ← w.logouts.find? fun l => l.id == id
      let outcome ← call.result
      some (w.logoutResumed call outcome)
  | .start token =>
    some { w with session := w.session.start token, log := w.log ++ [.started token] }
  | .clear notice => some { w with session := w.session.clear notice, log := w.log ++ [.changed] }

/-! ## what is allowed -/

section
variable {β : Type}

/-- data is returned, and the session is cleared, only while the session is the one that was current
when the call began -/
def Isolated (before : List (Entry β)) : Entry β → Prop
  | .returned id _ version =>
    ∀ options v, .sent id options v ∈ before → options.isProtected = true →
      v = version ∧ Since Entry.isChange (.sent id options v) before
  | .cleared id version =>
    (∀ options v, .sent id options v ∈ before →
      options.isProtected = true ∧ v = version ∧ Since Entry.isChange (.sent id options v) before) ∧
    ∀ busy v, .called id busy v ∈ before →
      busy = false ∧ v = version ∧ Since Entry.isChange (.called id busy v) before
  | _ => True

/-- where a logout that was not turned away ends, no token is stored but one that was started
later -/
def LoggedOut (before : List (Entry β)) : Entry β → Prop
  | .finished id token => ∀ version, .called id false version ∈ before →
      token = "" ∨ After (.called id false version) (.started token) before
  | _ => True

/-- the call clears the session -/
def Entry.clears (id : Nat) : Entry β → Bool
  | .cleared i _ => i == id
  | _ => false

/-- the version of the session, in an entry for a call that begins -/
def Entry.stamp : Entry β → Option Nat
  | .sent _ _ version | .called _ _ version => some version
  | _ => none

/-- the call that an entry is about -/
def Entry.call : Entry β → Option Nat
  | .sent id _ _ | .returned id _ _ | .threw id _ | .called id _ _ | .finished id _
    | .cleared id _ => some id
  | _ => none

theorem Entry.clears_call {e : Entry β} {id : Nat} (h : e.clears id = true) : e.call = some id := by
  cases e with
  | cleared i v => exact congrArg some (eq_of_beq h)
  | _ => cases h

/-! ## versions -/

/-- the version tells whether the session was changed since a call began, and by whom its token
is -/
structure Stamped (session : SessionService) (log : List (Entry β)) (e : Entry β)
    (v : Nat) : Prop where
  le : v ≤ session.version
  since : v = session.version → Since Entry.isChange e log
  token : v < session.version → session.token = "" ∨ After e (.started session.token) log

def Stamps (session : SessionService) (log : List (Entry β)) : Prop :=
  ∀ e ∈ log, ∀ v, e.stamp = some v → Stamped session log e v

variable {session : SessionService} {log : List (Entry β)} {x : Entry β}

/-- an entry for a call that begins, or for none -/
theorem Stamps.quiet (h : Stamps session log) (hx : ¬ x.isChange)
    (hv : ∀ v, x.stamp = some v → v = session.version) :
    Stamps session (log ++ [x]) := by
  intro e he v hev
  rcases List.mem_append.mp he with he | he
  · obtain ⟨h1, h2, h3⟩ := h e he v hev
    exact ⟨h1, fun hv => since_snoc.mpr (.inr ⟨h2 hv, hx⟩), fun hv => (h3 hv).imp_right
      fun h => h.snoc x⟩
  · rw [List.mem_singleton.mp he] at hev ⊢
    have hv := hv v hev
    exact ⟨Nat.le_of_eq hv, fun _ => since_snoc.mpr (.inl rfl), fun h => by omega⟩

/-- the session becomes another one -/
theorem Stamps.change (h : Stamps session log) (hx : x.stamp = none) {session' : SessionService}
    (hversion : session'.version = session.version + 1)
    (htoken : session'.token = "" ∨ x = .started session'.token) :
    Stamps session' (log ++ [x]) := by
  intro e he v hev
  rcases List.mem_append.mp he with he | he
  · have h1 := (h e he v hev).le
    refine ⟨by omega, fun hv => by omega, fun _ => htoken.imp_right fun hx => ?_⟩
    rw [hx]
    exact after_last he
  · rw [List.mem_singleton.mp he, hx] at hev
    cases hev

end

/-- no call is under way -/
structure World.Fresh {β : Type} (w : World β) : Prop where
  busy : w.busy = false
  requests : w.requests = []
  logouts : w.logouts = []
  log : w.log = []

/-! ## the invariant -/

namespace World
variable {β : Type}

structure Good (w : World β) : Prop where
  stamps : Stamps w.session w.log
  ids : ∀ e ∈ w.log, ∀ i, e.call = some i → i < w.next
  sentOnce : ∀ i o v o' v', Entry.sent i o v ∈ w.log → Entry.sent i o' v' ∈ w.log → o = o' ∧ v = v'
  calledOnce : ∀ i b v b' v', Entry.called i b v ∈ w.log → Entry.called i b' v' ∈ w.log →
    b = b' ∧ v = v'
  logoutSent : ∀ i b v o v', Entry.called i b v ∈ w.log → Entry.sent i o v' ∈ w.log →
    b = false ∧ o = logoutOptions ∧ v = v'
  requests : ∀ c ∈ w.requests, Entry.sent c.id c.options c.version ∈ w.log
  logouts : ∀ l ∈ w.logouts, Entry.called l.id false l.version ∈ w.log
  /-- a logout whose request ended awaits no other -/
  settled : ∀ l ∈ w.logouts, l.result.isSome = true → ∀ c ∈ w.requests, c.id ≠ l.id
  clears : ∀ i, w.log.countP (Entry.clears i) ≤ 1
  pending : ∀ c ∈ w.requests, w.log.countP (Entry.clears c.id) = 0
  waiting : ∀ l ∈ w.logouts, l.version = w.session.version → w.log.countP (Entry.clears l.id) = 0
  isolated : Every Isolated w.log
  loggedOut : Every LoggedOut w.log

/-- an entry for a call that begins is not one of the others -/
theorem mem_log {log : List (Entry β)} {e x : Entry β} (hx : x.stamp = none) (he : e ∈ log ++ [x])
    (hs : e.stamp ≠ none) : e ∈ log := by
  rcases List.mem_append.mp he with he | he
  · exact he
  · rw [List.mem_singleton.mp he] at hs
    exact absurd hx hs

theorem countP_snoc {log : List (Entry β)} {x : Entry β} {i : Nat} (hx : x.clears i = false) :
    (log ++ [x]).countP (Entry.clears i) = log.countP (Entry.clears i) := by
  rw [List.countP_append, List.countP_singleton, if_neg (by simp [hx]), Nat.add_zero]

/-- **An entry is added** that is for no call that begins; the session may become another one. -/
theorem Good.extend {w : World β} (h : w.Good) {x : Entry β} {session' : SessionService}
    (hx : x.stamp = none)
    (hstamps : Stamps session' (w.log ++ [x])) (hcall : ∀ i, x.call = some i → i < w.next)
    (hclears : ∀ i, x.clears i = true → w.log.countP (Entry.clears i) = 0 ∧
      ∀ c ∈ w.requests, c.id ≠ i)
    (hwaiting : ∀ l ∈ w.logouts, l.version = session'.version → (w.log ++ [x]).countP
      (Entry.clears l.id) = 0)
    (hi : Isolated w.log x) (hl : LoggedOut w.log x) :
    Good { w with session := session', log := w.log ++ [x] } where
  stamps := hstamps
  ids := by
    intro e he i hei
    rcases List.mem_append.mp he with he | he
    · exact h.ids e he i hei
    · rw [List.mem_singleton.mp he] at hei
      exact hcall i hei
  sentOnce i o v o' v' h1 h2 := h.sentOnce i o v o' v' (mem_log hx h1 nofun) (mem_log hx h2 nofun)
  calledOnce i b v b' v' h1 h2 := h.calledOnce i b v b' v' (mem_log hx h1 nofun)
    (mem_log hx h2 nofun)
  logoutSent i b v o v' h1 h2 := h.logoutSent i b v o v' (mem_log hx h1 nofun) (mem_log hx h2 nofun)
  requests c hc := List.mem_append_left _ (h.requests c hc)
  logouts l hl := List.mem_append_left _ (h.logouts l hl)
  settled := h.settled
  clears := by
    intro i
    cases hxi : x.clears i with
    | true =>
      show (w.log ++ [x]).countP _ ≤ 1
      rw [List.countP_append, (hclears i hxi).1, Nat.zero_add]
      exact List.countP_le_length
    | false =>
      show (w.log ++ [x]).countP _ ≤ 1
      rw [countP_snoc hxi]
      exact h.clears i
  pending := by
    intro c hc
    have hno : x.clears c.id = false := by
      rw [Bool.eq_false_iff]
      exact fun hxi => (hclears _ hxi).2 c hc rfl
    exact (countP_snoc hno).trans (h.pending c hc)
  waiting := hwaiting
  isolated := every_snoc.mpr ⟨h.isolated, hi⟩
  loggedOut := every_snoc.mpr ⟨h.loggedOut, hl⟩

/-- a call does something that leaves the session as it is -/
theorem Good.note {w : World β} (h : w.Good) {x : Entry β} (hx : x.stamp = none)
    (hchange : ¬ x.isChange)
    (hcall : ∀ i, x.call = some i → i < w.next) (hi : Isolated w.log x) (hl : LoggedOut w.log x) :
    Good { w with log := w.log ++ [x] } := by
  have hno : ∀ i, x.clears i = false := by
    intro i
    cases x <;> first | rfl | exact absurd trivial hchange
  refine h.extend hx (h.stamps.quiet hchange ?_) hcall ?_ ?_ hi hl
  · intro v hv
    rw [hx] at hv
    cases hv
  · intro i hxi
    rw [hno] at hxi
    cases hxi
  · intro l hl hv
    rw [countP_snoc (hno _)]
    exact h.waiting l hl hv

/-- the session becomes another one -/
theorem Good.change {w : World β} (h : w.Good) {x : Entry β} {session' : SessionService}
    (hx : x.stamp = none) (hversion : session'.version = w.session.version + 1)
    (htoken : session'.token = "" ∨ x = .started session'.token)
    (hcall : ∀ i, x.call = some i → i < w.next)
    (hclears : ∀ i, x.clears i = true → w.log.countP (Entry.clears i) = 0 ∧
      ∀ c ∈ w.requests, c.id ≠ i)
    (hi : Isolated w.log x) (hl : LoggedOut w.log x) :
    Good { w with session := session', log := w.log ++ [x] } := by
  refine h.extend hx (h.stamps.change hx hversion htoken) hcall hclears ?_ hi hl
  intro l hl hv
  have hle := (h.stamps _ (h.logouts l hl) l.version rfl).le
  omega

/-- a request begins -/
theorem Good.request {w : World β} (h : w.Good) (options : RequestOptions) :
    (w.request options).Good where
  stamps := h.stamps.quiet (fun hx => hx) fun v hv => by cases hv; rfl
  ids := by
    intro e he i hei
    rcases List.mem_append.mp he with he | he
    · exact Nat.lt_succ_of_lt (h.ids e he i hei)
    · rw [List.mem_singleton.mp he] at hei
      cases hei
      exact Nat.lt_succ_self _
  sentOnce := by
    intro i o v o' v' h1 h2
    rcases List.mem_append.mp h1 with h1 | h1 <;> rcases List.mem_append.mp h2 with h2 | h2
    · exact h.sentOnce i o v o' v' h1 h2
    · have hlt := h.ids _ h1 i rfl
      cases List.mem_singleton.mp h2
      omega
    · have hlt := h.ids _ h2 i rfl
      cases List.mem_singleton.mp h1
      omega
    · cases List.mem_singleton.mp h1
      cases List.mem_singleton.mp h2
      exact ⟨rfl, rfl⟩
  calledOnce := by
    intro i b v b' v' h1 h2
    rcases List.mem_append.mp h1 with h1 | h1 <;> rcases List.mem_append.mp h2 with h2 | h2
    · exact h.calledOnce i b v b' v' h1 h2
    · cases List.mem_singleton.mp h2
    · cases List.mem_singleton.mp h1
    · cases List.mem_singleton.mp h1
  logoutSent := by
    intro i b v o v' h1 h2
    rcases List.mem_append.mp h1 with h1 | h1 <;> rcases List.mem_append.mp h2 with h2 | h2
    · exact h.logoutSent i b v o v' h1 h2
    · have hlt := h.ids _ h1 i rfl
      cases List.mem_singleton.mp h2
      omega
    · cases List.mem_singleton.mp h1
    · cases List.mem_singleton.mp h1
  requests := by
    intro c hc
    rcases List.mem_cons.mp hc with rfl | hc
    · exact List.mem_append_right _ List.mem_cons_self
    · exact List.mem_append_left _ (h.requests c hc)
  logouts l hl := List.mem_append_left _ (h.logouts l hl)
  settled := by
    intro l hl hr c hc
    rcases List.mem_cons.mp hc with rfl | hc
    · have hlt := h.ids _ (h.logouts l hl) l.id rfl
      exact fun heq => Nat.lt_irrefl _ (heq ▸ hlt)
    · exact h.settled l hl hr c hc
  clears i := by
    show (w.log ++ [_]).countP _ ≤ 1
    rw [countP_snoc rfl]
    exact h.clears i
  pending := by
    intro c hc
    show (w.log ++ [_]).countP _ = 0
    rw [countP_snoc rfl]
    rcases List.mem_cons.mp hc with rfl | hc
    · rw [List.countP_eq_zero]
      intro e he hclears
      exact Nat.lt_irrefl _ (h.ids e he _ (Entry.clears_call hclears))
    · exact h.pending c hc
  waiting l hl hv := by
    show (w.log ++ [_]).countP _ = 0
    rw [countP_snoc rfl]
    exact h.waiting l hl hv
  isolated := every_snoc.mpr ⟨h.isolated, trivial⟩
  loggedOut := every_snoc.mpr ⟨h.loggedOut, trivial⟩

/-! ## what a step keeps -/

/-- only the calls that are under way become others -/
theorem Good.calls {w : World β} (h : w.Good) {requests : List Call} {logouts : List (LogoutCall β)}
    (busy : Bool)
    (hr : ∀ c ∈ requests, ∃ c' ∈ w.requests, c'.id = c.id ∧ c'.options = c.options ∧
      c'.version = c.version)
    (hl : ∀ l ∈ logouts, Entry.called l.id false l.version ∈ w.log ∧
      (l.version = w.session.version → w.log.countP (Entry.clears l.id) = 0))
    (hs : ∀ l ∈ logouts, l.result.isSome = true → ∀ c ∈ requests, c.id ≠ l.id) :
    Good { w with requests := requests, logouts := logouts, busy := busy } where
  stamps := h.stamps
  ids := h.ids
  sentOnce := h.sentOnce
  calledOnce := h.calledOnce
  logoutSent := h.logoutSent
  requests := by
    intro c hc
    obtain ⟨c', hc', h1, h2, h3⟩ := hr c hc
    rw [← h1, ← h2, ← h3]
    exact h.requests c' hc'
  logouts l hmem := (hl l hmem).1
  settled := hs
  clears := h.clears
  pending := by
    intro c hc
    obtain ⟨c', hc', h1, -⟩ := hr c hc
    rw [← h1]
    exact h.pending c' hc'
  waiting l hmem := (hl l hmem).2
  isolated := h.isolated
  loggedOut := h.loggedOut

/-- a request is no longer under way -/
def settleCalls (w : World β) (call : Call) (outcome : Outcome β) : World β :=
  { w with
    requests := w.requests.filter fun c => c.id ≠ call.id
    logouts := w.logouts.map fun l => if l.id = call.id then
      { l with result := some outcome } else l }

theorem Good.settleCalls {w : World β} (h : w.Good) (call : Call) (outcome : Outcome β) :
    (w.settleCalls call outcome).Good := by
  refine h.calls w.busy ?_ ?_ ?_
  · intro c hc
    exact ⟨c, (List.mem_filter.mp hc).1, rfl, rfl, rfl⟩
  · intro l hl
    obtain ⟨l', hl', rfl⟩ := List.mem_map.mp hl
    split
    · exact ⟨h.logouts l' hl', h.waiting l' hl'⟩
    · exact ⟨h.logouts l' hl', h.waiting l' hl'⟩
  · intro l hl hres c hc
    obtain ⟨hc, hne⟩ := List.mem_filter.mp hc
    obtain ⟨l', hl', rfl⟩ := List.mem_map.mp hl
    split at hres
    · next heq =>
      rw [if_pos heq]
      show c.id ≠ l'.id
      rw [heq]
      exact of_decide_eq_true hne
    · next heq =>
      rw [if_neg heq]
      exact h.settled l' hl' hres c hc

/-- what was sent by a request that is under way, and the version that its session had -/
theorem Good.since_sent {w : World β} (h : w.Good) {call : Call} (hc : call ∈ w.requests)
    (hv : call.version = w.session.version) {options : RequestOptions} {v : Nat}
    (hsent : Entry.sent call.id options v ∈ w.log) :
    options = call.options ∧ v = w.session.version ∧ Since Entry.isChange
      (.sent call.id options v) w.log := by
  obtain ⟨rfl, rfl⟩ := h.sentOnce _ _ _ _ _ hsent (h.requests call hc)
  exact ⟨rfl, hv, (h.stamps _ hsent _ rfl).since hv⟩

/-- **A request ends**; data is returned only for the session that was current when it began. -/
theorem Good.settle {w : World β} (h : w.Good) {call : Call} (hc : call ∈ w.requests)
    {outcome : Outcome β}
    (ho : ∀ value, outcome = .returned value → call.options.isProtected = true → call.version =
      w.session.version) :
    (w.settle call outcome).Good := by
  have hid : call.id < w.next := h.ids _ (h.requests call hc) _ rfl
  have hcalls := h.settleCalls call outcome
  cases outcome with
  | returned value =>
    refine hcalls.note (x := .returned call.id value w.session.version) rfl (fun hx => hx)
      ?_ ?_ trivial
    · intro i hi
      cases hi
      exact hid
    · intro options v hsent hprotected
      obtain ⟨hopt, -⟩ := h.sentOnce _ _ _ _ _ hsent (h.requests call hc)
      have hv := ho value rfl (by rw [← hopt]; exact hprotected)
      exact (h.since_sent hc hv hsent).2
  | threw error =>
    refine hcalls.note (x := .threw call.id error) rfl (fun hx => hx) ?_ trivial trivial
    intro i hi
    cases hi
    exact hid

/-- **A call clears the session** that was current when it began, and does so once. -/
theorem Good.clear {w : World β} (h : w.Good) {id : Nat} (notice : String) (hid : id < w.next)
    (hcount : w.log.countP (Entry.clears id) = 0) (hr : ∀ c ∈ w.requests, c.id ≠ id)
    (hi : Isolated w.log (.cleared id w.session.version)) : (w.clear id notice).Good := by
  refine h.change (x := .cleared id w.session.version) rfl rfl (.inl rfl) ?_ ?_ hi trivial
  · intro i hx
    cases hx
    exact hid
  · intro i hx
    cases eq_of_beq hx
    exact ⟨hcount, hr⟩

/-- a response came -/
theorem Good.responded {w : World β} (h : w.Good) {call : Call} (hc : call ∈ w.requests)
    (status : Nat) :
    (w.responded call status).Good := by
  unfold World.responded
  split
  · exact h.settle hc nofun
  next hcurrent =>
  have hv : call.options.isProtected = true → call.version = w.session.version := by
    intro hp
    by_contra hne
    exact hcurrent ⟨hp, hne⟩
  split
  · dsimp only
    split
    · next hp =>
      -- the session is cleared, and the request ends
      have hcalls := h.settleCalls call
        (.threw { message := statusMessage status, status := status })
      have hid : call.id < w.next := h.ids _ (h.requests call hc) _ rfl
      refine Good.note (x := .threw call.id { message := statusMessage status, status := status })
        (hcalls.clear _ hid (h.pending call hc) ?_ ⟨?_, ?_⟩) rfl (fun hx => hx) ?_ trivial trivial
      · intro c hmem
        exact of_decide_eq_true (List.mem_filter.mp hmem).2
      · intro options v hsent
        obtain ⟨rfl, hrest⟩ := h.since_sent hc (hv hp.2) hsent
        exact ⟨hp.2, hrest⟩
      · intro busy v hcalled
        obtain ⟨rfl, -, rfl⟩ := h.logoutSent _ _ _ _ _ hcalled (h.requests call hc)
        exact ⟨rfl, hv hp.2, (h.stamps _ hcalled _ rfl).since (hv hp.2)⟩
      · intro i hx
        cases hx
        exact hid
    · exact h.settle hc nofun
  split
  · exact h.settle hc fun _ _ => hv
  · refine h.calls w.busy ?_ (fun l hl => ⟨h.logouts l hl, h.waiting l hl⟩) ?_
    · intro c hmem
      obtain ⟨c', hc', rfl⟩ := List.mem_map.mp hmem
      refine ⟨c', hc', ?_⟩
      split <;> exact ⟨rfl, rfl, rfl⟩
    · intro l hl hres c hmem
      obtain ⟨c', hc', rfl⟩ := List.mem_map.mp hmem
      have hne := h.settled l hl hres c' hc'
      split <;> exact hne

/-- `MyApp.logout` is called -/
theorem Good.call {w : World β} (h : w.Good) {k : Nat} {busy : Bool} (hk : k < w.next)
    (hnew : ∀ b v, Entry.called k b v ∉ w.log)
    (hsent : ∀ o v, Entry.sent k o v ∈ w.log → busy = false ∧ o = logoutOptions ∧
      w.session.version = v) :
    Good { w with log := w.log ++ [.called k busy w.session.version] } where
  stamps := h.stamps.quiet (fun hx => hx) fun v hv => by cases hv; rfl
  ids := by
    intro e he i hei
    rcases List.mem_append.mp he with he | he
    · exact h.ids e he i hei
    · rw [List.mem_singleton.mp he] at hei
      cases hei
      exact hk
  sentOnce := by
    intro i o v o' v' h1 h2
    rcases List.mem_append.mp h1 with h1 | h1 <;> rcases List.mem_append.mp h2 with h2 | h2
    · exact h.sentOnce i o v o' v' h1 h2
    · cases List.mem_singleton.mp h2
    · cases List.mem_singleton.mp h1
    · cases List.mem_singleton.mp h1
  calledOnce := by
    intro i b v b' v' h1 h2
    rcases List.mem_append.mp h1 with h1 | h1 <;> rcases List.mem_append.mp h2 with h2 | h2
    · exact h.calledOnce i b v b' v' h1 h2
    · cases List.mem_singleton.mp h2
      exact absurd h1 (hnew b v)
    · cases List.mem_singleton.mp h1
      exact absurd h2 (hnew b' v')
    · cases List.mem_singleton.mp h1
      cases List.mem_singleton.mp h2
      exact ⟨rfl, rfl⟩
  logoutSent := by
    intro i b v o v' h1 h2
    rcases List.mem_append.mp h2 with h2 | h2
    · rcases List.mem_append.mp h1 with h1 | h1
      · exact h.logoutSent i b v o v' h1 h2
      · cases List.mem_singleton.mp h1
        exact hsent o v' h2
    · cases List.mem_singleton.mp h2
  requests c hc := List.mem_append_left _ (h.requests c hc)
  logouts l hl := List.mem_append_left _ (h.logouts l hl)
  settled := h.settled
  clears i := by
    show (w.log ++ [_]).countP _ ≤ 1
    rw [countP_snoc rfl]
    exact h.clears i
  pending c hc := (countP_snoc rfl).trans (h.pending c hc)
  waiting l hl hv := (countP_snoc rfl).trans (h.waiting l hl hv)
  isolated := every_snoc.mpr ⟨h.isolated, trivial⟩
  loggedOut := every_snoc.mpr ⟨h.loggedOut, trivial⟩

/-- a number is used -/
theorem Good.skip {w : World β} (h : w.Good) : Good { w with next := w.next + 1 } :=
  { h with ids := fun e he i hi => Nat.lt_succ_of_lt (h.ids e he i hi) }

theorem Good.logout {w : World β} (h : w.Good) : w.logout.Good := by
  have hfresh : ∀ e ∈ w.log, e.call ≠ some w.next := fun e he hi => Nat.lt_irrefl _
    (h.ids e he _ hi)
  unfold World.logout
  split
  · -- turned away: its entry says that the application was busy
    have hcall : Good { w with next := w.next + 1, log :=
      w.log ++ [.called w.next true w.session.version] } :=
      h.skip.call (Nat.lt_succ_self _) (fun b v hm => hfresh _ hm rfl)
        (fun o v hm => absurd rfl (hfresh _ hm))
    refine hcall.note (x := .finished w.next w.session.token) rfl (fun hx => hx) ?_ trivial ?_
    · intro i hx
      cases hx
      exact Nat.lt_succ_self _
    · intro v hcalled
      have hown : Entry.called w.next true w.session.version ∈ w.log ++
        [.called w.next true w.session.version] :=
        List.mem_append_right _ List.mem_cons_self
      exact absurd (hcall.calledOnce _ _ _ _ _ hcalled hown).1 (by decide)
  · have hsent : Good { w.request logoutOptions with
        log := (w.request logoutOptions).log ++ [.called w.next false w.session.version] } := by
      refine (h.request logoutOptions).call (Nat.lt_succ_self _) ?_ ?_
      · intro b v hm
        rcases List.mem_append.mp hm with hm | hm
        · exact hfresh _ hm rfl
        · cases List.mem_singleton.mp hm
      · intro o v hm
        rcases List.mem_append.mp hm with hm | hm
        · exact absurd rfl (hfresh _ hm)
        · cases List.mem_singleton.mp hm
          exact ⟨rfl, rfl, rfl⟩
    refine hsent.calls true (fun c hc => ⟨c, hc, rfl, rfl, rfl⟩) ?_ ?_
    · intro l hl
      rcases List.mem_cons.mp hl with rfl | hl
      · exact ⟨List.mem_append_right _ List.mem_cons_self, fun _ =>
          hsent.pending _ List.mem_cons_self⟩
      · exact ⟨hsent.logouts l hl, hsent.waiting l hl⟩
    · intro l hl hres
      rcases List.mem_cons.mp hl with rfl | hl
      · cases hres
      · exact hsent.settled l hl hres

/-- `MyApp.logout` ends -/
theorem Good.logoutResumed {w : World β} (h : w.Good) {call : LogoutCall β} (hc : call ∈ w.logouts)
    {outcome : Outcome β} (hres : call.result = some outcome) :
    (w.logoutResumed call outcome).Good := by
  have hcalled := h.logouts call hc
  have hid : call.id < w.next := h.ids _ hcalled _ rfl
  have hstamp := h.stamps _ hcalled _ rfl
  -- the world behind `if (version === this.session.version)`
  suffices hfinish : ∀ w' : World β, w'.Good → call.id < w'.next →
      (∀ v, Entry.called call.id false v ∈ w'.log → w'.session.token = "" ∨
        After (.called call.id false v) (.started w'.session.token) w'.log) →
      Good { w' with
        busy := false
        logouts := w'.logouts.filter fun l => l.id ≠ call.id
        log := w'.log ++ [.finished call.id w'.session.token] } by
    unfold World.logoutResumed
    dsimp only
    split
    · next hv =>
      refine hfinish _ (h.clear _ hid (h.waiting call hc hv) ?_ ⟨?_, ?_⟩) hid (fun _ _ => .inl rfl)
      · exact h.settled call hc (by rw [hres]; rfl)
      · intro options v hsent
        obtain ⟨-, rfl, rfl⟩ := h.logoutSent _ _ _ _ _ hcalled hsent
        exact ⟨rfl, hv, (h.stamps _ hsent _ rfl).since hv⟩
      · intro busy v hcalled'
        obtain ⟨rfl, rfl⟩ := h.calledOnce _ _ _ _ _ hcalled' hcalled
        exact ⟨rfl, hv, hstamp.since hv⟩
    · next hv =>
      refine hfinish w h hid ?_
      intro v hcalled'
      obtain ⟨-, rfl⟩ := h.calledOnce _ _ _ _ _ hcalled' hcalled
      exact hstamp.token (Nat.lt_of_le_of_ne hstamp.le hv)
  intro w' h' hid' htoken
  have hcalls : Good { w' with busy := false, logouts := w'.logouts.filter fun l =>
    l.id ≠ call.id } := by
    refine h'.calls false (fun c hc => ⟨c, hc, rfl, rfl, rfl⟩) ?_ ?_
    · intro l hl
      have hl := (List.mem_filter.mp hl).1
      exact ⟨h'.logouts l hl, h'.waiting l hl⟩
    · intro l hl
      exact h'.settled l (List.mem_filter.mp hl).1
  refine hcalls.note (x := .finished call.id w'.session.token) rfl (fun hx => hx) ?_ trivial htoken
  intro i hx
  cases hx
  exact hid'

/-- **One event keeps the invariant.** -/
theorem Good.step {w w' : World β} {event : Event β} (h : w.Good) (hstep : w.step event = some w') :
    w'.Good := by
  have hwaiting : ∀ {id : Nat} {reading : Bool} {call : Call}, w.waiting id reading = some call →
    call ∈ w.requests :=
    fun hf => List.mem_of_find?_eq_some hf
  cases event with
  | request options =>
    cases hstep
    exact h.request options
  | responded id status =>
    obtain ⟨call, hf, rfl⟩ := Option.map_eq_some_iff.mp hstep
    exact h.responded (hwaiting hf) status
  | fetchFailed id =>
    obtain ⟨call, hf, rfl⟩ := Option.map_eq_some_iff.mp hstep
    exact h.settle (hwaiting hf) nofun
  | bodyRead id value =>
    obtain ⟨call, hf, rfl⟩ := Option.map_eq_some_iff.mp hstep
    unfold World.bodyRead
    split
    · exact h.settle (hwaiting hf) nofun
    · next hcurrent =>
      refine h.settle (hwaiting hf) fun _ _ hp => ?_
      by_contra hne
      exact hcurrent ⟨hp, hne⟩
  | bodyFailed id =>
    obtain ⟨call, hf, rfl⟩ := Option.map_eq_some_iff.mp hstep
    exact h.settle (hwaiting hf) nofun
  | logout =>
    cases hstep
    exact h.logout
  | logoutResumed id =>
    obtain ⟨call, hf, hstep⟩ := Option.bind_eq_some_iff.mp hstep
    obtain ⟨outcome, hres, hstep⟩ := Option.bind_eq_some_iff.mp hstep
    cases hstep
    exact h.logoutResumed (List.mem_of_find?_eq_some hf) hres
  | start token =>
    cases hstep
    exact h.change (x := .started token) rfl rfl (.inr rfl) nofun nofun trivial trivial
  | clear notice =>
    cases hstep
    exact h.change (x := .changed) rfl rfl (.inl rfl) nofun nofun trivial trivial

theorem Fresh.good {w : World β} (h : w.Fresh) : w.Good := by
  obtain ⟨-, hr, hl, hlog⟩ := h
  constructor <;> simp [hr, hl, hlog, Stamps, every_nil]

end World

/-! ## the runs -/

/-- **What comes for an old session does not reach a new one.**  In every run of requests, logouts,
completions, starts and clears: a protected request returns data, and clears the session, only while
the session is the one that was current when it was sent; a logout clears the session at most once,
and only the one that was current when it was called; and where a logout that was not turned away
because another was under way ends, the stored token is empty or was stored by a later start. -/
theorem client_isolated {β : Type} (w0 w : World β) (events : List (Event β)) (h0 : w0.Fresh)
    (hrun : run World.step w0 events = some w) :
    Every Isolated w.log ∧ (∀ id, w.log.countP (Entry.clears id) ≤ 1) ∧ Every LoggedOut w.log := by
  have h := run_invariant (fun _ _ _ h1 h2 => World.Good.step h1 h2) h0.good hrun
  exact ⟨h.isolated, h.clears, h.loggedOut⟩

/-- a request and a logout of one session are answered when the next one has started, and then that
one is logged out as well -/
def sampleRun : List (Event String) :=
  [.start "old", .request ⟨"GET", "/answers/me", false, true⟩, .logout, .start "new",
    .responded 0 401, .responded 1 204,
    .logoutResumed 1, .logout, .responded 2 204, .logoutResumed 2]

theorem client_isolated_sample : ({} : World String).Fresh ∧ ∃ w, run World.step
    {} sampleRun = some w ∧
    w.log[7]? = some (.finished 1 "new") ∧ w.log[11]? = some (.cleared 2 2) ∧ w.log[12]? =
    some (.finished 2 "") ∧
    Every Isolated w.log ∧ (∀ id, w.log.countP (Entry.clears id) ≤ 1) ∧ Every LoggedOut w.log :=
  ⟨⟨rfl, rfl, rfl, rfl⟩, _, rfl, rfl, rfl, rfl, client_isolated {} _ sampleRun
    ⟨rfl, rfl, rfl, rfl⟩ rfl⟩

/-- **A second logout is turned away** while the first is under way, and ends at once with the token
of the session still stored. -/
theorem logout_turned_away :
    ¬ ∀ (w0 w : World String) (events : List (Event String)), w0.Fresh →
    run World.step w0 events = some w →
      Every (fun before entry => ∀ id token busy version, entry = .finished id token →
        .called id busy version ∈ before →
          token = "" ∨ After (.called id busy version) (.started token) before) w.log := by
  intro h
  have hrun : ∃ w, run World.step ({} : World String) [.start "token", .logout, .logout] = some w ∧
      w.log = [.started "token", .sent 0 logoutOptions 1, .called 0 false 1, .called 1 true 1] ++
        .finished 1 "token" :: [] := ⟨_, rfl, rfl⟩
  obtain ⟨w, hw, hlog⟩ := hrun
  have hlast := h {} w _ ⟨rfl, rfl, rfl, rfl⟩ hw _ _ _ hlog 1 "token" true 1 rfl (by simp)
  rcases hlast with hlast | ⟨a, b, hab, hmem⟩
  · exact absurd hlast (by decide)
  · -- nothing stands behind the entry of the second call
    rcases a with _ | ⟨_, _ | ⟨_, _ | ⟨_, _ | ⟨_, a⟩⟩⟩⟩
    · simp at hab
    · simp at hab
    · simp at hab
    · simp only [List.cons_append, List.nil_append, List.cons.injEq, true_and] at hab
      rw [← hab.2.2.2] at hmem
      cases hmem
    · simp at hab

end Client
