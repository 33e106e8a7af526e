import CtfServer.Client.PageState
import CtfServer.Client.Forms

/-!
# The page of a challenge

`DetailPage` (detail-page.ts), bound to the session.  `refresh`, `refreshHistory` and `submit` are
suspended at their `await`s, one inside the other; their continuations run in any order, and the
page may be led to another challenge, or the session changed, in between.  A log keeps what was
asked and what was shown.

* `DetailPage`, `Wait`       the fields, and the continuations that are suspended;
* `DetailPage.step`          one event;
* `DetailPage.Allowed`       what may be shown, by what was asked before;
* `DetailPage.Good`          the invariant;
* `detail_private`           **the page shows what was asked in this session about this
                             challenge**, and says that the challenge is solved only if the
                             server said so.
-/

set_option linter.unusedVariables false
set_option linter.unusedSimpArgs false

namespace Client

open Runs (run run_invariant Every every_nil every_snoc Since since_snoc since_quiet not_since)

/-! ## the fields -/

/-- `checkpoint()` -/
structure Checkpoint where
  lifetime : Nat
  version : Nat
  deriving DecidableEq, Repr

/-- what is suspended -/
inductive Wait where
  /-- the read of `refresh` -/
  | load (generation : Nat)
  /-- `refresh`, behind its read -/
  | refreshed
  /-- `refreshHistory`; `own` says whether the answers of the user were asked for, `writing` is the
  checkpoint of the `write` that waits for the call -/
  | history (checkpoint : Checkpoint) (generation : Nat) (id : Option Int) (own : Bool)
      (writing : Option Checkpoint)
  /-- the action of `submit`, at `this.api.answer` -/
  | answer (checkpoint : Checkpoint)
  /-- `write`, behind its action -/
  | written (checkpoint : Checkpoint) (error : Option Thrown)
  deriving Repr

/-- what was done -/
inductive DetailEntry where
  /-- the page is led to a challenge -/
  | led
  /-- another session -/
  | left
  | typed (answer : JsString)
  /-- `refreshHistory` asks, in the session of this version, about this challenge -/
  | asked (key version : Nat) (id : Option Int)
  /-- its reply is taken: what of the two parts came -/
  | shown (key : Nat) (publicAnswers own : Except Thrown (List JsObject))
  /-- `submit` sends the answer -/
  | submitted (key version : Nat) (id : Option Int) (answer : JsString)
  /-- its reply is taken -/
  | judged (key : Nat) (correct : Bool)

namespace DetailEntry

/-- the page is about another challenge from here on -/
def leads : DetailEntry → Prop
  | led => True
  | _ => False

/-- the page is about something else from here on -/
def leaves : DetailEntry → Prop
  | led | left => True
  | _ => False

/-- a call of `refreshHistory` that was made before is not the latest one -/
def supersedes : DetailEntry → Prop
  | led | left | asked _ _ _ => True
  | _ => False

/-- a reply of `refreshHistory` is taken -/
def settles : DetailEntry → Prop
  | shown _ _ _ => True
  | _ => False

/-- the call that an entry is about -/
def key : DetailEntry → Option Nat
  | asked key _ _ | shown key _ _ | submitted key _ _ _ | judged key _ => some key
  | _ => none

end DetailEntry

structure DetailPage where
  session : SessionService := {}
  state : PageState := {}
  id : Option Int := none
  challenge : Option JsObject := none
  users : List JsObject := []
  answer : JsString := []
  own : List JsObject := []
  publicAnswers : List JsObject := []
  historyError : String := ""
  submittedCorrectly : Bool := false
  historyGeneration : Nat := 0
  waiting : List (Nat × Wait) := []
  next : Nat := 0
  log : List DetailEntry := []

inductive DetailEvent where
  /-- the page is led to a challenge -/
  | loading (id : Option Int)
  | refresh
  | refreshHistory
  | type (answer : JsString)
  | submit
  | start (token : String)
  | clear (notice : String)
  | loaded (key : Nat) (items users : List JsObject)
  | loadFailed (key : Nat) (error : Thrown)
  | refreshed (key : Nat)
  | replied (key : Nat) (publicAnswers own : Except Thrown (List JsObject))
  | judged (key : Nat) (correct : Except Thrown Bool)
  | written (key : Nat)

namespace DetailPage

/-! ## the methods, up to their `await`s -/

def checkpoint (w : DetailPage) : Checkpoint :=
  { lifetime := w.state.lifetime, version := w.session.version }

/-- the checkpoint still holds -/
def current (w : DetailPage) (checkpoint : Checkpoint) : Prop := checkpoint = w.checkpoint

instance (w : DetailPage) (checkpoint : Checkpoint) : Decidable (w.current checkpoint) :=
  inferInstanceAs (Decidable (checkpoint = w.checkpoint))

/-- `value === this.id` -/
def isId (value : Option JsValue) (id : Option Int) : Bool :=
  match value, id with
  | none, none => true
  | some (.number n), some id => decide ((n : Int) = id)
  | _, _ => false

/-- `item.challenge_id === this.id && item.correct === true` -/
def solution (id : Option Int) (item : JsObject) : Bool :=
  isId (item.get (js "challenge_id")) id && decide (item.get (js "correct") = some (.boolean true))

def solved (w : DetailPage) : Bool :=
  w.session.authenticated && (w.submittedCorrectly || w.own.any (solution w.id))

/-- a continuation is suspended -/
def await (w : DetailPage) (wait : Wait) : DetailPage :=
  { w with waiting := (w.next, wait) :: w.waiting, next := w.next + 1 }

def note (w : DetailPage) (entry : DetailEntry) : DetailPage := { w with log := w.log ++ [entry] }

def showError (w : DetailPage) (error : String) : DetailPage :=
  { w with state := { w.state with error := error } }

def clearPrivate (w : DetailPage) : DetailPage :=
  { w with
    historyGeneration := w.historyGeneration + 1
    answer := []
    own := []
    state := { w.state with message := "" }
    submittedCorrectly := false }

def refresh (w : DetailPage) : DetailPage :=
  let w := { w with
    challenge := none, users := [], own := [], publicAnswers := [], historyError := "" }
  match w.id with
  | none => w.showError "問題IDが不正です。"
  | some _ => { w with state := w.state.beginRead }.await (.load (w.state.generation + 1))

/-- `loading`: `reset`, `clearPrivate`, then the new id -/
def loading (w : DetailPage) (id : Option Int) : DetailPage :=
  refresh { clearPrivate { w with state := w.state.reset } with id := id, log := w.log ++ [.led] }

def refreshHistory (w : DetailPage) (writing : Option Checkpoint) : DetailPage :=
  await
    { w with
      historyGeneration := w.historyGeneration + 1
      log := w.log ++ [.asked w.next w.session.version w.id] }
    (.history w.checkpoint (w.historyGeneration + 1) w.id w.session.authenticated writing)

/-- `submit`, with the `write` that it calls -/
def submit (w : DetailPage) : DetailPage :=
  match w.session.authenticated, w.id, w.challenge with
  | true, some id, some _ =>
    match Client.submit id.toNat w.answer with
    | .error message => w.showError message
    | .ok _ =>
      if w.state.busy then w
      else
        await
          { w with
            state := w.state.beginWrite
            log := w.log ++ [.submitted w.next w.session.version w.id w.answer] }
          (.answer w.checkpoint)
  | _, _, _ => w

/-- the session changes; the listener of `binding` calls `reset` and `clearPrivate` -/
def changeSession (w : DetailPage) (session : SessionService) : DetailPage :=
  let w := clearPrivate { w with session := session, state := w.state.reset, log :=
    w.log ++ [.left] }
  if session.authenticated then w else w.showError "ログインしてください。"

/-! ## the continuations -/

/-- the challenges and the users came -/
def loaded (w : DetailPage) (generation : Nat) (items users : List JsObject) : DetailPage :=
  let w :=
    if generation = w.state.generation then
      let challenge := items.find? fun item => isId (item.get (js "id")) w.id
      let w := { w with challenge := challenge, users := users }
      if challenge.isNone then w.showError "問題が見つかりません。" else w
    else w
  { w with state := w.state.finallyRead generation }.await .refreshed

def loadFailed (w : DetailPage) (generation : Nat) (error : Thrown) : DetailPage :=
  { w with state := (w.state.catchRead generation error).finallyRead generation }.await .refreshed

/-- `refresh` goes on behind its read -/
def refreshed (w : DetailPage) : DetailPage :=
  if w.challenge.isSome then w.refreshHistory none else w

/-- a part of the reply that failed is told -/
def historyFailed (reply : Except Thrown (List JsObject)) (historyError : String) : String :=
  match reply with
  | .ok _ => historyError
  | .error error => errorMessage error

/-- both parts of the reply of `refreshHistory` are settled -/
def replied (w : DetailPage) (key : Nat) (checkpoint : Checkpoint) (generation : Nat)
    (id : Option Int) (publicAnswers own : Except Thrown (List JsObject)) : DetailPage :=
  if w.current checkpoint ∧ generation = w.historyGeneration ∧ id = w.id then
    { w with
      publicAnswers := publicAnswers.toOption.getD w.publicAnswers
      own := own.toOption.getD w.own
      historyError := historyFailed own (historyFailed publicAnswers "")
      log := w.log ++ [.shown key publicAnswers own] }
  else w

/-- the action of a `write` returns, or throws -/
def actionDone (w : DetailPage) (writing : Option Checkpoint) (error : Option Thrown) :
    DetailPage :=
  match writing with
  | none => w
  | some checkpoint => w.await (.written checkpoint error)

/-- the answer was judged -/
def judged (w : DetailPage) (key : Nat) (checkpoint : Checkpoint) (correct : Except Thrown Bool) :
    DetailPage :=
  match correct with
  | .error error => w.actionDone (some checkpoint) (some error)
  | .ok correct =>
    if w.current checkpoint then
      refreshHistory
        { w with
          state := { w.state with message := if correct then "正解" else "不正解" }
          submittedCorrectly := w.submittedCorrectly || correct
          answer := []
          log := w.log ++ [.judged key correct] } (some checkpoint)
    else w.actionDone (some checkpoint) none

/-- the `catch` and the `finally` of a `write` -/
def written (w : DetailPage) (checkpoint : Checkpoint) (error : Option Thrown) : DetailPage :=
  if w.current checkpoint then
    let w := match error with
      | none => w
      | some error => w.showError (errorMessage error)
    { w with state := { w.state with busy := false } }
  else w

/-! ## the events -/

/-- the continuation with a key, and the page without it -/
def resume (w : DetailPage) (key : Nat) : Option (Wait × DetailPage) :=
  (w.waiting.find? fun p => p.1 == key).map fun p =>
    (p.2, { w with waiting := w.waiting.filter fun p => decide (p.1 ≠ key) })

/-- one event; `none` for the completion of what is not awaited -/
def step (w : DetailPage) : DetailEvent → Option DetailPage
  | .loading id => some (w.loading id)
  | .refresh => some w.refresh
  | .refreshHistory => some (w.refreshHistory none)
  | .type answer => some { w with answer := answer, log := w.log ++ [.typed answer] }
  | .submit => some w.submit
  | .start token => some (w.changeSession (w.session.start token))
  | .clear notice => some (w.changeSession (w.session.clear notice))
  | .loaded key items users =>
    match w.resume key with
    | some (.load generation, w) => some (w.loaded generation items users)
    | _ => none
  | .loadFailed key error =>
    match w.resume key with
    | some (.load generation, w) => some (w.loadFailed generation error)
    | _ => none
  | .refreshed key =>
    match w.resume key with
    | some (.refreshed, w) => some w.refreshed
    | _ => none
  | .replied key publicAnswers own =>
    match w.resume key with
    | some (.history checkpoint generation id asked writing, w) =>
      some ((w.replied key checkpoint generation id publicAnswers
        (if asked then own else .ok [])).actionDone writing none)
    | _ => none
  | .judged key correct =>
    match w.resume key with
    | some (.answer checkpoint, w) => some (w.judged key checkpoint correct)
    | _ => none
  | .written key =>
    match w.resume key with
    | some (.written checkpoint error, w) => some (w.written checkpoint error)
    | _ => none

/-- nothing is private, and nothing is under way -/
structure Fresh (w : DetailPage) : Prop where
  own : w.own = []
  answer : w.answer = []
  publicAnswers : w.publicAnswers = []
  historyError : w.historyError = ""
  submittedCorrectly : w.submittedCorrectly = false
  waiting : w.waiting = []
  log : w.log = []

/-! ## the invariant -/

/-- what may be shown, by what was asked before -/
def Allowed (before : List DetailEntry) : DetailEntry → Prop
  | .shown key _ _ => ∃ version id, Since DetailEntry.supersedes (.asked key version id) before
  | .judged key _ =>
    ∃ version id answer, Since DetailEntry.leaves (.submitted key version id answer) before
  | _ => True

/-- a call of `refreshHistory` that is suspended -/
structure HistoryOk (w : DetailPage) (key : Nat) (checkpoint : Checkpoint) (generation : Nat) :
    Prop where
  lifetime : checkpoint.lifetime ≤ w.state.lifetime
  le : generation ≤ w.historyGeneration
  latest : w.current checkpoint → generation = w.historyGeneration →
    Since DetailEntry.supersedes (.asked key w.session.version w.id) w.log

/-- an answer that is under way -/
structure AnswerOk (w : DetailPage) (key : Nat) (checkpoint : Checkpoint) : Prop where
  lifetime : checkpoint.lifetime ≤ w.state.lifetime
  submitted : w.current checkpoint → ∃ answer, Since DetailEntry.leaves
    (.submitted key w.session.version w.id answer) w.log

/-- an answer to the challenge was sent in this session, and was judged correct -/
def JudgedCorrect (w : DetailPage) : Prop :=
  ∃ key answer, Since DetailEntry.leaves (.submitted key w.session.version w.id answer) w.log ∧
    DetailEntry.judged key true ∈ w.log

/-- answers of the user are shown: a reply had them, that was asked for in this session about this
challenge -/
def OwnShown (w : DetailPage) : Prop :=
  ∃ key publicReply, Since DetailEntry.leaves (.asked key w.session.version w.id) w.log ∧
    .shown key publicReply (.ok w.own) ∈ w.log

/-- answers of all are shown: a reply had them, that was asked for since the page was led to this
challenge -/
def PublicShown (w : DetailPage) : Prop :=
  ∃ key version ownReply, Since DetailEntry.leads (.asked key version w.id) w.log ∧
    .shown key (.ok w.publicAnswers) ownReply ∈ w.log

/-- an error is shown: it is what failed of the last reply, that was asked for since the page was
led to this challenge -/
def ErrorShown (w : DetailPage) : Prop :=
  ∃ key version publicReply ownReply, Since DetailEntry.leads (.asked key version w.id) w.log ∧
    Since DetailEntry.settles (.shown key publicReply ownReply) w.log ∧
    w.historyError = historyFailed ownReply (historyFailed publicReply "")

structure Good (w : DetailPage) : Prop where
  keys : ∀ e ∈ w.log, ∀ key, e.key = some key → key < w.next
  histories : ∀ key checkpoint generation id own writing,
    (key, Wait.history checkpoint generation id own writing) ∈ w.waiting →
    HistoryOk w key checkpoint generation
  answers : ∀ key checkpoint, (key, Wait.answer checkpoint) ∈ w.waiting → AnswerOk w key checkpoint
  own : w.own = [] ∨ w.OwnShown
  publicAnswers : w.publicAnswers = [] ∨ w.PublicShown
  historyError : w.historyError = "" ∨ w.ErrorShown
  typed : w.answer = [] ∨ Since DetailEntry.leaves (.typed w.answer) w.log
  judged : w.submittedCorrectly = true ↔ w.JudgedCorrect
  allowed : Every Allowed w.log

/-! ## what a step keeps -/

section
variable {w w' : DetailPage}

/-- the fields that the invariant is about -/
structure Alike (w w' : DetailPage) : Prop where
  session : w'.session = w.session
  id : w'.id = w.id
  lifetime : w'.state.lifetime = w.state.lifetime
  historyGeneration : w'.historyGeneration = w.historyGeneration
  answer : w'.answer = w.answer
  submittedCorrectly : w'.submittedCorrectly = w.submittedCorrectly
  log : w'.log = w.log

/-- what is shown stays, or is dropped -/
structure Drops (w w' : DetailPage) : Prop where
  own : w'.own = w.own ∨ w'.own = []
  publicAnswers : w'.publicAnswers = w.publicAnswers ∨ w'.publicAnswers = []
  historyError : w'.historyError = w.historyError ∨ w'.historyError = ""

theorem Drops.none (hown : w'.own = w.own) (hpublic : w'.publicAnswers = w.publicAnswers)
    (herror : w'.historyError = w.historyError) : Drops w w' :=
    ⟨.inl hown, .inl hpublic, .inl herror⟩

theorem Alike.current (h : Alike w w') (checkpoint : Checkpoint) :
    w'.current checkpoint ↔ w.current checkpoint := by
  unfold DetailPage.current DetailPage.checkpoint
  rw [h.session, h.lifetime]

/-- nothing private is shown or asked for; something may be dropped from what is shown, or from what
is suspended -/
theorem Good.quiet (h : w.Good) (ha : Alike w w') (hdrops : Drops w w')
    (hnext : w.next ≤ w'.next)
    (hwaiting : ∀ key wait, (key, wait) ∈ w'.waiting → (key, wait) ∈ w.waiting ∨
      ((∀ checkpoint generation id own writing, wait ≠ .history checkpoint generation id
        own writing) ∧
        ∀ checkpoint, wait ≠ .answer checkpoint)) : w'.Good where
  keys := by
    rw [ha.log]
    exact fun e he key hkey => Nat.lt_of_lt_of_le (h.keys e he key hkey) hnext
  histories := by
    intro key checkpoint generation id own writing hmem
    rcases hwaiting _ _ hmem with hmem | ⟨hno, -⟩
    · have hok := h.histories _ _ _ _ _ _ hmem
      refine ⟨by rw [ha.lifetime]; exact hok.lifetime, by rw [ha.historyGeneration]; exact hok.le, ?_⟩
      rw [ha.current, ha.historyGeneration, ha.session, ha.id, ha.log]
      exact hok.latest
    · exact absurd rfl (hno _ _ _ _ _)
  answers := by
    intro key checkpoint hmem
    rcases hwaiting _ _ hmem with hmem | ⟨-, hno⟩
    · have hok := h.answers _ _ hmem
      refine ⟨by rw [ha.lifetime]; exact hok.lifetime, ?_⟩
      rw [ha.current, ha.session, ha.id, ha.log]
      exact hok.submitted
    · exact absurd rfl (hno _)
  own := by
    unfold OwnShown
    rw [ha.session, ha.id, ha.log]
    rcases hdrops.own with hown | hown
    · rw [hown]
      exact h.own
    · exact .inl hown
  publicAnswers := by
    unfold PublicShown
    rw [ha.id, ha.log]
    rcases hdrops.publicAnswers with hpublic | hpublic
    · rw [hpublic]
      exact h.publicAnswers
    · exact .inl hpublic
  historyError := by
    unfold ErrorShown
    rw [ha.id, ha.log]
    rcases hdrops.historyError with herror | herror
    · rw [herror]
      exact h.historyError
    · exact .inl herror
  typed := by
    rw [ha.answer, ha.log]
    exact h.typed
  judged := by
    unfold JudgedCorrect
    rw [ha.submittedCorrectly, ha.session, ha.id, ha.log]
    exact h.judged
  allowed := by
    rw [ha.log]
    exact h.allowed

/-- the page is led somewhere else, or the session changes -/
theorem Good.leave {x : DetailEntry} (h : w.Good) (hlifetime : w.state.lifetime < w'.state.lifetime)
    (hlog : w'.log = w.log ++ [x]) (hx : x.leaves) (hown : w'.own = [])
    (hpublic : w'.publicAnswers = [] ∨ w'.PublicShown)
    (herror : w'.historyError = "" ∨ w'.ErrorShown) (hanswer : w'.answer = [])
    (hcorrect : w'.submittedCorrectly = false)
    (hnext : w'.next = w.next) (hwaiting : w'.waiting = w.waiting)
    (hgeneration : w.historyGeneration ≤ w'.historyGeneration) : w'.Good where
  keys := by
    rw [hlog, hnext]
    intro e he key hkey
    rcases List.mem_append.mp he with he | he
    · exact h.keys e he key hkey
    · rw [List.mem_singleton.mp he] at hkey
      cases x with
      | led => cases hkey
      | left => cases hkey
      | _ => exact hx.elim
  histories := by
    rw [hwaiting]
    intro key checkpoint generation id own writing hmem
    have hok := h.histories _ _ _ _ _ _ hmem
    refine ⟨Nat.le_trans hok.lifetime (Nat.le_of_lt hlifetime), Nat.le_trans hok.le hgeneration,
      fun hcur => ?_⟩
    have heq : checkpoint.lifetime = w'.state.lifetime := congrArg Checkpoint.lifetime hcur
    have hle := hok.lifetime
    omega
  answers := by
    rw [hwaiting]
    intro key checkpoint hmem
    have hok := h.answers _ _ hmem
    refine ⟨Nat.le_trans hok.lifetime (Nat.le_of_lt hlifetime), fun hcur => ?_⟩
    have heq : checkpoint.lifetime = w'.state.lifetime := congrArg Checkpoint.lifetime hcur
    have hle := hok.lifetime
    omega
  own := .inl hown
  publicAnswers := hpublic
  historyError := herror
  typed := .inl hanswer
  judged := by
    rw [hcorrect]
    refine ⟨fun h => absurd h Bool.false_ne_true, ?_⟩
    rintro ⟨key, answer, hsince, -⟩
    rw [hlog] at hsince
    refine absurd hsince (not_since ?_ hx)
    rintro rfl
    cases hx
  allowed := by
    rw [hlog]
    refine every_snoc.mpr ⟨h.allowed, ?_⟩
    cases x <;> first | exact trivial | cases hx

/-- the fields that the calls that are suspended depend on -/
structure Steady (w w' : DetailPage) : Prop where
  session : w'.session = w.session
  id : w'.id = w.id
  lifetime : w'.state.lifetime = w.state.lifetime

theorem Steady.current (h : Steady w w') (checkpoint : Checkpoint) :
    w'.current checkpoint ↔ w.current checkpoint := by
  unfold DetailPage.current DetailPage.checkpoint
  rw [h.session, h.lifetime]

theorem AnswerOk.append {x : DetailEntry} {key : Nat} {checkpoint : Checkpoint}
    (h : AnswerOk w key checkpoint)
    (hs : Steady w w') (hlog : w'.log = w.log ++ [x]) (hx : ¬ x.leaves) :
    AnswerOk w' key checkpoint where
  lifetime := by
    rw [hs.lifetime]
    exact h.lifetime
  submitted := by
    rw [hs.current, hs.session, hs.id, hlog]
    intro hcur
    obtain ⟨answer, hsince⟩ := h.submitted hcur
    exact ⟨answer, since_snoc.mpr (.inr ⟨hsince, hx⟩)⟩

theorem HistoryOk.append {x : DetailEntry} {key generation : Nat} {checkpoint : Checkpoint}
    (h : HistoryOk w key checkpoint generation) (hs : Steady w w')
    (hgeneration : w'.historyGeneration = w.historyGeneration)
    (hlog : w'.log = w.log ++ [x]) (hx : ¬ x.supersedes) :
    HistoryOk w' key checkpoint generation where
  lifetime := by
    rw [hs.lifetime]
    exact h.lifetime
  le := by
    rw [hgeneration]
    exact h.le
  latest := by
    rw [hs.current, hs.session, hs.id, hgeneration, hlog]
    exact fun hcur heq => since_snoc.mpr (.inr ⟨h.latest hcur heq, hx⟩)

/-- entries about other things leave the judgement as it is -/
theorem JudgedCorrect.append {x : DetailEntry} (hs : Steady w w') (hlog : w'.log = w.log ++ [x])
    (hx : ¬ x.leaves)
    (hsubmitted : ∀ key version id answer, x ≠ .submitted key version id answer)
    (hjudged : ∀ key, x ≠ .judged key true) :
    w'.JudgedCorrect ↔ w.JudgedCorrect := by
  unfold JudgedCorrect
  rw [hs.session, hs.id, hlog]
  constructor
  · rintro ⟨key, answer, hsince, hmem⟩
    rw [since_quiet (hsubmitted _ _ _ _).symm hx] at hsince
    refine ⟨key, answer, hsince, (List.mem_append.mp hmem).resolve_right fun h => ?_⟩
    exact hjudged key (List.mem_singleton.mp h).symm
  · rintro ⟨key, answer, hsince, hmem⟩
    exact ⟨key, answer, since_snoc.mpr (.inr ⟨hsince, hx⟩), List.mem_append_left _ hmem⟩

theorem not_leads {x : DetailEntry} (hx : ¬ x.leaves) : ¬ x.leads := by
  intro h
  cases x <;> first | exact hx trivial | cases h

theorem PublicShown.append {x : DetailEntry} (h : w.PublicShown) (hid : w'.id = w.id)
    (hpublic : w'.publicAnswers = w.publicAnswers) (hlog : w'.log = w.log ++ [x]) (hx : ¬ x.leads) :
    w'.PublicShown := by
  obtain ⟨key, version, reply, hsince, hmem⟩ := h
  refine ⟨key, version, reply, ?_, ?_⟩
  · rw [hid, hlog]
    exact since_snoc.mpr (.inr ⟨hsince, hx⟩)
  · rw [hpublic, hlog]
    exact List.mem_append_left _ hmem

theorem ErrorShown.append {x : DetailEntry} (h : w.ErrorShown) (hid : w'.id = w.id)
    (herror : w'.historyError = w.historyError) (hlog : w'.log = w.log ++ [x]) (hx : ¬ x.leads)
    (hsettles : ¬ x.settles) :
    w'.ErrorShown := by
  obtain ⟨key, version, publicReply, ownReply, hsince, hlast, heq⟩ := h
  refine ⟨key, version, publicReply, ownReply, ?_, ?_, herror.trans heq⟩
  · rw [hid, hlog]
    exact since_snoc.mpr (.inr ⟨hsince, hx⟩)
  · rw [hlog]
    exact since_snoc.mpr (.inr ⟨hlast, hsettles⟩)

/-- entries about other things leave what is shown as it is -/
theorem Good.shown_append {x : DetailEntry} (h : w.Good) (hs : Steady w w') (hown : w'.own = w.own)
    (hpublic : w'.publicAnswers = w.publicAnswers) (herror : w'.historyError = w.historyError)
    (hlog : w'.log = w.log ++ [x]) (hx : ¬ x.leaves) (hsettles : ¬ x.settles) :
    (w'.own = [] ∨ w'.OwnShown) ∧ (w'.publicAnswers = [] ∨ w'.PublicShown) ∧
    (w'.historyError = "" ∨ w'.ErrorShown) := by
  refine ⟨?_, ?_, ?_⟩
  · rw [hown]
    refine h.own.imp_right ?_
    rintro ⟨key, reply, hsince, hmem⟩
    refine ⟨key, reply, ?_, ?_⟩
    · rw [hs.session, hs.id, hlog]
      exact since_snoc.mpr (.inr ⟨hsince, hx⟩)
    · rw [hown, hlog]
      exact List.mem_append_left _ hmem
  · rw [hpublic]
    exact h.publicAnswers.imp_right fun hp => hp.append hs.id hpublic hlog (not_leads hx)
  · rw [herror]
    exact h.historyError.imp_right fun he => he.append hs.id herror hlog (not_leads hx) hsettles

theorem keys_append {x : DetailEntry} {next : Nat} (h : w.Good) (hnext : w.next ≤ next)
    (hx : ∀ key, x.key = some key → key < next) :
    ∀ e ∈ w.log ++ [x], ∀ key, e.key = some key → key < next := by
  intro e he key hkey
  rcases List.mem_append.mp he with he | he
  · exact Nat.lt_of_lt_of_le (h.keys e he key hkey) hnext
  · rw [List.mem_singleton.mp he] at hkey
    exact hx key hkey

/-- something is typed -/
theorem Good.type (h : w.Good) (answer : JsString) :
    Good { w with answer := answer, log := w.log ++ [.typed answer] } := by
  have hs : Steady w { w with answer := answer, log := w.log ++ [.typed answer] } := ⟨rfl, rfl, rfl⟩
  have hx : ¬ (DetailEntry.typed answer).supersedes := fun h => h
  have hl : ¬ (DetailEntry.typed answer).leaves := fun h => h
  obtain ⟨hown, hpublic, herror⟩ := h.shown_append hs rfl rfl rfl rfl hl fun h => h
  refine ⟨?_, ?_, ?_, hown, hpublic, herror, ?_, ?_, ?_⟩
  · exact keys_append h (Nat.le_refl _) fun _ hkey => nomatch hkey
  · exact fun _ _ _ _ _ _ hmem => (h.histories _ _ _ _ _ _ hmem).append hs rfl rfl hx
  · exact fun _ _ hmem => (h.answers _ _ hmem).append hs rfl hl
  · exact .inr (since_snoc.mpr (.inl rfl))
  · exact h.judged.trans (JudgedCorrect.append hs rfl hl (fun _ _ _ _ h => nomatch h) fun _ h =>
      nomatch h).symm
  · exact every_snoc.mpr ⟨h.allowed, trivial⟩

/-- **`refreshHistory` asks**; what was asked before is superseded -/
theorem Good.refreshHistory (h : w.Good) (writing : Option Checkpoint) :
    (w.refreshHistory writing).Good := by
  have hlog : (w.refreshHistory writing).log = w.log ++ [.asked w.next w.session.version w.id] :=
    rfl
  have hs : Steady w (w.refreshHistory writing) := ⟨rfl, rfl, rfl⟩
  have hl : ¬ (DetailEntry.asked w.next w.session.version w.id).leaves := fun h => h
  obtain ⟨hown, hpublic, herror⟩ := h.shown_append hs rfl rfl rfl hlog hl fun h => h
  refine ⟨?_, ?_, ?_, hown, hpublic, herror, ?_, ?_, ?_⟩
  · rw [hlog]
    refine keys_append h (Nat.le_succ _) fun key hkey => ?_
    cases hkey
    exact Nat.lt_succ_self _
  · intro key checkpoint generation id own writing' hmem
    rcases List.mem_cons.mp hmem with heq | hmem
    · cases heq
      exact ⟨Nat.le_refl _, Nat.le_refl _, fun _ _ => since_snoc.mpr (.inl rfl)⟩
    · have hok := h.histories _ _ _ _ _ _ hmem
      refine ⟨hok.lifetime, Nat.le_succ_of_le hok.le, fun _ heq => ?_⟩
      have heq : generation = w.historyGeneration + 1 := heq
      have hle := hok.le
      omega
  · intro key checkpoint hmem
    rcases List.mem_cons.mp hmem with heq | hmem
    · cases heq
    · exact (h.answers _ _ hmem).append hs hlog hl
  · exact h.typed.imp_right fun hsince => since_snoc.mpr (.inr ⟨hsince, hl⟩)
  · exact h.judged.trans (JudgedCorrect.append hs hlog hl (fun _ _ _ _ h => nomatch h) fun _ h =>
      nomatch h).symm
  · rw [hlog]
    exact every_snoc.mpr ⟨h.allowed, trivial⟩

/-- what is cut by more is cut by less -/
theorem since_leaves {x : DetailEntry} {log : List DetailEntry}
    (h : Since DetailEntry.supersedes x log) :
    Since DetailEntry.leaves x log ∧ Since DetailEntry.leads x log := by
  have hleaves : ∀ e : DetailEntry, e.leaves → e.supersedes := by
    intro e he
    cases e <;> first | exact trivial | exact he
  have hleads : ∀ e : DetailEntry, e.leads → e.supersedes := by
    intro e he
    cases e <;> first | exact trivial | exact he
  obtain ⟨a, b, rfl, hb⟩ := h
  exact ⟨⟨a, b, rfl, fun y hy hy' => hb y hy (hleaves y hy')⟩,
    ⟨a, b, rfl, fun y hy hy' => hb y hy (hleads y hy')⟩⟩

/-- the continuation is resumed; nothing else is touched -/
theorem Good.resumed (h : w.Good) {key : Nat} {wait : Wait} (hr : w.resume key = some (wait, w')) :
    w'.Good ∧ (key, wait) ∈ w.waiting ∧ Steady w w' ∧ w'.log = w.log ∧ w'.historyGeneration =
    w.historyGeneration := by
  unfold resume at hr
  obtain ⟨p, hp, heq⟩ := Option.map_eq_some_iff.mp hr
  obtain ⟨rfl, rfl⟩ := Prod.mk.inj heq
  have hkey : p.1 = key := by simpa using List.find?_some hp
  refine ⟨?_, ?_, ⟨rfl, rfl, rfl⟩, rfl, rfl⟩
  · exact h.quiet ⟨rfl, rfl, rfl, rfl, rfl, rfl, rfl⟩ (.none rfl rfl rfl) (Nat.le_refl _)
      fun _ _ hm =>
      .inl (List.mem_of_mem_filter hm)
  · rw [← hkey]
    exact List.mem_of_find?_eq_some hp

/-- **A reply is shown** only if it was asked for last, since the page came to this challenge in
this session. -/
theorem Good.replied (h : w.Good) {key generation : Nat} {checkpoint : Checkpoint} {id : Option Int}
    (hok : HistoryOk w key checkpoint generation)
    (publicReply ownReply : Except Thrown (List JsObject)) :
    (w.replied key checkpoint generation id publicReply ownReply).Good := by
  unfold DetailPage.replied
  split
  · next hcond =>
    have hlatest := hok.latest hcond.1 hcond.2.1
    obtain ⟨hleaves, hleads⟩ := since_leaves hlatest
    have hl : ¬ (DetailEntry.shown key publicReply ownReply).leaves := fun h => h
    have hs : ∀ {p o : List JsObject} {r : String}, Steady w { w with
        publicAnswers := p, own := o, historyError := r, log :=
        w.log ++ [.shown key publicReply ownReply] } :=
      ⟨rfl, rfl, rfl⟩
    refine ⟨?_, ?_, ?_, ?_, ?_, ?_, ?_, ?_, ?_⟩
    · refine keys_append h (Nat.le_refl _) fun k hk => ?_
      cases hk
      exact h.keys _ hlatest.mem _ rfl
    · exact fun _ _ _ _ _ _ hm => (h.histories _ _ _ _ _ _ hm).append hs rfl rfl fun h => h
    · exact fun _ _ hm => (h.answers _ _ hm).append hs rfl hl
    · cases ownReply with
      | error error =>
        refine h.own.imp_right ?_
        rintro ⟨k, reply, hsince, hm⟩
        exact ⟨k, reply, since_snoc.mpr (.inr ⟨hsince, hl⟩), List.mem_append_left _ hm⟩
      | ok items =>
        exact .inr ⟨key, publicReply, since_snoc.mpr (.inr ⟨hleaves, hl⟩), List.mem_append_right _
          (List.mem_singleton.mpr rfl)⟩
    · cases publicReply with
      | error error => exact h.publicAnswers.imp_right fun hp => hp.append rfl rfl rfl fun h => h
      | ok items =>
        exact .inr ⟨key, _, ownReply, since_snoc.mpr (.inr ⟨hleads, fun h => h⟩),
          List.mem_append_right _ (List.mem_singleton.mpr rfl)⟩
    · exact .inr ⟨key, _, publicReply, ownReply, since_snoc.mpr (.inr ⟨hleads, fun h => h⟩),
        since_snoc.mpr (.inl rfl), rfl⟩
    · exact h.typed.imp_right fun hsince => since_snoc.mpr (.inr ⟨hsince, hl⟩)
    · exact h.judged.trans (JudgedCorrect.append hs rfl hl (fun _ _ _ _ h => nomatch h) fun _ h =>
        nomatch h).symm
    · exact every_snoc.mpr ⟨h.allowed, _, _, hlatest⟩
  · exact h

/-- a continuation that the invariant says nothing about -/
theorem Good.await (h : w.Good) {wait : Wait}
    (hhistory : ∀ checkpoint generation id own writing, wait ≠ .history checkpoint generation
      id own writing)
    (hanswer : ∀ checkpoint, wait ≠ .answer checkpoint) : (w.await wait).Good := by
  refine h.quiet ⟨rfl, rfl, rfl, rfl, rfl, rfl, rfl⟩ (.none rfl rfl rfl) (Nat.le_succ _)
    fun key wait' hm => ?_
  rcases List.mem_cons.mp hm with heq | hm
  · cases heq
    exact .inr ⟨hhistory, hanswer⟩
  · exact .inl hm

/-- what is shown of the state of the page does not matter -/
theorem Good.display (h : w.Good) {state : PageState}
    (hlifetime : state.lifetime = w.state.lifetime) :
    Good { w with state := state } :=
  h.quiet ⟨rfl, rfl, hlifetime, rfl, rfl, rfl, rfl⟩ (.none rfl rfl rfl) (Nat.le_refl _)
    fun _ _ hm => .inl hm

theorem Good.refresh (h : w.Good) : w.refresh.Good := by
  have hclear : Good { w with
      challenge := none, users := [], own := [], publicAnswers := [], historyError := "" } :=
    h.quiet ⟨rfl, rfl, rfl, rfl, rfl, rfl, rfl⟩ ⟨.inr rfl, .inr rfl, .inr rfl⟩ (Nat.le_refl _)
      fun _ _ hm => .inl hm
  unfold DetailPage.refresh
  dsimp only
  split
  · exact hclear.display rfl
  · have hread : Good { w with
        challenge := none, users := [], own := [], publicAnswers := [], historyError := "", state :=
          w.state.beginRead } :=
      hclear.display rfl
    exact hread.await (fun _ _ _ _ _ h => nomatch h) fun _ h => nomatch h

/-- **The page is led to another challenge.** -/
theorem Good.loading (h : w.Good) (id : Option Int) : (w.loading id).Good := by
  -- `refresh` drops what is shown of the challenge before
  have hled : Good { clearPrivate { w with state := w.state.reset } with
      id := id, publicAnswers := [], historyError := "", log := w.log ++ [.led] } :=
    h.leave (Nat.lt_succ_self _) rfl trivial rfl (.inl rfl) (.inl rfl) rfl rfl rfl rfl
      (Nat.le_succ _)
  exact hled.refresh

/-- **The session changes.** -/
theorem Good.changeSession (h : w.Good) (session : SessionService) :
    (w.changeSession session).Good := by
  have hleave : Good (clearPrivate { w with session := session, state := w.state.reset, log :=
    w.log ++ [.left] }) :=
    h.leave (Nat.lt_succ_self _) rfl trivial rfl
      (h.publicAnswers.imp_right fun hp => hp.append rfl rfl rfl fun h => h)
      (h.historyError.imp_right fun he => he.append rfl rfl rfl (fun h => h) fun h => h) rfl rfl rfl
      rfl (Nat.le_succ _)
  unfold DetailPage.changeSession
  dsimp only
  split
  · exact hleave
  · exact hleave.display rfl

theorem Good.actionDone (h : w.Good) (writing : Option Checkpoint) (error : Option Thrown) :
    (w.actionDone writing error).Good := by
  cases writing with
  | none => exact h
  | some checkpoint => exact h.await (fun _ _ _ _ _ h => nomatch h) fun _ h => nomatch h

/-- **An answer is sent.** -/
theorem Good.submit (h : w.Good) : w.submit.Good := by
  unfold DetailPage.submit
  split
  · split
    · exact h.display rfl
    · split
      · exact h
      · have hl : ¬ (DetailEntry.submitted w.next w.session.version w.id w.answer).leaves :=
          fun h => h
        have hx : ¬ (DetailEntry.submitted w.next w.session.version w.id w.answer).supersedes :=
          fun h => h
        have hs : ∀ {waiting : List (Nat × Wait)} {next : Nat}, Steady w { w with
            state := w.state.beginWrite, log :=
            w.log ++ [.submitted w.next w.session.version w.id w.answer],
            waiting := waiting, next := next } := ⟨rfl, rfl, rfl⟩
        obtain ⟨hown, hpublic, herror⟩ := h.shown_append hs rfl rfl rfl rfl hl fun h => h
        refine ⟨?_, ?_, ?_, hown, hpublic, herror, ?_, ?_, ?_⟩
        · refine keys_append h (Nat.le_succ _) fun key hkey => ?_
          cases hkey
          exact Nat.lt_succ_self _
        · intro key checkpoint generation id own writing hm
          rcases List.mem_cons.mp hm with heq | hm
          · cases heq
          · exact (h.histories _ _ _ _ _ _ hm).append hs rfl rfl hx
        · intro key checkpoint hm
          rcases List.mem_cons.mp hm with heq | hm
          · cases heq
            exact ⟨Nat.le_refl _, fun _ => ⟨w.answer, since_snoc.mpr (.inl rfl)⟩⟩
          · exact (h.answers _ _ hm).append hs rfl hl
        · exact h.typed.imp_right fun hsince => since_snoc.mpr (.inr ⟨hsince, hl⟩)
        · -- the new call is not judged yet
          refine h.judged.trans ⟨?_, ?_⟩
          · rintro ⟨key, answer, hsince, hmem⟩
            exact ⟨key, answer, since_snoc.mpr (.inr ⟨hsince, hl⟩), List.mem_append_left _ hmem⟩
          · rintro ⟨key, answer, hsince, hmem⟩
            have hmem : DetailEntry.judged key true ∈ w.log :=
              (List.mem_append.mp hmem).resolve_right fun hm => nomatch List.mem_singleton.mp hm
            rcases since_snoc.mp hsince with heq | ⟨hsince, -⟩
            · cases heq
              exact absurd (h.keys _ hmem _ rfl) (Nat.lt_irrefl _)
            · exact ⟨key, answer, hsince, hmem⟩
        · exact every_snoc.mpr ⟨h.allowed, trivial⟩
  · exact h

/-- **A judgement is taken** only if the answer was sent since the page came to this challenge in
this session. -/
theorem Good.judgement (h : w.Good) {key : Nat} {checkpoint : Checkpoint}
    (hok : AnswerOk w key checkpoint)
    (correct : Except Thrown Bool) : (DetailPage.judged w key checkpoint correct).Good := by
  unfold DetailPage.judged
  cases correct with
  | error error => exact h.actionDone _ _
  | ok correct =>
    dsimp only
    split
    · next hcur =>
      obtain ⟨answer, hsubmitted⟩ := hok.submitted hcur
      have hl : ¬ (DetailEntry.judged key correct).leaves := fun h => h
      have hx : ¬ (DetailEntry.judged key correct).supersedes := fun h => h
      have hs : ∀ {message : String} {b : Bool}, Steady w { w with
          state := { w.state with message := message }, submittedCorrectly := b, answer := [],
          log := w.log ++ [.judged key correct] } := ⟨rfl, rfl, rfl⟩
      obtain ⟨hown, hpublic, herror⟩ := h.shown_append hs rfl rfl rfl rfl hl fun h => h
      refine Good.refreshHistory ⟨?_, ?_, ?_, hown, hpublic, herror, ?_, ?_, ?_⟩ _
      · refine keys_append h (Nat.le_refl _) fun k hk => ?_
        cases hk
        exact h.keys _ hsubmitted.mem _ rfl
      · exact fun _ _ _ _ _ _ hm => (h.histories _ _ _ _ _ _ hm).append hs rfl rfl hx
      · exact fun _ _ hm => (h.answers _ _ hm).append hs rfl hl
      · exact .inl rfl
      · cases correct with
        | false =>
          have hs : Steady w { w with
              state := { w.state with message := "不正解" }, submittedCorrectly :=
              w.submittedCorrectly, answer := [],
              log := w.log ++ [.judged key false] } := ⟨rfl, rfl, rfl⟩
          have hjudged := JudgedCorrect.append hs rfl hl (fun _ _ _ _ h => nomatch h)
            fun _ h => nomatch h
          dsimp only [JudgedCorrect] at hjudged ⊢
          rw [Bool.or_false]
          exact h.judged.trans hjudged.symm
        | true =>
          rw [Bool.or_true]
          refine ⟨fun _ => ?_, fun _ => rfl⟩
          exact ⟨key, answer, since_snoc.mpr (.inr ⟨hsubmitted, hl⟩), List.mem_append_right _
            (List.mem_singleton.mpr rfl)⟩
      · exact every_snoc.mpr ⟨h.allowed, _, _, _, hsubmitted⟩
    · exact h.actionDone _ _

theorem Good.loaded (h : w.Good) (generation : Nat) (items users : List JsObject) :
    (w.loaded generation items users).Good := by
  unfold DetailPage.loaded
  refine Good.await (Good.display ?_ ?_) (fun _ _ _ _ _ h => nomatch h) fun _ h => nomatch h
  · split
    · have hput : ∀ challenge : Option JsObject, Good { w with challenge := challenge, users :=
        users } := fun challenge =>
        h.quiet ⟨rfl, rfl, rfl, rfl, rfl, rfl, rfl⟩ (.none rfl rfl rfl) (Nat.le_refl _)
          fun _ _ hm => .inl hm
      dsimp only
      split
      · exact (hput _).display rfl
      · exact hput _
    · exact h
  · exact PageState.finallyRead_lifetime _ _

theorem Good.loadFailed (h : w.Good) (generation : Nat) (error : Thrown) :
    (w.loadFailed generation error).Good := by
  unfold DetailPage.loadFailed
  refine Good.await (h.display ?_) (fun _ _ _ _ _ h => nomatch h) fun _ h => nomatch h
  rw [PageState.finallyRead_lifetime]
  unfold PageState.catchRead
  split <;> rfl

theorem Good.written (h : w.Good) (checkpoint : Checkpoint) (error : Option Thrown) :
    (w.written checkpoint error).Good := by
  unfold DetailPage.written
  split
  · cases error with
    | none => exact h.display rfl
    | some error =>
      have hshow : Good (w.showError (errorMessage error)) := h.display rfl
      exact hshow.display rfl
  · exact h

/-- **One event keeps the invariant.** -/
theorem Good.step {event : DetailEvent} (h : w.Good) (hstep : w.step event = some w') :
    w'.Good := by
  cases event with
  | loading id => cases hstep; exact h.loading id
  | refresh => cases hstep; exact h.refresh
  | refreshHistory => cases hstep; exact h.refreshHistory none
  | type answer => cases hstep; exact h.type answer
  | submit => cases hstep; exact h.submit
  | start token => cases hstep; exact h.changeSession _
  | clear notice => cases hstep; exact h.changeSession _
  | loaded key items users =>
    unfold DetailPage.step at hstep
    dsimp only at hstep
    split at hstep
    · next generation v hr =>
      cases hstep
      exact (h.resumed hr).1.loaded generation items users
    · cases hstep
  | loadFailed key error =>
    unfold DetailPage.step at hstep
    dsimp only at hstep
    split at hstep
    · next generation v hr =>
      cases hstep
      exact (h.resumed hr).1.loadFailed generation error
    · cases hstep
  | refreshed key =>
    unfold DetailPage.step at hstep
    dsimp only at hstep
    split at hstep
    · next v hr =>
      cases hstep
      have hgood := (h.resumed hr).1
      unfold DetailPage.refreshed
      split
      · exact hgood.refreshHistory none
      · exact hgood
    · cases hstep
  | replied key publicAnswers own =>
    unfold DetailPage.step at hstep
    dsimp only at hstep
    split at hstep
    · next checkpoint generation id asked writing v hr =>
      cases hstep
      obtain ⟨hgood, hmem, hs, hlog, hgeneration⟩ := h.resumed hr
      have hok := h.histories _ _ _ _ _ _ hmem
      refine Good.actionDone (hgood.replied ⟨?_, ?_, ?_⟩ _ _) _ _
      · rw [hs.lifetime]
        exact hok.lifetime
      · rw [hgeneration]
        exact hok.le
      · rw [hs.current, hs.session, hs.id, hlog, hgeneration]
        exact hok.latest
    · cases hstep
  | judged key correct =>
    unfold DetailPage.step at hstep
    dsimp only at hstep
    split at hstep
    · next checkpoint v hr =>
      cases hstep
      obtain ⟨hgood, hmem, hs, hlog, -⟩ := h.resumed hr
      have hok := h.answers _ _ hmem
      refine hgood.judgement ⟨?_, ?_⟩ correct
      · rw [hs.lifetime]
        exact hok.lifetime
      · rw [hs.current, hs.session, hs.id, hlog]
        exact hok.submitted
    · cases hstep
  | written key =>
    unfold DetailPage.step at hstep
    dsimp only at hstep
    split at hstep
    · next checkpoint error v hr =>
      cases hstep
      exact (h.resumed hr).1.written checkpoint error
    · cases hstep

theorem Fresh.good (h : w.Fresh) : w.Good := by
  obtain ⟨hown, hanswer, hpublic, herror, hcorrect, hwaiting, hlog⟩ := h
  refine ⟨?_, ?_, ?_, .inl hown, .inl hpublic, .inl herror, .inl hanswer, ?_, ?_⟩
  · rw [hlog]
    exact fun _ he => nomatch he
  · rw [hwaiting]
    exact fun _ _ _ _ _ _ hm => nomatch hm
  · rw [hwaiting]
    exact fun _ _ hm => nomatch hm
  · unfold JudgedCorrect
    rw [hcorrect, hlog]
    refine ⟨fun h => absurd h Bool.false_ne_true, ?_⟩
    rintro ⟨_, _, -, hm⟩
    cases hm
  · rw [hlog]
    exact every_nil

end

end DetailPage

/-! ## the runs -/

open DetailPage (Allowed JudgedCorrect OwnShown PublicShown ErrorShown solution)

/-- **The page shows what was asked in this session about this challenge.** In every run of a bound
page, its calls completed in any order: a reply to `refreshHistory` is shown, and a judgement is
taken, only if nothing has superseded the call; the answers of the user that are shown were asked
for in the session of now, about the challenge of now; the answers of all, and an error in their
place, came with a reply about the challenge of now, the error with the last one; the text in the
field was typed there; and the page says that the challenge is solved exactly if the user is logged
in and, since the page came here, an answer of this session was judged correct, or a correct one is
among the answers that are shown. -/
theorem detail_private (w0 w : DetailPage) (events : List DetailEvent) (h0 : w0.Fresh)
    (hrun : run DetailPage.step w0 events = some w) :
    Every Allowed w.log ∧
    (w.own = [] ∨ w.OwnShown) ∧ (w.publicAnswers = [] ∨ w.PublicShown) ∧
    (w.historyError = "" ∨ w.ErrorShown) ∧
    (w.answer = [] ∨ Since DetailEntry.leaves (.typed w.answer) w.log) ∧
    (w.solved = true ↔ w.session.authenticated = true ∧
      (w.JudgedCorrect ∨ ∃ item ∈ w.own, solution w.id item = true)) := by
  have h := run_invariant (fun _ _ _ h1 h2 => DetailPage.Good.step h1 h2) h0.good hrun
  refine ⟨h.allowed, h.own, h.publicAnswers, h.historyError, h.typed, ?_⟩
  rw [← h.judged]
  unfold DetailPage.solved
  rw [Bool.and_eq_true, Bool.or_eq_true, List.any_eq_true]

/-- an answer is judged while the history is asked for; the last reply fails in part -/
def detailRun : List DetailEvent :=
  [.start "t", .loading (some 1), .loaded 0 [[(js "id", .number 1)]] [], .type (js "a"),
    .refreshed 1, .submit,
    .judged 3 (.ok true), .replied 2 (.ok []) (.ok []), .replied 4 (.ok [[(js "id", .number 7)]])
    (.error .other)]

theorem detail_private_sample :
    (({} : DetailPage).Fresh ∧ ∃ w, run DetailPage.step {} detailRun = some w ∧
      w.solved = true ∧ w.publicAnswers.length = 1 ∧ w.historyError = errorMessage .other) ∧
    ∀ w, run DetailPage.step {} detailRun = some w → Every Allowed w.log ∧
      (w.publicAnswers = [] ∨ w.PublicShown) ∧ (w.historyError = "" ∨ w.ErrorShown) :=
  ⟨⟨⟨rfl, rfl, rfl, rfl, rfl, rfl, rfl⟩, _, rfl, rfl, rfl, rfl⟩, fun w hrun =>
    have h := detail_private {} w _ ⟨rfl, rfl, rfl, rfl, rfl, rfl, rfl⟩ hrun
    ⟨h.1, h.2.2.1, h.2.2.2.1⟩⟩

end Client
