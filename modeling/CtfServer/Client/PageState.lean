import CtfServer.Client.Session

/-!
# The state of a page

`PageState` (page-state.ts), bound to the session.  Reads and writes are suspended at one `await`
each, and their completions come in any order; `apply` runs between a load and the end of its read.
A log keeps what was done.

* `PageState`, `ReadCall`, `WriteCall`   the fields, and the calls that are suspended;
* `Page.step`            one event;
* `Latest`, `Lifetime`   the latest read that nothing cancelled; a write of the current lifetime;
* `Page.Good`            the invariant: the counters tell which calls these are;
* `pageState_consistent`  **stale completions are ignored, `pending` and `busy` are right**.
-/

set_option linter.unusedVariables false
set_option linter.unusedSimpArgs false

namespace Client

open Runs (run run_invariant Every every_nil every_snoc Since since_snoc since_quiet not_since)

/-! ## the fields -/

structure PageState where
  busy : Bool := false
  pending : Bool := false
  error : String := ""
  message : String := ""
  generation : Nat := 0
  lifetime : Nat := 0
  deriving DecidableEq, Repr

namespace PageState

def reset (page : PageState) : PageState :=
  { generation := page.generation + 1, lifetime := page.lifetime + 1, pending := false, busy :=
    false, error := "",
    message := "" }

/-- the listener of `binding`; `clearPrivate` touches none of these fields but `message`, which
`reset` has cleared -/
def sessionChanged (page : PageState) (session : SessionService) : PageState :=
  let page := page.reset
  if session.authenticated then page else { page with error := "ログインしてください。" }

/-- `read` up to its `await` -/
def beginRead (page : PageState) : PageState :=
  { page with generation := page.generation + 1, pending := true, error := "" }

/-- the `catch` of `read` -/
def catchRead (page : PageState) (generation : Nat) (error : Thrown) : PageState :=
  if generation = page.generation then { page with error := errorMessage error } else page

/-- the `finally` of `read` -/
def finallyRead (page : PageState) (generation : Nat) : PageState :=
  if generation = page.generation then { page with pending := false } else page

@[simp] theorem finallyRead_generation (page : PageState) (generation : Nat) :
    (page.finallyRead generation).generation = page.generation := by
  unfold finallyRead
  split <;> rfl

@[simp] theorem finallyRead_lifetime (page : PageState) (generation : Nat) :
    (page.finallyRead generation).lifetime = page.lifetime := by
  unfold finallyRead
  split <;> rfl

@[simp] theorem finallyRead_busy (page : PageState) (generation : Nat) :
    (page.finallyRead generation).busy = page.busy := by
  unfold finallyRead
  split <;> rfl

/-- `write` up to its `await`, where it is not busy -/
def beginWrite (page : PageState) : PageState :=
  { page with busy := true, error := "", message := "" }

end PageState

/-! ## the calls -/

/-- a read behind its `await`; `applying` while `apply` runs -/
structure ReadCall where
  id : Nat
  generation : Nat
  applying : Bool := false

/-- a write behind its `await`, with its checkpoint -/
structure WriteCall where
  id : Nat
  lifetime : Nat
  version : Nat

/-- what was done -/
inductive PageEntry where
  | read (id : Nat)
  /-- `apply` is called with the result of the read -/
  | applied (id : Nat)
  /-- the error of the read is shown -/
  | showed (id : Nat)
  /-- the read ends -/
  | done (id : Nat)
  /-- the action of the write is run -/
  | ran (id : Nat)
  /-- the write ends -/
  | settled (id : Nat)
  | reset
  | changed

namespace PageEntry

/-- a read that began before is not the latest one, or is cancelled -/
def cancels : PageEntry → Prop
  | read _ | reset | changed => True
  | _ => False

/-- the lifetime ends -/
def ends : PageEntry → Prop
  | reset | changed => True
  | _ => False

/-- the call that an entry is about -/
def call : PageEntry → Option Nat
  | read id | applied id | showed id | done id | ran id | settled id => some id
  | _ => none

end PageEntry

/-- the latest read; no reset and no session change came since it began -/
def Latest (id : Nat) (log : List PageEntry) : Prop := Since PageEntry.cancels (.read id) log

/-- the action of the write was run in the current lifetime and session -/
def Lifetime (id : Nat) (log : List PageEntry) : Prop := Since PageEntry.ends (.ran id) log

/-- a page that is bound, and the session -/
structure Page where
  session : SessionService := {}
  state : PageState := {}
  reads : List ReadCall := []
  writes : List WriteCall := []
  next : Nat := 0
  log : List PageEntry := []

inductive PageEvent where
  | read
  | loaded (id : Nat)
  | loadFailed (id : Nat) (error : Thrown)
  | applyReturned (id : Nat)
  | applyThrew (id : Nat) (error : Thrown)
  | write
  | actionDone (id : Nat)
  | actionFailed (id : Nat) (error : Thrown)
  | reset
  | start (token : String)
  | clear (notice : String)
  /-- the page sets its texts itself, as `apply` and the actions do -/
  | assign (error message : String)

namespace Page

/-- the checkpoint of the write still holds -/
def current (w : Page) (call : WriteCall) : Prop :=
  call.lifetime = w.state.lifetime ∧ call.version = w.session.version

instance (w : Page) (call : WriteCall) : Decidable (w.current call) :=
  inferInstanceAs (Decidable (_ ∧ _))

/-- `read` is called -/
def read (w : Page) : Page :=
  { w with
    state := w.state.beginRead
    reads := { id := w.next, generation := w.state.generation + 1 } :: w.reads
    next := w.next + 1
    log := w.log ++ [.read w.next] }

/-- the `finally` of a read -/
def endRead (w : Page) (call : ReadCall) : Page :=
  { w with
    state := w.state.finallyRead call.generation
    reads := w.reads.filter fun r => r.id ≠ call.id
    log := w.log ++ [.done call.id] }

/-- the load of a read came -/
def loaded (w : Page) (call : ReadCall) : Page :=
  if call.generation = w.state.generation then
    { w with
      reads := w.reads.map fun r => if r.id = call.id then { r with applying := true } else r
      log := w.log ++ [.applied call.id] }
  else w.endRead call

/-- the `catch` of a read -/
def catchRead (w : Page) (call : ReadCall) (error : Thrown) : Page :=
  if call.generation = w.state.generation then
    { w with state := { w.state with error := errorMessage error }, log :=
      w.log ++ [.showed call.id] }
  else w

/-- the load failed, or `apply` threw -/
def failRead (w : Page) (call : ReadCall) (error : Thrown) : Page :=
  (w.catchRead call error).endRead call

/-- `write` is called -/
def write (w : Page) : Page :=
  if w.state.busy then { w with next := w.next + 1 }
  else
    { w with
      state := w.state.beginWrite
      writes := { id := w.next, lifetime := w.state.lifetime, version :=
        w.session.version } :: w.writes
      next := w.next + 1
      log := w.log ++ [.ran w.next] }

/-- the `finally` of a write -/
def endWrite (w : Page) (call : WriteCall) : Page :=
  { w with
    state := if w.current call then { w.state with busy := false } else w.state
    writes := w.writes.filter fun c => c.id ≠ call.id
    log := w.log ++ [.settled call.id] }

/-- the action failed -/
def failWrite (w : Page) (call : WriteCall) (error : Thrown) : Page :=
  let w := if w.current call then
    { w with state := { w.state with error := errorMessage error } } else w
  w.endWrite call

/-- the session changes, and the listener is called -/
def changeSession (w : Page) (session : SessionService) : Page :=
  { w with session := session, state := w.state.sessionChanged session, log := w.log ++ [.changed] }

/-- one event; `none` for the completion of what is not awaited -/
def step (w : Page) : PageEvent → Option Page
  | .read => some w.read
  | .loaded id => (w.reads.find? fun r => r.id == id && !r.applying).map w.loaded
  | .loadFailed id error =>
    (w.reads.find? fun r => r.id == id && !r.applying).map fun r => w.failRead r error
  | .applyReturned id => (w.reads.find? fun r => r.id == id && r.applying).map w.endRead
  | .applyThrew id error =>
    (w.reads.find? fun r => r.id == id && r.applying).map fun r => w.failRead r error
  | .write => some w.write
  | .actionDone id => (w.writes.find? fun c => c.id == id).map w.endWrite
  | .actionFailed id error => (w.writes.find? fun c => c.id == id).map fun c => w.failWrite c error
  | .reset => some { w with state := w.state.reset, log := w.log ++ [.reset] }
  | .start token => some (w.changeSession (w.session.start token))
  | .clear notice => some (w.changeSession (w.session.clear notice))
  | .assign error message =>
    some { w with state := { w.state with error := error, message := message } }

/-- no call is under way -/
structure Fresh (w : Page) : Prop where
  pending : w.state.pending = false
  busy : w.state.busy = false
  reads : w.reads = []
  writes : w.writes = []
  log : w.log = []

/-! ## the invariant -/

/-- a read that is suspended -/
structure ReadOk (generation : Nat) (log : List PageEntry) (r : ReadCall) : Prop where
  began : PageEntry.read r.id ∈ log
  isOpen : PageEntry.done r.id ∉ log
  le : r.generation ≤ generation
  latest : r.generation = generation ↔ Latest r.id log

/-- a write that is suspended -/
structure WriteOk (lifetime version : Nat) (log : List PageEntry) (c : WriteCall) : Prop where
  began : PageEntry.ran c.id ∈ log
  isOpen : PageEntry.settled c.id ∉ log
  le : c.lifetime ≤ lifetime
  current : c.lifetime = lifetime ∧ c.version = version ↔ Lifetime c.id log

/-- what an entry says of the calls -/
def Allowed (before : List PageEntry) : PageEntry → Prop
  | .applied id | .showed id => Latest id before
  | .ran _ => ∀ id, Lifetime id before → .settled id ∈ before
  | _ => True

structure Good (w : Page) : Prop where
  ids : ∀ e ∈ w.log, ∀ i, e.call = some i → i < w.next
  reads : ∀ r ∈ w.reads, ReadOk w.state.generation w.log r
  writes : ∀ c ∈ w.writes, WriteOk w.state.lifetime w.session.version w.log c
  openReads : ∀ i, PageEntry.read i ∈ w.log → PageEntry.done i ∉ w.log → ∃ r ∈ w.reads, r.id = i
  openWrites : ∀ i, PageEntry.ran i ∈ w.log → PageEntry.settled i ∉ w.log → ∃ c ∈ w.writes, c.id = i
  pending : w.state.pending = true ↔ ∃ r ∈ w.reads, r.generation = w.state.generation
  busy : w.state.busy = true ↔ ∃ c ∈ w.writes, w.current c
  /-- one write of the current lifetime at most -/
  one : ∀ c ∈ w.writes, ∀ c' ∈ w.writes, w.current c → w.current c' → c.id = c'.id
  allowed : Every Allowed w.log

/-! ## what a step keeps -/

section
variable {w : Page} {log : List PageEntry} {x : PageEntry}

theorem ReadOk.snoc {generation : Nat} {r : ReadCall} (h : ReadOk generation log r)
    (hdone : x ≠ .done r.id) (hx : ¬ x.cancels) : ReadOk generation (log ++ [x]) r where
  began := List.mem_append_left _ h.began
  isOpen := by simp [h.isOpen, hdone.symm]
  le := h.le
  latest := by
    rw [h.latest]
    refine (since_quiet ?_ hx).symm
    rintro rfl
    exact hx trivial

theorem WriteOk.snoc {lifetime version : Nat} {c : WriteCall} (h : WriteOk lifetime version log c)
    (hsettled : x ≠ .settled c.id) (hran : x ≠ .ran c.id) (hx : ¬ x.ends) :
    WriteOk lifetime version (log ++ [x]) c where
  began := List.mem_append_left _ h.began
  isOpen := by simp [h.isOpen, hsettled.symm]
  le := h.le
  current := h.current.trans (since_quiet hran.symm hx).symm

theorem mem_snoc_of_ne {e : PageEntry} (he : e ∈ log ++ [x]) (hne : e ≠ x) : e ∈ log :=
  (List.mem_append.mp he).resolve_right fun h => hne (List.mem_singleton.mp h)

/-- the texts of the page do not matter -/
theorem Good.texts (h : w.Good) (error message : String) :
    Good { w with state := { w.state with error := error, message := message } } where
  ids := h.ids
  reads := h.reads
  writes := h.writes
  openReads := h.openReads
  openWrites := h.openWrites
  pending := h.pending
  busy := h.busy
  one := h.one
  allowed := h.allowed

/-- a read does something -/
theorem Good.note (h : w.Good) {id : Nat} (hx : x = .applied id ∨ x = .showed id)
    (hl : Latest id w.log) :
    Good { w with log := w.log ++ [x] } where
  ids := by
    intro e he i hei
    rcases List.mem_append.mp he with he | he
    · exact h.ids e he i hei
    · have hid := h.ids _ hl.mem id rfl
      rcases hx with rfl | rfl
      · cases List.mem_singleton.mp he
        cases hei
        exact hid
      · cases List.mem_singleton.mp he
        cases hei
        exact hid
  reads := by
    intro r hr
    refine (h.reads r hr).snoc ?_ ?_
    · rcases hx with rfl | rfl <;> exact nofun
    · rcases hx with rfl | rfl <;> exact fun h => h
  writes := by
    intro c hc
    refine (h.writes c hc).snoc ?_ ?_ ?_
    · rcases hx with rfl | rfl <;> exact nofun
    · rcases hx with rfl | rfl <;> exact nofun
    · rcases hx with rfl | rfl <;> exact fun h => h
  openReads := by
    intro i hi hdone
    refine h.openReads i (mem_snoc_of_ne hi ?_) fun hm => hdone (List.mem_append_left _ hm)
    rcases hx with rfl | rfl <;> exact nofun
  openWrites := by
    intro i hi hdone
    refine h.openWrites i (mem_snoc_of_ne hi ?_) fun hm => hdone (List.mem_append_left _ hm)
    rcases hx with rfl | rfl <;> exact nofun
  pending := h.pending
  busy := h.busy
  one := h.one
  allowed := by
    refine every_snoc.mpr ⟨h.allowed, ?_⟩
    rcases hx with rfl | rfl <;> exact hl

/-- a read begins -/
theorem Good.read (h : w.Good) : w.read.Good where
  ids := by
    intro e he i hei
    rcases List.mem_append.mp he with he | he
    · exact Nat.lt_succ_of_lt (h.ids e he i hei)
    · cases List.mem_singleton.mp he
      cases hei
      exact Nat.lt_succ_self _
  reads := by
    intro r hr
    rcases List.mem_cons.mp hr with rfl | hr
    · refine ⟨List.mem_append_right _ List.mem_cons_self, ?_, Nat.le_refl _, ?_⟩
      · intro hm
        exact Nat.lt_irrefl _ (h.ids _ (mem_snoc_of_ne hm nofun) _ rfl)
      · exact ⟨fun _ => since_snoc.mpr (.inl rfl), fun _ => rfl⟩
    · obtain ⟨h1, h2, h3, h4⟩ := h.reads r hr
      have hne : PageEntry.read r.id ≠ .read w.next := by
        intro heq
        have hid := h.ids _ h1 _ rfl
        rw [PageEntry.read.inj heq] at hid
        exact Nat.lt_irrefl _ hid
      refine ⟨List.mem_append_left _ h1, ?_, Nat.le_succ_of_le h3, ?_⟩
      · exact fun hm => h2 (mem_snoc_of_ne hm nofun)
      · refine ⟨fun heq => ?_, fun hl => absurd hl (not_since hne trivial)⟩
        have heq : r.generation = w.state.generation + 1 := heq
        omega
  writes c hc := (h.writes c hc).snoc nofun nofun id
  openReads := by
    intro i hi hdone
    rcases List.mem_append.mp hi with hi | hi
    · obtain ⟨r, hr, rfl⟩ := h.openReads i hi fun hm => hdone (List.mem_append_left _ hm)
      exact ⟨r, List.mem_cons_of_mem _ hr, rfl⟩
    · cases List.mem_singleton.mp hi
      exact ⟨_, List.mem_cons_self, rfl⟩
  openWrites i hi hdone :=
    h.openWrites i (mem_snoc_of_ne hi nofun) fun hm => hdone (List.mem_append_left _ hm)
  pending := ⟨fun _ => ⟨_, List.mem_cons_self, rfl⟩, fun _ => rfl⟩
  busy := h.busy
  one := h.one
  allowed := every_snoc.mpr ⟨h.allowed, trivial⟩

/-- **A read ends**; `pending` is reset if it is the latest one. -/
theorem Good.endRead (h : w.Good) {call : ReadCall} (hc : call ∈ w.reads) :
    (w.endRead call).Good := by
  have hok := h.reads call hc
  have hid := h.ids _ hok.began _ rfl
  have hcurrent : ∀ c, (w.endRead call).current c ↔ w.current c := by
    intro c
    simp only [current, Page.endRead, PageState.finallyRead_lifetime]
  refine ⟨?_, ?_, ?_, ?_, ?_, ?_, ?_, ?_, every_snoc.mpr ⟨h.allowed, trivial⟩⟩
  · intro e he i hei
    rcases List.mem_append.mp he with he | he
    · exact h.ids e he i hei
    · cases List.mem_singleton.mp he
      cases hei
      exact hid
  · intro r hr
    obtain ⟨hr, hne⟩ := List.mem_filter.mp hr
    have hne : r.id ≠ call.id := of_decide_eq_true hne
    show ReadOk (w.state.finallyRead call.generation).generation (w.log ++ [.done call.id]) r
    rw [PageState.finallyRead_generation]
    exact (h.reads r hr).snoc (fun heq => hne (PageEntry.done.inj heq).symm) id
  · intro c hc
    show WriteOk (w.state.finallyRead call.generation).lifetime w.session.version
      (w.log ++ [.done call.id]) c
    rw [PageState.finallyRead_lifetime]
    exact (h.writes c hc).snoc nofun nofun id
  · intro i hi hdone
    obtain ⟨r, hr, rfl⟩ := h.openReads i (mem_snoc_of_ne hi nofun) fun hm =>
      hdone (List.mem_append_left _ hm)
    refine ⟨r, List.mem_filter.mpr ⟨hr, decide_eq_true ?_⟩, rfl⟩
    intro heq
    exact hdone (List.mem_append_right _ (by rw [heq]; exact List.mem_cons_self))
  · exact fun i hi hdone =>
      h.openWrites i (mem_snoc_of_ne hi nofun) fun hm => hdone (List.mem_append_left _ hm)
  · show (w.state.finallyRead call.generation).pending = true ↔
      ∃ r ∈ w.reads.filter fun r => r.id ≠ call.id, r.generation =
        (w.state.finallyRead call.generation).generation
    rw [PageState.finallyRead_generation]
    unfold PageState.finallyRead
    split
    · next heq =>
      -- no other read has the same generation
      refine ⟨nofun, ?_⟩
      rintro ⟨r, hr, hrg⟩
      obtain ⟨hr, hne⟩ := List.mem_filter.mp hr
      have huniq := ((h.reads r hr).latest.mp hrg).unique (hok.latest.mp heq) trivial trivial
      exact absurd (PageEntry.read.inj huniq) (of_decide_eq_true hne)
    · next hne =>
      rw [h.pending]
      constructor
      · rintro ⟨r, hr, hrg⟩
        refine ⟨r, List.mem_filter.mpr ⟨hr, decide_eq_true ?_⟩, hrg⟩
        intro heq
        have hl := (h.reads r hr).latest.mp hrg
        rw [heq] at hl
        exact hne (hok.latest.mpr hl)
      · rintro ⟨r, hr, hrg⟩
        exact ⟨r, (List.mem_filter.mp hr).1, hrg⟩
  · simp only [hcurrent]
    exact (Bool.eq_iff_iff.mp (PageState.finallyRead_busy _ _)).trans h.busy
  · intro c hc c' hc' h1 h2
    exact h.one c hc c' hc' ((hcurrent c).mp h1) ((hcurrent c').mp h2)

theorem Good.loaded (h : w.Good) {call : ReadCall} (hc : call ∈ w.reads) :
    (w.loaded call).Good := by
  unfold Page.loaded
  split
  · next heq =>
    have hnote := h.note (x := .applied call.id) (.inl rfl) ((h.reads call hc).latest.mp heq)
    have hmap : ∀ r' ∈ w.reads.map (fun r => if r.id = call.id then
      { r with applying := true } else r),
        ∃ r ∈ w.reads, r.id = r'.id ∧ r.generation = r'.generation := by
      intro r' hr'
      obtain ⟨r, hr, rfl⟩ := List.mem_map.mp hr'
      refine ⟨r, hr, ?_⟩
      split <;> exact ⟨rfl, rfl⟩
    have hmap' : ∀ r ∈ w.reads,
        ∃ r' ∈ w.reads.map (fun r => if r.id = call.id then { r with applying := true } else r),
          r'.id = r.id ∧ r'.generation = r.generation := by
      intro r hr
      refine ⟨_, List.mem_map_of_mem hr, ?_⟩
      split <;> exact ⟨rfl, rfl⟩
    refine { hnote with reads := ?_, openReads := ?_, pending := ?_ }
    · intro r' hr'
      obtain ⟨r, hr, h1, h2⟩ := hmap r' hr'
      obtain ⟨h3, h4, h5, h6⟩ := hnote.reads r hr
      rw [h1] at h3 h4 h6
      rw [h2] at h5 h6
      exact ⟨h3, h4, h5, h6⟩
    · intro i hi hdone
      obtain ⟨r, hr, rfl⟩ := hnote.openReads i hi hdone
      obtain ⟨r', hr', h1, -⟩ := hmap' r hr
      exact ⟨r', hr', h1⟩
    · rw [hnote.pending]
      constructor
      · rintro ⟨r, hr, hrg⟩
        obtain ⟨r', hr', -, h2⟩ := hmap' r hr
        exact ⟨r', hr', h2.trans hrg⟩
      · rintro ⟨r', hr', hrg⟩
        obtain ⟨r, hr, -, h2⟩ := hmap r' hr'
        exact ⟨r, hr, h2.trans hrg⟩
  · exact h.endRead hc

theorem Good.failRead (h : w.Good) {call : ReadCall} (hc : call ∈ w.reads) (error : Thrown) :
    (w.failRead call error).Good := by
  unfold Page.failRead Page.catchRead
  by_cases heq : call.generation = w.state.generation
  · rw [if_pos heq]
    have hnote := h.note (x := .showed call.id) (.inr rfl) ((h.reads call hc).latest.mp heq)
    exact (hnote.texts (errorMessage error) w.state.message).endRead hc
  · rw [if_neg heq]
    exact h.endRead hc

/-- **A write begins** only where no other of the current lifetime is under way. -/
theorem Good.write (h : w.Good) : w.write.Good := by
  unfold Page.write
  split
  · exact { h with ids := fun e he i hi => Nat.lt_succ_of_lt (h.ids e he i hi) }
  next hbusy =>
  have hno : ∀ c ∈ w.writes, ¬ w.current c := fun c hc hcur => hbusy (h.busy.mpr ⟨c, hc, hcur⟩)
  have hfresh : ∀ e ∈ w.log, e.call ≠ some w.next := fun e he hi => Nat.lt_irrefl _
    (h.ids e he _ hi)
  refine ⟨?_, ?_, ?_, ?_, ?_, h.pending, ?_, ?_, every_snoc.mpr ⟨h.allowed, ?_⟩⟩
  · intro e he i hei
    rcases List.mem_append.mp he with he | he
    · exact Nat.lt_succ_of_lt (h.ids e he i hei)
    · cases List.mem_singleton.mp he
      cases hei
      exact Nat.lt_succ_self _
  · exact fun r hr => (h.reads r hr).snoc nofun id
  · intro c hc
    rcases List.mem_cons.mp hc with rfl | hc
    · refine ⟨List.mem_append_right _ List.mem_cons_self, ?_, Nat.le_refl _, ?_⟩
      · exact fun hm => hfresh _ (mem_snoc_of_ne hm nofun) rfl
      · exact ⟨fun _ => since_snoc.mpr (.inl rfl), fun _ => ⟨rfl, rfl⟩⟩
    · refine (h.writes c hc).snoc nofun ?_ id
      intro heq
      exact hfresh _ (h.writes c hc).began (congrArg some (PageEntry.ran.inj heq).symm)
  · exact fun i hi hdone =>
      h.openReads i (mem_snoc_of_ne hi nofun) fun hm => hdone (List.mem_append_left _ hm)
  · intro i hi hdone
    rcases List.mem_append.mp hi with hi | hi
    · obtain ⟨c, hc, rfl⟩ := h.openWrites i hi fun hm => hdone (List.mem_append_left _ hm)
      exact ⟨c, List.mem_cons_of_mem _ hc, rfl⟩
    · cases List.mem_singleton.mp hi
      exact ⟨_, List.mem_cons_self, rfl⟩
  · exact ⟨fun _ => ⟨_, List.mem_cons_self, rfl, rfl⟩, fun _ => rfl⟩
  · intro c hc c' hc' h1 h2
    rcases List.mem_cons.mp hc with rfl | hc
    · rcases List.mem_cons.mp hc' with rfl | hc'
      · rfl
      · exact absurd h2 (hno c' hc')
    · exact absurd h1 (hno c hc)
  · intro i hi
    by_contra hopen
    obtain ⟨c, hc, rfl⟩ := h.openWrites i hi.mem hopen
    exact hno c hc ((h.writes c hc).current.mpr hi)

/-- **A write ends**; `busy` is reset if it is the one of the current lifetime. -/
theorem Good.endWrite (h : w.Good) {call : WriteCall} (hc : call ∈ w.writes) :
    (w.endWrite call).Good := by
  have hok := h.writes call hc
  have hid := h.ids _ hok.began _ rfl
  have hstate : (w.endWrite call).state.generation = w.state.generation ∧
      (w.endWrite call).state.lifetime = w.state.lifetime ∧ (w.endWrite call).state.pending =
      w.state.pending := by
    simp only [Page.endWrite]
    split <;> exact ⟨rfl, rfl, rfl⟩
  have hcurrent : ∀ c, (w.endWrite call).current c ↔ w.current c := by
    intro c
    unfold current
    rw [hstate.2.1]
    rfl
  refine ⟨?_, ?_, ?_, ?_, ?_, ?_, ?_, ?_, every_snoc.mpr ⟨h.allowed, trivial⟩⟩
  · intro e he i hei
    rcases List.mem_append.mp he with he | he
    · exact h.ids e he i hei
    · cases List.mem_singleton.mp he
      cases hei
      exact hid
  · intro r hr
    rw [hstate.1]
    exact (h.reads r hr).snoc nofun id
  · intro c hmem
    obtain ⟨hmem, hne⟩ := List.mem_filter.mp hmem
    have hne : c.id ≠ call.id := of_decide_eq_true hne
    rw [hstate.2.1]
    exact (h.writes c hmem).snoc (fun heq => hne (PageEntry.settled.inj heq).symm) nofun id
  · exact fun i hi hdone =>
      h.openReads i (mem_snoc_of_ne hi nofun) fun hm => hdone (List.mem_append_left _ hm)
  · intro i hi hdone
    obtain ⟨c, hmem, rfl⟩ := h.openWrites i (mem_snoc_of_ne hi nofun) fun hm =>
      hdone (List.mem_append_left _ hm)
    refine ⟨c, List.mem_filter.mpr ⟨hmem, decide_eq_true ?_⟩, rfl⟩
    intro heq
    exact hdone (List.mem_append_right _ (by rw [heq]; exact List.mem_cons_self))
  · rw [hstate.2.2, hstate.1]
    exact h.pending
  · simp only [hcurrent]
    show (if w.current call then { w.state with busy := false } else w.state).busy = true ↔
      ∃ c ∈ w.writes.filter fun c => c.id ≠ call.id, w.current c
    split
    · next hcur =>
      refine ⟨nofun, ?_⟩
      rintro ⟨c, hmem, hcur'⟩
      obtain ⟨hmem, hne⟩ := List.mem_filter.mp hmem
      exact absurd (h.one c hmem call hc hcur' hcur) (of_decide_eq_true hne)
    · next hcur =>
      rw [h.busy]
      constructor
      · rintro ⟨c, hmem, hcur'⟩
        refine ⟨c, List.mem_filter.mpr ⟨hmem, decide_eq_true ?_⟩, hcur'⟩
        intro heq
        have hl := (h.writes c hmem).current.mp hcur'
        rw [heq] at hl
        exact hcur (hok.current.mpr hl)
      · rintro ⟨c, hmem, hcur'⟩
        exact ⟨c, (List.mem_filter.mp hmem).1, hcur'⟩
  · intro c hmem c' hmem' h1 h2
    exact h.one c (List.mem_filter.mp hmem).1 c' (List.mem_filter.mp hmem').1 ((hcurrent c).mp h1)
      ((hcurrent c').mp h2)

theorem Good.failWrite (h : w.Good) {call : WriteCall} (hc : call ∈ w.writes) (error : Thrown) :
    (w.failWrite call error).Good := by
  unfold Page.failWrite
  dsimp only
  split
  · exact (h.texts (errorMessage error) w.state.message).endWrite hc
  · exact h.endWrite hc

/-- **A reset or a change of the session**: nothing is current any more. -/
theorem Good.cancel (h : w.Good) {state : PageState} {session : SessionService}
    (hx : x = .reset ∨ x = .changed)
    (hgeneration : state.generation = w.state.generation + 1)
    (hlifetime : state.lifetime = w.state.lifetime + 1)
    (hpending : state.pending = false) (hbusy : state.busy = false) :
    Good { w with state := state, session := session, log := w.log ++ [x] } := by
  have hends : x.ends ∧ x.cancels := by rcases hx with rfl | rfl <;> exact ⟨trivial, trivial⟩
  have hcall : x.call = none := by rcases hx with rfl | rfl <;> rfl
  have hne : ∀ e : PageEntry, e.call ≠ none → e ≠ x := fun e he heq => he (by rw [heq, hcall])
  have hreads : ∀ r ∈ w.reads, r.generation ≠ state.generation := by
    intro r hr heq
    have := (h.reads r hr).le
    omega
  have hwrites : ∀ c ∈ w.writes, c.lifetime ≠ state.lifetime := by
    intro c hc heq
    have := (h.writes c hc).le
    omega
  refine ⟨?_, ?_, ?_, ?_, ?_, ?_, ?_, ?_, every_snoc.mpr ⟨h.allowed, ?_⟩⟩
  · intro e he i hei
    refine h.ids e (mem_snoc_of_ne he (hne e ?_)) i hei
    rw [hei]
    exact nofun
  · intro r hr
    obtain ⟨h1, h2, h3, h4⟩ := h.reads r hr
    refine ⟨List.mem_append_left _ h1, fun hm => h2 (mem_snoc_of_ne hm (hne _ nofun)), ?_, ?_⟩
    · show r.generation ≤ state.generation
      omega
    · exact ⟨fun heq => absurd heq (hreads r hr), fun hl =>
        absurd hl (not_since (hne _ nofun) hends.2)⟩
  · intro c hc
    obtain ⟨h1, h2, h3, h4⟩ := h.writes c hc
    refine ⟨List.mem_append_left _ h1, fun hm => h2 (mem_snoc_of_ne hm (hne _ nofun)), ?_, ?_⟩
    · show c.lifetime ≤ state.lifetime
      omega
    · exact ⟨fun heq => absurd heq.1 (hwrites c hc), fun hl =>
        absurd hl (not_since (hne _ nofun) hends.1)⟩
  · exact fun i hi hdone =>
      h.openReads i (mem_snoc_of_ne hi (hne _ nofun)) fun hm => hdone (List.mem_append_left _ hm)
  · exact fun i hi hdone =>
      h.openWrites i (mem_snoc_of_ne hi (hne _ nofun)) fun hm => hdone (List.mem_append_left _ hm)
  · show state.pending = true ↔ ∃ r ∈ w.reads, r.generation = state.generation
    rw [hpending]
    exact ⟨nofun, fun ⟨r, hr, heq⟩ => absurd heq (hreads r hr)⟩
  · show state.busy = true ↔ ∃ c ∈ w.writes, c.lifetime = state.lifetime ∧
      c.version = session.version
    rw [hbusy]
    exact ⟨nofun, fun ⟨c, hc, heq⟩ => absurd heq.1 (hwrites c hc)⟩
  · exact fun c hc _ _ h1 _ => absurd h1.1 (hwrites c hc)
  · rcases hx with rfl | rfl <;> trivial

theorem Good.changeSession (h : w.Good) (session : SessionService) :
    (w.changeSession session).Good := by
  refine h.cancel (.inr rfl) ?_ ?_ ?_ ?_ <;>
    (unfold PageState.sessionChanged; dsimp only; split <;> rfl)

/-- **One event keeps the invariant.** -/
theorem Good.step {w' : Page} {event : PageEvent} (h : w.Good) (hstep : w.step event = some w') :
    w'.Good := by
  cases event with
  | read =>
    cases hstep
    exact h.read
  | loaded id =>
    obtain ⟨call, hf, rfl⟩ := Option.map_eq_some_iff.mp hstep
    exact h.loaded (List.mem_of_find?_eq_some hf)
  | loadFailed id error =>
    obtain ⟨call, hf, rfl⟩ := Option.map_eq_some_iff.mp hstep
    exact h.failRead (List.mem_of_find?_eq_some hf) error
  | applyReturned id =>
    obtain ⟨call, hf, rfl⟩ := Option.map_eq_some_iff.mp hstep
    exact h.endRead (List.mem_of_find?_eq_some hf)
  | applyThrew id error =>
    obtain ⟨call, hf, rfl⟩ := Option.map_eq_some_iff.mp hstep
    exact h.failRead (List.mem_of_find?_eq_some hf) error
  | write =>
    cases hstep
    exact h.write
  | actionDone id =>
    obtain ⟨call, hf, rfl⟩ := Option.map_eq_some_iff.mp hstep
    exact h.endWrite (List.mem_of_find?_eq_some hf)
  | actionFailed id error =>
    obtain ⟨call, hf, rfl⟩ := Option.map_eq_some_iff.mp hstep
    exact h.failWrite (List.mem_of_find?_eq_some hf) error
  | reset =>
    cases hstep
    exact h.cancel (.inl rfl) rfl rfl rfl rfl
  | start token =>
    cases hstep
    exact h.changeSession _
  | clear notice =>
    cases hstep
    exact h.changeSession _
  | assign error message =>
    cases hstep
    exact h.texts error message

theorem Fresh.good (h : w.Fresh) : w.Good := by
  obtain ⟨hp, hb, hr, hw, hlog⟩ := h
  constructor <;> simp [hp, hb, hr, hw, hlog, every_nil]

/-- the `catch` writes the error of the latest read, and of no other -/
theorem catchRead_state (w : Page) (call : ReadCall) (error : Thrown) :
    (w.catchRead call error).state = w.state.catchRead call.generation error := by
  unfold Page.catchRead PageState.catchRead
  split <;> rfl

/-- a read that is not the latest one ends without a trace -/
theorem Good.staleRead (h : w.Good) {call : ReadCall} (hc : call ∈ w.reads)
    (hl : ¬ Latest call.id w.log) (error : Thrown) :
    (w.endRead call).state = w.state ∧ (w.failRead call error).state = w.state ∧ w.loaded call =
    w.endRead call := by
  have hno : ¬ call.generation = w.state.generation :=
    fun heq => hl ((h.reads call hc).latest.mp heq)
  refine ⟨if_neg hno, ?_, if_neg hno⟩
  unfold Page.failRead Page.catchRead
  rw [if_neg hno]
  exact if_neg hno

/-- the latest read shows its error, or has its result applied -/
theorem Good.latestRead (h : w.Good) {call : ReadCall} (hc : call ∈ w.reads)
    (hl : Latest call.id w.log) (error : Thrown) :
    (w.failRead call error).state = { w.state with error := errorMessage error, pending := false } ∧
      ∃ r ∈ (w.loaded call).reads, r.id = call.id ∧ r.applying = true := by
  have heq : call.generation = w.state.generation := (h.reads call hc).latest.mpr hl
  constructor
  · unfold Page.failRead Page.catchRead
    rw [if_pos heq]
    exact if_pos heq
  · unfold Page.loaded
    rw [if_pos heq]
    exact ⟨_, List.mem_map_of_mem hc, by rw [if_pos rfl], by rw [if_pos rfl]⟩

/-- a write of an earlier lifetime or session ends without a trace -/
theorem Good.staleWrite (h : w.Good) {call : WriteCall} (hc : call ∈ w.writes)
    (hl : ¬ Lifetime call.id w.log)
    (error : Thrown) : (w.endWrite call).state = w.state ∧ (w.failWrite call error).state =
    w.state := by
  have hno : ¬ w.current call := fun hcur => hl ((h.writes call hc).current.mp hcur)
  constructor
  · exact if_neg hno
  · unfold Page.failWrite
    rw [if_neg hno]
    exact if_neg hno

theorem Good.pending_iff (h : w.Good) :
    w.state.pending = true ↔ ∃ id, Latest id w.log ∧ PageEntry.done id ∉ w.log := by
  rw [h.pending]
  constructor
  · rintro ⟨r, hr, heq⟩
    exact ⟨r.id, (h.reads r hr).latest.mp heq, (h.reads r hr).isOpen⟩
  · rintro ⟨id, hl, hopen⟩
    obtain ⟨r, hr, rfl⟩ := h.openReads id hl.mem hopen
    exact ⟨r, hr, (h.reads r hr).latest.mpr hl⟩

theorem Good.busy_iff (h : w.Good) :
    w.state.busy = true ↔ ∃ id, Lifetime id w.log ∧ PageEntry.settled id ∉ w.log := by
  rw [h.busy]
  constructor
  · rintro ⟨c, hc, hcur⟩
    exact ⟨c.id, (h.writes c hc).current.mp hcur, (h.writes c hc).isOpen⟩
  · rintro ⟨id, hl, hopen⟩
    obtain ⟨c, hc, rfl⟩ := h.openWrites id hl.mem hopen
    exact ⟨c, hc, (h.writes c hc).current.mpr hl⟩

end

end Page

/-! ## the runs -/

/-- what holds of a page, whatever has happened -/
structure Page.Consistent (w : Page) : Prop where
  /-- `apply` and the message of an error are for the latest read; an action is run where every
  write of the current lifetime has ended -/
  allowed : Every Page.Allowed w.log
  /-- the latest read, with no reset and no change of the session since, has not ended -/
  pending : w.state.pending = true ↔ ∃ id, Latest id w.log ∧ PageEntry.done id ∉ w.log
  /-- a write of the current lifetime has not ended -/
  busy : w.state.busy = true ↔ ∃ id, Lifetime id w.log ∧ PageEntry.settled id ∉ w.log
  /-- the result of a read is applied exactly where it is the latest one; else the page stays as it
  is -/
  loaded : ∀ id w', w.step (.loaded id) = some w' →
    (Latest id w.log → ∃ r ∈ w'.reads, r.id = id ∧ r.applying = true) ∧
    (¬ Latest id w.log → w'.state = w.state ∧ ∀ r ∈ w'.reads, r.id ≠ id)
  /-- its error is shown exactly where it is the latest one; else the page stays as it is -/
  failed : ∀ id error w', (w.step (.loadFailed id error) = some w' ∨
    w.step (.applyThrew id error) = some w') →
    (Latest id w.log → w'.state = { w.state with error := errorMessage error, pending := false }) ∧
    (¬ Latest id w.log → w'.state = w.state)
  /-- a call of `write` before the write of the current lifetime has ended runs nothing -/
  turnedAway : ∀ w', w.step .write = some w' →
    (∃ id, Lifetime id w.log ∧ PageEntry.settled id ∉ w.log) →
    w'.state = w.state ∧ w'.writes = w.writes ∧ w'.log = w.log
  /-- a write of an earlier lifetime or session ends without a trace -/
  stale : ∀ id error w', (w.step (.actionDone id) = some w' ∨
    w.step (.actionFailed id error) = some w') →
    ¬ Lifetime id w.log →
      w'.state.busy = w.state.busy ∧ w'.state.error = w.state.error ∧ w'.state.message =
      w.state.message

/-- **Stale completions are ignored, `pending` and `busy` are right.** In every run of a bound page:
a result is applied, and an error is shown, only for the latest read, with no reset and no change of
the session since it began, and the end of any other read leaves the page as it is; `pending` says
that this read has not ended; an action is run only where every write of the current lifetime has
ended; `busy` says that such a write has not ended; and where a write of an earlier lifetime or
session ends, `busy`, `error` and `message` stay as they are. -/
theorem pageState_consistent (w0 w : Page) (events : List PageEvent) (h0 : w0.Fresh)
    (hrun : run Page.step w0 events = some w) : w.Consistent := by
  have h := run_invariant (fun _ _ _ h1 h2 => Page.Good.step h1 h2) h0.good hrun
  have hread : ∀ {p : ReadCall → Bool} {id : Nat} {call : ReadCall},
    (w.reads.find? fun r => r.id == id && p r) = some call →
      call ∈ w.reads ∧ call.id = id := by
    intro p id call hf
    have hid := List.find?_some hf
    rw [Bool.and_eq_true] at hid
    exact ⟨List.mem_of_find?_eq_some hf, eq_of_beq hid.1⟩
  refine ⟨h.allowed, h.pending_iff, h.busy_iff, ?_, ?_, ?_, ?_⟩
  · intro id w' hstep
    obtain ⟨call, hf, rfl⟩ := Option.map_eq_some_iff.mp hstep
    obtain ⟨hc, rfl⟩ := hread hf
    refine ⟨fun hl => (h.latestRead hc hl .other).2, fun hl => ?_⟩
    obtain ⟨hend, -, hloaded⟩ := h.staleRead hc hl .other
    rw [hloaded]
    exact ⟨hend, fun r hr => of_decide_eq_true (List.mem_filter.mp hr).2⟩
  · intro id error w' hstep
    have hfail : ∃ call ∈ w.reads, call.id = id ∧ w' = w.failRead call error := by
      rcases hstep with hstep | hstep
      · obtain ⟨call, hf, rfl⟩ := Option.map_eq_some_iff.mp hstep
        exact ⟨call, (hread hf).1, (hread hf).2, rfl⟩
      · obtain ⟨call, hf, rfl⟩ := Option.map_eq_some_iff.mp hstep
        exact ⟨call, (hread hf).1, (hread hf).2, rfl⟩
    obtain ⟨call, hc, rfl, rfl⟩ := hfail
    exact ⟨fun hl => (h.latestRead hc hl error).1, fun hl => (h.staleRead hc hl error).2.1⟩
  · intro w' hstep hopen
    cases hstep
    rw [show w.write = { w with next := w.next + 1 } from if_pos (h.busy_iff.mpr hopen)]
    exact ⟨rfl, rfl, rfl⟩
  · intro id error w' hstep hl
    have hfound : ∀ c : WriteCall, w.writes.find? (fun c => c.id == id) = some c →
      ¬ Lifetime c.id w.log := by
      intro c hc
      have heq : (c.id == id) = true := List.find?_some (p := fun c : WriteCall => c.id == id) hc
      rwa [eq_of_beq heq]
    have hstate : w'.state = w.state := by
      rcases hstep with hstep | hstep
      · obtain ⟨c, hc, rfl⟩ := Option.map_eq_some_iff.mp hstep
        exact (h.staleWrite (List.mem_of_find?_eq_some hc) (hfound c hc) .other).1
      · obtain ⟨c, hc, rfl⟩ := Option.map_eq_some_iff.mp hstep
        exact (h.staleWrite (List.mem_of_find?_eq_some hc) (hfound c hc) error).2
    rw [hstate]
    exact ⟨rfl, rfl, rfl⟩

/-- a write and two reads, the session cleared in between, then the completions: the first read
fails behind its back -/
def sampleEvents : List PageEvent :=
  [.write, .read, .clear "", .read, .loadFailed 1 .other, .actionDone 0, .loadFailed 2 .other]

theorem pageState_consistent_sample :
    (({} : Page).Fresh ∧ ∃ w, run Page.step {} sampleEvents = some w ∧ w.state.error =
      errorMessage .other ∧
      w.log = [.ran 0, .read 1, .changed, .read 2, .done 1, .settled 0, .showed 2, .done 2]) ∧
    ∀ w, run Page.step {} sampleEvents = some w → w.Consistent :=
  ⟨⟨⟨rfl, rfl, rfl, rfl, rfl⟩, _, rfl, rfl, rfl⟩, fun w hrun =>
    pageState_consistent {} w _ ⟨rfl, rfl, rfl, rfl, rfl⟩ hrun⟩

end Client
