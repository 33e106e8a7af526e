import CtfServer.Http.Request

/-!
# What a request is

The grammar of the requests the server takes, stated on its own: the parts of a request head, its
text, and which heads are well formed.

* `Head.bytes`        the text `METHOD SP URI SP VERSION EOL (NAME ':' VALUE EOL)* EOL`;
* `Head.WellFormed`   the character classes of the parts, at most 32 headers;
* `Declares hs n`     the headers `hs` announce a body of `n` bytes: no Transfer-Encoding, and at
                      most one Content-Length;
* `Accepts b h n`     `b` starts with the head `h` and `n` bytes of body, within the limits.
-/

set_option linter.unusedVariables false

namespace Http

inductive Eol where
  | lf | crlf
  deriving DecidableEq, Repr

def Eol.bytes : Eol → Bytes
  | .lf => [LF]
  | .crlf => [CR, LF]

def HttpMethod.bytes : HttpMethod → Bytes
  | .get => ascii "GET"
  | .head => ascii "HEAD"
  | .options => ascii "OPTIONS"
  | .trace => ascii "TRACE"
  | .put => ascii "PUT"
  | .delete => ascii "DELETE"
  | .post => ascii "POST"
  | .patch => ascii "PATCH"
  | .connect => ascii "CONNECT"

def HttpVersion.bytes : HttpVersion → Bytes
  | .http10 => ascii "HTTP/1.0"
  | .http11 => ascii "HTTP/1.1"

structure HeaderLine where
  name : Bytes
  value : Bytes
  eol : Eol
  deriving DecidableEq, Repr

def HeaderLine.bytes (x : HeaderLine) : Bytes := x.name ++ COLON :: (x.value ++ x.eol.bytes)

structure Head where
  method : HttpMethod
  uri : Bytes
  version : HttpVersion
  eol : Eol
  headers : List HeaderLine
  lastEol : Eol
  deriving DecidableEq, Repr

def Head.bytes (h : Head) : Bytes :=
  h.method.bytes ++ SP :: (h.uri ++ SP :: (h.version.bytes ++ (h.eol.bytes ++
    (h.headers.flatMap HeaderLine.bytes ++ h.lastEol.bytes))))

/-! ## character classes -/

def uriByte (c : UInt8) : Bool := c != SP && c != CR && c != LF
def nameStart (c : UInt8) : Bool := c != CR && c != LF && c != COLON
def nameByte (c : UInt8) : Bool := c != SP && c != HTAB && c != CR && c != LF && c != COLON
def valueByte (c : UInt8) : Bool := c != CR && c != LF

/-- a space or a tab -/
def isBlank (c : UInt8) : Bool := c == SP || c == HTAB

/-- a header value without the blanks around it -/
def HeaderLine.stripped (x : HeaderLine) : Bytes := Bytes.strip isBlank x.value

structure HeaderLine.WellFormed (x : HeaderLine) : Prop where
  name : ∃ c cs, x.name = c :: cs ∧ nameStart c = true ∧ ∀ d ∈ cs, nameByte d = true
  value : ∀ d ∈ x.value, valueByte d = true

structure Head.WellFormed (h : Head) : Prop where
  uri : h.uri ≠ [] ∧ ∀ c ∈ h.uri, uriByte c = true
  headers : ∀ x ∈ h.headers, x.WellFormed
  count : h.headers.length ≤ MAX_HEADERS

/-! ## the length of the body -/

/-- is the header named so, up to letter case? -/
def HeaderLine.isNamed (x : HeaderLine) (name : Bytes) : Bool := Bytes.eqFold x.name name

/-- the value is a numeral of `n`, and `n` fits in a `size_t` -/
def HeaderLine.Numeral (x : HeaderLine) (n : Nat) : Prop :=
  x.stripped ≠ [] ∧ (∀ c ∈ x.stripped, Decimal.isDigit c = true) ∧ Decimal.value x.stripped = n ∧
    n ≤ SIZE_MAX

/-- the headers announce a body of `n` bytes -/
def Declares (hs : List HeaderLine) (n : Nat) : Prop :=
  (∀ x ∈ hs, x.isNamed transferEncodingName = false) ∧
    ((hs.filter (·.isNamed contentLengthName) = [] ∧ n = 0) ∨
      ∃ x, hs.filter (·.isNamed contentLengthName) = [x] ∧ x.Numeral n)

/-- `b` starts with the head `h` and the `n` bytes of body that `h` announces -/
structure Accepts (b : Bytes) (h : Head) (n : Nat) : Prop where
  wellFormed : h.WellFormed
  declares : Declares h.headers n
  head : h.bytes <+: b
  headLen : h.bytes.length < MAX_HEADER_BYTES
  bodyLen : n < MAX_REQUEST_BYTES - h.bytes.length
  body : h.bytes.length + n ≤ b.length

/-! ## the length of the body, header by header -/

/-- the announced length after one more header, the headers `hs` having announced `n` -/
def takeHeader (hs : List HeaderLine) (n : Nat) (x : HeaderLine) : Option Nat :=
  if x.isNamed transferEncodingName then none
  else if x.isNamed contentLengthName then
    if x.stripped = [] ∨ hs.any (·.isNamed contentLengthName) then none
    else readContentLength x.stripped
  else some n

/-- the announced length after the headers `xs` -/
def lengthFrom (hs : List HeaderLine) (n : Nat) : List HeaderLine → Option Nat
  | [] => some n
  | x :: xs =>
    match takeHeader hs n x with
    | none => none
    | some n' => lengthFrom (hs ++ [x]) n' xs

theorem readContentLength_iff (x : HeaderLine) (n : Nat) (h : x.stripped ≠ []) :
    readContentLength x.stripped = some n ↔ x.Numeral n := by
  unfold readContentLength
  rw [Decimal.readGuarded_iff _ _ _ _ (by decide) (Nat.zero_le _)]
  exact ⟨fun h1 => ⟨h, h1⟩, fun h1 => h1.2⟩

theorem takeHeader_other (hs : List HeaderLine) (n : Nat) (x : HeaderLine)
    (ht : x.isNamed transferEncodingName = false) (hc : x.isNamed contentLengthName = false) :
    takeHeader hs n x = some n := by
  simp [takeHeader, ht, hc]

theorem takeHeader_length (hs : List HeaderLine) (n n' : Nat) (x : HeaderLine)
    (ht : x.isNamed transferEncodingName = false) (hc : x.isNamed contentLengthName = true) :
    takeHeader hs n x = some n' ↔ hs.filter (·.isNamed contentLengthName) = [] ∧ x.Numeral n' := by
  unfold takeHeader
  rw [if_neg (by rw [ht]; decide), if_pos hc]
  by_cases hv : x.stripped = []
  · rw [if_pos (Or.inl hv)]
    exact ⟨fun h => absurd h (by simp), fun h => absurd hv h.2.1⟩
  · by_cases ha : hs.any (·.isNamed contentLengthName) = true
    · rw [if_pos (Or.inr ha)]
      refine ⟨fun h => absurd h (by simp), fun h => ?_⟩
      obtain ⟨y, hy, hn⟩ := List.any_eq_true.mp ha
      exact absurd hn (List.filter_eq_nil_iff.mp h.1 y hy)
    · rw [if_neg (fun h => h.elim hv ha), readContentLength_iff x n' hv]
      refine ⟨fun h => ⟨List.filter_eq_nil_iff.mpr fun y hy hn => ?_, h⟩, fun h => h.2⟩
      exact ha (List.any_eq_true.mpr ⟨y, hy, hn⟩)

theorem takeHeader_te (hs : List HeaderLine) (n : Nat) (x : HeaderLine)
    (ht : x.isNamed transferEncodingName = true) : takeHeader hs n x = none := by
  simp [takeHeader, ht]

/-- reading header by header decides what the headers announce together -/
theorem lengthFrom_iff (hs xs : List HeaderLine) (n m : Nat) :
    lengthFrom hs n xs = some m ↔
      (∀ x ∈ xs, x.isNamed transferEncodingName = false) ∧
        ((xs.filter (·.isNamed contentLengthName) = [] ∧ m = n) ∨
          (hs.filter (·.isNamed contentLengthName) = [] ∧
            ∃ x, xs.filter (·.isNamed contentLengthName) = [x] ∧ x.Numeral m)) := by
  induction xs generalizing hs n with
  | nil =>
    show some n = some m ↔ _
    rw [Option.some_inj]
    constructor
    · intro h
      exact ⟨fun _ hx => absurd hx List.not_mem_nil, Or.inl ⟨rfl, h.symm⟩⟩
    · rintro ⟨-, ⟨-, h⟩ | ⟨-, x, hx, -⟩⟩
      · exact h.symm
      · cases hx
  | cons x xs ih =>
    rw [lengthFrom, List.forall_mem_cons]
    cases ht : x.isNamed transferEncodingName with
    | true =>
      rw [takeHeader_te hs n x ht]
      simp
    | false =>
      cases hc : x.isNamed contentLengthName with
      | false =>
        rw [takeHeader_other hs n x ht hc]
        simp only [List.filter_cons, hc, Bool.false_eq_true, if_false]
        rw [ih, List.filter_append, List.filter_cons_of_neg (by rw [hc]; decide), List.filter_nil,
          List.append_nil]
        simp
      | true =>
        have hf : (hs ++ [x]).filter (·.isNamed contentLengthName) ≠ [] := by
          simp [hc]
        simp only [List.filter_cons, hc, if_true]
        constructor
        · intro h
          cases hx : takeHeader hs n x with
          | none => rw [hx] at h; cases h
          | some n' =>
            rw [hx] at h
            obtain ⟨h1, h2⟩ := (takeHeader_length hs n n' x ht hc).mp hx
            obtain ⟨h3, ⟨h4, h5⟩ | ⟨h4, -⟩⟩ := (ih (hs ++ [x]) n').mp h
            · exact ⟨⟨trivial, h3⟩, Or.inr ⟨h1, x, by rw [h4], h5 ▸ h2⟩⟩
            · exact absurd h4 hf
        · rintro ⟨⟨-, h1⟩, ⟨h2, -⟩ | ⟨h2, y, h3, h4⟩⟩
          · cases h2
          · obtain ⟨h5, h6⟩ := List.cons.inj h3
            rw [(takeHeader_length hs n m x ht hc).mpr ⟨h2, h5 ▸ h4⟩]
            exact (ih (hs ++ [x]) m).mpr ⟨h1, Or.inl ⟨h6, rfl⟩⟩

theorem declares_iff (hs : List HeaderLine) (n : Nat) :
    Declares hs n ↔ lengthFrom [] 0 hs = some n := by
  rw [lengthFrom_iff]
  simp [Declares]

end Http
