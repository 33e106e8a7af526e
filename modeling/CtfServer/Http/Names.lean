import CtfServer.Http.Accept

/-!
# Header names

The framing of a message rests on the names of its headers.  The state of the first byte of a name
does not look for white space, so one kind of input has headers with such names.

* `Hygienic b req`      no white space in a name, and none that hides a framing header;
* `opensBlank`          a line of the head starts with a blank;
* `feedChunks_hygienic_iff`
-/

set_option linter.unusedVariables false
set_option linter.unusedSimpArgs false

namespace Http

/-- a name without the white space around it -/
def HttpHeader.trimmedName (b : Bytes) (h : HttpHeader) : Bytes :=
  Bytes.strip isWhitespace (h.nameBytes b)

def HttpHeader.seemsNamed (b : Bytes) (name : Bytes) (h : HttpHeader) : Bool :=
  Bytes.eqFold (h.trimmedName b) name

/-- no name of the request has white space; no header is, but for white space, a Transfer-Encoding
or a second Content-Length -/
def Hygienic (b : Bytes) (req : HttpRequest) : Prop :=
  (∀ h ∈ req.headers, ∀ c ∈ h.nameBytes b, isWhitespace c = false) ∧
    (∀ h ∈ req.headers, h.seemsNamed b transferEncodingName = false) ∧
      (req.headers.filter (·.seemsNamed b contentLengthName)).length ≤ 1

instance (b : Bytes) (req : HttpRequest) : Decidable (Hygienic b req) :=
  inferInstanceAs (Decidable (_ ∧ _ ∧ _))

/-- a line of the head starts with a space or a tab; the head ends with the first empty line, and
`start` says that a line starts here -/
def opensBlank (start : Bool) : Bytes → Bool
  | [] => false
  | c :: cs =>
    if start then
      if isBlank c then true
      else if c = LF ∨ (c = CR ∧ cs.head? = some LF) then false
      else opensBlank false cs
    else opensBlank (c == LF) cs

/-! ## the lines of a head -/

theorem opensBlank_skip (t l : Bytes) (h : LF ∉ t) :
    opensBlank false (t ++ l) = opensBlank false l := by
  induction t with
  | nil => rfl
  | cons c t ih =>
    obtain ⟨h1, h2⟩ := List.ne_and_not_mem_of_not_mem_cons h
    have hc : (c == LF) = false := beq_eq_false_iff_ne.mpr h1.symm
    show opensBlank (c == LF) (t ++ l) = _
    rw [hc, ih h2]

theorem opensBlank_eol (eol : Eol) (l : Bytes) :
    opensBlank false (eol.bytes ++ l) = opensBlank true l := by
  cases eol <;> rfl

theorem opensBlank_end (eol : Eol) (l : Bytes) : opensBlank true (eol.bytes ++ l) = false := by
  cases eol <;> rfl

/-- the first byte of a line -/
def HeaderLine.startsBlank (x : HeaderLine) : Bool := isBlank (x.name.headD 0)

theorem not_mem_of_class {p : UInt8 → Bool} {l : Bytes} {d : UInt8} (h : ∀ c ∈ l, p c = true)
    (hd : p d = false) : d ∉ l := by
  intro hmem
  rw [h d hmem] at hd
  cases hd

theorem opensBlank_header (x : HeaderLine) (hx : x.WellFormed) (l : Bytes) :
    opensBlank true (x.bytes ++ l) = (x.startsBlank || opensBlank true l) := by
  obtain ⟨c, cs, hname, hc, hcs⟩ := hx.name
  have hlf : LF ∉ cs ++ COLON :: x.value := by
    rw [List.mem_append, List.mem_cons]
    rintro (h | h | h)
    · exact not_mem_of_class hcs (by decide) h
    · exact absurd h (by decide)
    · exact not_mem_of_class hx.value (by decide) h
  have hb : x.bytes ++ l = c :: ((cs ++ COLON :: x.value) ++ (x.eol.bytes ++ l)) := by
    simp [HeaderLine.bytes, hname]
  have hs : x.startsBlank = isBlank c := by unfold HeaderLine.startsBlank; rw [hname]; rfl
  unfold nameStart at hc
  simp only [Bool.and_eq_true, bne_iff_ne, ne_eq] at hc
  rw [hb, hs, opensBlank, if_pos rfl]
  cases hbl : isBlank c with
  | true => rfl
  | false =>
    rw [if_neg (by decide), if_neg (by simp [hc.1.1, hc.1.2]), opensBlank_skip _ _ hlf,
      opensBlank_eol,
      Bool.false_or]

theorem opensBlank_headers (xs : List HeaderLine) (hx : ∀ x ∈ xs, x.WellFormed) (l : Bytes) :
    opensBlank true (xs.flatMap HeaderLine.bytes ++ l)
      = (xs.any HeaderLine.startsBlank || opensBlank true l) := by
  induction xs with
  | nil => rfl
  | cons x xs ih =>
    obtain ⟨h1, h2⟩ := List.forall_mem_cons.mp hx
    rw [List.flatMap_cons, List.append_assoc, opensBlank_header x h1, ih h2, List.any_cons,
      Bool.or_assoc]

theorem opensBlank_head (h : Head) (hw : h.WellFormed) (l : Bytes) :
    opensBlank false (h.bytes ++ l) = h.headers.any HeaderLine.startsBlank := by
  have hm : LF ∉ h.method.bytes := by cases h.method <;> decide
  have hv : LF ∉ h.version.bytes := by cases h.version <;> decide
  have hlf : LF ∉ h.method.bytes ++ SP :: (h.uri ++ SP :: h.version.bytes) := by
    simp only [List.mem_append, List.mem_cons]
    rintro (h1 | h1 | h1 | h1 | h1)
    · exact hm h1
    · exact absurd h1 (by decide)
    · exact not_mem_of_class hw.uri.2 (by decide) h1
    · exact absurd h1 (by decide)
    · exact hv h1
  have hb : h.bytes ++ l = (h.method.bytes ++ SP :: (h.uri ++ SP :: h.version.bytes))
    ++ (h.eol.bytes
      ++ (h.headers.flatMap HeaderLine.bytes ++ (h.lastEol.bytes ++ l))) := by
    simp [Head.bytes]
  rw [hb, opensBlank_skip _ _ hlf, opensBlank_eol, opensBlank_headers _ hw.headers, opensBlank_end,
    Bool.or_false]

/-! ## the names of an accepted request -/

theorem not_whitespace_of_nameByte {c : UInt8} (h : nameByte c = true) :
    isWhitespace c = false := by
  unfold nameByte at h
  unfold isWhitespace
  simp only [Bool.and_eq_true, bne_iff_ne, ne_eq] at h
  simp [h]

/-- white space in a well-formed name can only be its first byte -/
theorem name_clean_iff {x : HeaderLine} (hx : x.WellFormed) :
    (∀ c ∈ x.name, isWhitespace c = false) ↔ x.startsBlank = false := by
  obtain ⟨c, cs, hname, hc, hcs⟩ := hx.name
  have hs : x.startsBlank = isBlank c := by unfold HeaderLine.startsBlank; rw [hname]; rfl
  have hw : isWhitespace c = isBlank c := by
    refine isWhitespace_value c ?_
    unfold nameStart at hc
    unfold valueByte
    rw [Bool.and_eq_true] at hc
    exact hc.1
  rw [hname, List.forall_mem_cons, hs, hw]
  exact ⟨fun h => h.1, fun h => ⟨h, fun d hd => not_whitespace_of_nameByte (hcs d hd)⟩⟩

theorem strip_clean {l : Bytes} (h : ∀ c ∈ l, isWhitespace c = false) :
    Bytes.strip isWhitespace l = l := by
  unfold Bytes.strip
  have h1 : l.dropWhile isWhitespace = l := by
    cases l with
    | nil => rfl
    | cons c cs => rw [List.dropWhile_cons_of_neg (by rw [h c List.mem_cons_self]; decide)]
  rw [h1, List.rdropWhile_eq_self_iff]
  intro hne
  rw [h _ (List.getLast_mem hne)]
  decide

theorem hygienic_iff {b : Bytes} {h : Head} {n : Nat} {req : HttpRequest} (H : Accepts b h n)
    (E : Extracts b h n req) :
    Hygienic b req ↔ ∀ x ∈ h.headers, x.startsBlank = false := by
  have hnames : req.headers.map (·.nameBytes b) = h.headers.map (·.name) := by
    have h1 := congrArg (List.map Prod.fst) E.headers
    rwa [List.map_map, List.map_map] at h1
  have hall : (∀ x ∈ req.headers, ∀ c ∈ x.nameBytes b, isWhitespace c = false) ↔
      ∀ x ∈ h.headers, x.startsBlank = false := by
    have h1 : (∀ w ∈ req.headers.map (·.nameBytes b), ∀ c ∈ w, isWhitespace c = false) ↔
        ∀ w ∈ h.headers.map (·.name), ∀ c ∈ w, isWhitespace c = false := by rw [hnames]
    rw [List.forall_mem_map, List.forall_mem_map] at h1
    exact h1.trans ⟨fun h2 x hx => (name_clean_iff (H.wellFormed.headers x hx)).mp (h2 x hx),
      fun h2 x hx => (name_clean_iff (H.wellFormed.headers x hx)).mpr (h2 x hx)⟩
  refine ⟨fun h1 => hall.mp h1.1, fun h1 => ?_⟩
  have hclean := hall.mpr h1
  have hseems : ∀ name, ∀ x ∈ req.headers, x.seemsNamed b name = Bytes.eqFold
    (x.nameBytes b) name := by
    intro name x hx
    unfold HttpHeader.seemsNamed HttpHeader.trimmedName
    rw [strip_clean (hclean x hx)]
  obtain ⟨hte, hcl⟩ := H.declares
  refine ⟨hclean, fun x hx => ?_, ?_⟩
  · rw [hseems _ x hx]
    have hmem : x.nameBytes b ∈ h.headers.map (·.name) := hnames ▸ List.mem_map_of_mem hx
    obtain ⟨y, hy, hyn⟩ := List.mem_map.mp hmem
    rw [← hyn]
    exact hte y hy
  · have hlen : (req.headers.filter (·.seemsNamed b contentLengthName)).length
        = (h.headers.filter (·.isNamed contentLengthName)).length := by
      rw [List.filter_congr (hseems contentLengthName)]
      have h2 := congrArg (fun l => (l.filter (Bytes.eqFold · contentLengthName)).length) hnames
      simp only [List.filter_map, List.length_map] at h2
      exact h2
    rw [hlen]
    rcases hcl with ⟨h2, -⟩ | ⟨x, h2, -⟩
    · rw [h2]
      exact Nat.zero_le 1
    · rw [h2]
      exact Nat.le_refl 1

/-- **An accepted request has clean names exactly when no line of its head starts with a blank.** -/
theorem feedChunks_hygienic_iff (chunks : List Bytes)
    (h : (feedChunks [] HttpRequest.fresh chunks).err.code = .none) :
    Hygienic chunks.flatten (feedChunks [] HttpRequest.fresh chunks).req ↔
      opensBlank false chunks.flatten = false := by
  have ho := outcome_feedChunks chunks
  have hc : (parseWhole chunks.flatten) = feedChunks [] HttpRequest.fresh chunks := by
    unfold outcome at ho
    rw [if_neg (by rw [h]; decide)] at ho
    split at ho
    · cases ho
    · exact (Sum.inr.inj ho).symm
  rw [← hc] at h ⊢
  obtain ⟨hd, n, H⟩ := (parseWhole_accepts chunks.flatten).1.mp h
  rw [hygienic_iff H ((parseWhole_accepts chunks.flatten).2 hd n H)]
  obtain ⟨tail, htail⟩ := H.head
  rw [← htail, opensBlank_head hd H.wellFormed tail, List.any_eq_false]
  simp only [Bool.not_eq_true]

theorem feedChunks_hygienic_get :
    Hygienic (ascii "GET / HTTP/1.1\r\nHost: a\r\n\r\n")
        (feedChunks [] HttpRequest.fresh [ascii "GET / HTTP/1.1\r\n", ascii "Host: a\r\n\r\n"]).req
        ↔
      opensBlank false (ascii "GET / HTTP/1.1\r\nHost: a\r\n\r\n") = false :=
  feedChunks_hygienic_iff [ascii "GET / HTTP/1.1\r\n", ascii "Host: a\r\n\r\n"] (by decide +kernel)

/-- a Transfer-Encoding hides behind the blank in front of it -/
theorem hidden_transferEncoding : ¬ ∀ chunks : List Bytes,
    (feedChunks [] HttpRequest.fresh chunks).err.code = .none →
      Hygienic chunks.flatten (feedChunks [] HttpRequest.fresh chunks).req := by
  intro h
  have h1 := h [ascii "GET / HTTP/1.1\r\n Transfer-Encoding: chunked\r\n\r\n"] (by decide +kernel)
  exact absurd h1 (by decide +kernel)

end Http
