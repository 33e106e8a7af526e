import CtfServer.Lib.Bytes

/-!
# Buffers that are filled from the left

Memory of a given size, stores into it, and `snprintf`.  A function gives `none` when it stores
outside of the buffer.

* `Malloc`                memory of a given size, with any contents;
* `storeAt`               stores at consecutive places, `storeAt_exact`;
* `snprintfAt limit`      what `snprintf` stores for a text, cut off where the size says;
* `snprintf`              the same with its result, and with what it leaves when it fails;
* `cString_eq`            the string in a buffer ends at its first NUL.
-/

set_option linter.unusedVariables false

namespace Buffer

/-- `malloc` -/
structure Malloc where
  run : Nat → Option Bytes
  sized : ∀ size buffer, run size = some buffer → buffer.length = size

/-- an allocator that never fails -/
def Malloc.zeroed : Malloc := ⟨fun size => some (List.replicate size 0), by
  intro size buffer h
  rw [← Option.some.inj h, List.length_replicate]⟩

/-- an allocator that always fails -/
def Malloc.exhausted : Malloc := ⟨fun _ => none, fun _ _ h => by cases h⟩

/-! ## stores -/

/-- stores at consecutive places -/
def storeAt (buffer : Bytes) (offset : Nat) (bytes : Bytes) : Option Bytes :=
  if offset + bytes.length ≤ buffer.length then
    some (buffer.take offset ++ bytes ++ buffer.drop (offset + bytes.length))
  else none

theorem storeAt_exact {out rest bytes : Bytes} (hr : bytes.length ≤ rest.length) :
    storeAt (out ++ rest) out.length bytes = some (out ++ bytes ++ rest.drop bytes.length) := by
  unfold storeAt
  rw [List.length_append, if_pos (by omega), List.take_left, ← List.drop_drop, List.drop_left]

theorem storeAt_length {buffer bytes out : Bytes} {offset : Nat}
    (h : storeAt buffer offset bytes = some out) :
    out.length = buffer.length := by
  unfold storeAt at h
  split at h
  · next hle =>
    rw [← Option.some.inj h, List.length_append, List.length_append, List.length_take,
      List.length_drop]
    omega
  · cases h

/-! ## strings -/

/-- what `%s` and `strlen` see of a buffer -/
def cString (buffer : Bytes) : Bytes := buffer.takeWhile (· != 0)

theorem cString_eq {text : Bytes} (h : (0 : UInt8) ∉ text) (rest : Bytes) :
    cString (text ++ 0 :: rest) = text := by
  unfold cString
  rw [List.takeWhile_append_of_pos]
  · simp
  · intro c hc
    rw [bne_iff_ne]
    rintro rfl
    exact h hc

theorem cString_noNul (buffer : Bytes) : (0 : UInt8) ∉ cString buffer := by
  intro h
  have h1 := List.mem_takeWhile_imp h
  exact absurd h1 (by decide)

/-- a buffer with a NUL is a string, its NUL and a rest -/
theorem exists_cString {buffer : Bytes} (h : (0 : UInt8) ∈ buffer) :
    ∃ rest, buffer = cString buffer ++ 0 :: rest := by
  induction buffer with
  | nil => cases h
  | cons c buffer ih =>
    by_cases hc : c = 0
    · rw [hc]
      exact ⟨buffer, rfl⟩
    · obtain ⟨rest, hrest⟩ := ih ((List.mem_cons.mp h).resolve_left (Ne.symm hc))
      refine ⟨rest, ?_⟩
      have hstep : cString (c :: buffer) = c :: cString buffer :=
        List.takeWhile_cons_of_pos (bne_iff_ne.mpr hc)
      rw [hstep, List.cons_append, ← hrest]

/-! ## `snprintf` -/

/-- `snprintf(buffer + offset, size, ...)`, where the format gives `text`: the text as far as the
size allows, then a NUL; `none` also for a text whose length is above the result's `limit` -/
def snprintfAt (limit : Nat) (buffer : Bytes) (offset size : Nat) (text : Bytes) : Option Bytes :=
  if limit < text.length then none
  else if size = 0 then some buffer else storeAt buffer offset (text.take (size - 1) ++ [0])

variable {limit : Nat}

/-- a text for which there is room is stored whole -/
theorem snprintfAt_append {out rest text : Bytes} (h : text.length + 1 ≤ rest.length)
    (hmax : text.length ≤ limit) :
    snprintfAt limit (out ++ rest) out.length rest.length text =
      some (out ++ text ++ 0 :: rest.drop (text.length + 1)) := by
  have hlen : (text ++ [0]).length = text.length + 1 := List.length_append
  unfold snprintfAt
  rw [if_neg (by omega), if_neg (by omega), List.take_of_length_le (by omega), storeAt_exact
    (by omega), hlen]
  simp

/-- a text for which there is just the room -/
theorem snprintfAt_whole {buffer text : Bytes} (hb : buffer.length = text.length + 1)
    (hmax : text.length ≤ limit) :
    snprintfAt limit buffer 0 (text.length + 1) text = some (text ++ [0]) := by
  have h : snprintfAt limit ([] ++ buffer) 0 buffer.length text =
    some ([] ++ text ++ 0 :: buffer.drop (text.length + 1)) :=
    snprintfAt_append (by omega) hmax
  rw [List.drop_of_length_le (by omega), List.nil_append, List.nil_append, hb] at h
  exact h

theorem snprintfAt_length {buffer out text : Bytes} {offset size : Nat}
    (h : snprintfAt limit buffer offset size text = some out) : out.length = buffer.length := by
  unfold snprintfAt at h
  split at h
  · cases h
  split at h
  · rw [Option.some.inj h]
  · exact storeAt_length h

/-- a format that is stored leaves a string that is no longer than its size -/
theorem snprintfAt_cString {buffer out text : Bytes} {size : Nat}
    (h : snprintfAt limit buffer 0 size text = some out)
    (hb : buffer.length = size) (hpos : 0 < size) :
    ∃ rest, out = cString out ++ 0 :: rest ∧ out.length = size := by
  unfold snprintfAt at h
  split at h
  · cases h
  rw [if_neg (by omega)] at h
  have hlength := storeAt_length h
  have hmem : (0 : UInt8) ∈ out := by
    unfold storeAt at h
    split at h
    · rw [← Option.some.inj h]
      simp
    · cases h
  obtain ⟨rest, hrest⟩ := exists_cString hmem
  exact ⟨rest, hrest, hlength.trans hb⟩

/-- what `snprintf` leaves in its part of the buffer when it fails -/
structure Libc where
  left : Bytes → Bytes
  sized : ∀ bytes, (left bytes).length = bytes.length

/-- the result of `snprintf` and the buffer: a text whose length is no `int` is a failure -/
def snprintf (libc : Libc) (limit : Nat) (buffer : Bytes) (offset size : Nat) (text : Bytes) :
    Option (Int × Bytes) :=
  if limit < text.length then
    if offset + size ≤ buffer.length then
      some (-1, buffer.take offset ++ libc.left (Bytes.slice buffer offset size) ++ buffer.drop
        (offset + size))
    else none
  else (snprintfAt limit buffer offset size text).map fun out => ((text.length : Int), out)

theorem snprintf_length {libc : Libc} {buffer out text : Bytes} {offset size : Nat} {n : Int}
    (h : snprintf libc limit buffer offset size text = some (n, out)) :
    out.length = buffer.length := by
  unfold snprintf at h
  split at h
  · split at h
    · next hle =>
      rw [← (Prod.mk.inj (Option.some.inj h)).2]
      unfold Bytes.slice
      simp only [List.length_append, libc.sized, List.length_take, List.length_drop]
      omega
    · cases h
  · obtain ⟨written, hwritten, he⟩ := Option.map_eq_some_iff.mp h
    rw [← (Prod.mk.inj he).2]
    exact snprintfAt_length hwritten

theorem snprintf_append (libc : Libc) (out : Bytes) {rest text : Bytes}
    (h : text.length + 1 ≤ rest.length) (hmax : text.length ≤ limit) :
    snprintf libc limit (out ++ rest) out.length rest.length text =
      some ((text.length : Int), out ++ text ++ 0 :: rest.drop (text.length + 1)) := by
  unfold snprintf
  rw [if_neg (by omega), snprintfAt_append h hmax]
  rfl

end Buffer
