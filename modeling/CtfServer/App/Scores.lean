import CtfServer.App.Output
import Mathlib.Data.Finset.Card
import Mathlib.Data.List.Sort

/-!
# `calculate_user_scores` is the definition of the score

`calculate_user_scores` (score.c) sorts the users and the answers, passes once over both arrays
with one index into the answers, and sorts the users again.

* `Qsort`                     a `qsort`: a sorted permutation of what it is given;
* `calculateUserScoresBy`     the function over any `qsort`;
* `solved`                    the challenges that a user has solved in time;
* `scoreLoop_eq`              the inner loop counts them, and leaves the answers of later users;
* `calculateUserScores_defines`  every score is 100 for each challenge solved, the users are
                              ranked by score and id, and the order of the arrays plays no part.
-/

set_option linter.unusedVariables false
set_option linter.unusedSimpArgs false

namespace App

/-! ## `qsort` -/

/-- a `qsort`, for the comparisons `le` that are total and transitive -/
structure Qsort where
  sort : {α : Type} → (α → α → Bool) → List α → List α
  perm : ∀ {α : Type} (le : α → α → Bool) (l : List α), (sort le l).Perm l
  sorted : ∀ {α : Type} (le : α → α → Bool) (l : List α),
    (∀ a b c, le a b = true → le b c = true → le a c = true) →
    (∀ a b, (le a b || le b a) = true) → (sort le l).Pairwise fun a b => le a b = true

/-- the merge sort of `calculateUserScores` -/
def Qsort.merge : Qsort where
  sort le l := l.mergeSort le
  perm le l := List.mergeSort_perm l le
  sorted le l htrans htotal := List.pairwise_mergeSort htrans htotal l

/-- `if (count > 1) qsort(..)` -/
def Qsort.run (q : Qsort) {α : Type} (le : α → α → Bool) (l : List α) : List α :=
  if l.length > 1 then q.sort le l else l

/-- `calculate_user_scores` -/
def calculateUserScoresBy (q : Qsort) (users : List PublicUser) (answers : List ScoreAnswer)
    (endEnabled : Bool) (endAt : Int) : List PublicUser :=
  let ended := fun (answer : ScoreAnswer) => endEnabled && decide (answer.createdAt ≥ endAt)
  q.run compareScores (scoreUsers ended (q.run compareUserIds users) (q.run compareAnswers answers))

namespace Qsort
variable {α : Type} (q : Qsort) (le : α → α → Bool) (l : List α)

theorem run_perm : (q.run le l).Perm l := by
  unfold run
  split_ifs with h
  · exact q.perm le l
  · exact .refl l

theorem run_sorted (htrans : ∀ a b c, le a b = true → le b c = true → le a c = true)
    (htotal : ∀ a b, (le a b || le b a) = true) :
    (q.run le l).Pairwise fun a b => le a b = true := by
  unfold run
  split_ifs with h
  · exact q.sorted le l htrans htotal
  · match l, h with
    | [], _ => exact .nil
    | [a], _ => exact List.pairwise_singleton _ a
    | a :: b :: l, h => simp at h

theorem merge_run : merge.run le l = l.mergeSort le := by
  unfold run
  split_ifs with h
  · rfl
  · match l, h with
    | [], _ => simp
    | [a], _ => simp
    | a :: b :: l, h => simp at h

end Qsort

/-- the model of the handler is the function over the merge sort -/
theorem calculateUserScores_merge : calculateUserScores = calculateUserScoresBy .merge := by
  funext users answers endEnabled endAt
  simp only [calculateUserScores, calculateUserScoresBy, Qsort.merge_run]

/-! ## the comparisons -/

theorem compareUserIds_trans (a b c : PublicUser) (h1 : compareUserIds a b = true)
    (h2 : compareUserIds b c = true) : compareUserIds a c = true := by
  simp only [compareUserIds, decide_eq_true_eq] at *
  exact List.le_trans h1 h2

theorem compareUserIds_total (a b : PublicUser) :
    (compareUserIds a b || compareUserIds b a) = true := by
  simp only [compareUserIds, Bool.or_eq_true, decide_eq_true_eq]
  exact List.le_total _ _

theorem compareAnswers_iff (a b : ScoreAnswer) : compareAnswers a b = true ↔
    a.userId ≤ b.userId ∧ (a.userId = b.userId → a.challengeId ≤ b.challengeId) := by
  unfold compareAnswers
  split_ifs with h
  · simp [h]
  · simp [h]

theorem compareAnswers_trans (a b c : ScoreAnswer) (h1 : compareAnswers a b = true)
    (h2 : compareAnswers b c = true) : compareAnswers a c = true := by
  rw [compareAnswers_iff] at *
  refine ⟨List.le_trans h1.1 h2.1, fun h => ?_⟩
  have hab : a.userId = b.userId := List.le_antisymm h1.1 (by rw [h]; exact h2.1)
  exact (h1.2 hab).trans (h2.2 (hab.symm.trans h))

theorem compareAnswers_total (a b : ScoreAnswer) :
    (compareAnswers a b || compareAnswers b a) = true := by
  rw [Bool.or_eq_true, compareAnswers_iff, compareAnswers_iff]
  by_cases h : a.userId = b.userId
  · rcases Nat.le_total a.challengeId b.challengeId with h1 | h1
    · exact .inl ⟨by rw [h]; exact List.le_refl _, fun _ => h1⟩
    · exact .inr ⟨by rw [h]; exact List.le_refl _, fun _ => h1⟩
  · rcases List.le_total a.userId b.userId with h1 | h1
    · exact .inl ⟨h1, fun h2 => absurd h2 h⟩
    · exact .inr ⟨h1, fun h2 => absurd h2.symm h⟩

theorem compareScores_iff (a b : PublicUser) : compareScores a b = true ↔
    b.score < a.score ∨ a.score = b.score ∧ a.id ≤ b.id := by
  unfold compareScores
  split_ifs with h
  · simp [h]
  · push Not at h
    simp [h]

theorem compareScores_trans (a b c : PublicUser) (h1 : compareScores a b = true)
    (h2 : compareScores b c = true) : compareScores a c = true := by
  rw [compareScores_iff] at *
  rcases h1 with h1 | ⟨h1, h3⟩
  · rcases h2 with h2 | ⟨h2, -⟩
    · exact .inl (by omega)
    · exact .inl (by omega)
  · rcases h2 with h2 | ⟨h2, h4⟩
    · exact .inl (by omega)
    · exact .inr ⟨by omega, List.le_trans h3 h4⟩

theorem compareScores_total (a b : PublicUser) :
    (compareScores a b || compareScores b a) = true := by
  rw [Bool.or_eq_true, compareScores_iff, compareScores_iff]
  rcases lt_trichotomy a.score b.score with h | h | h
  · exact .inr (.inl h)
  · rcases List.le_total a.id b.id with h1 | h1
    · exact .inl (.inr ⟨h, h1⟩)
    · exact .inr (.inr ⟨h.symm, h1⟩)
  · exact .inl (.inl h)

/-! ## the score -/

/-- the challenges that the user `id` has solved before the end -/
def solved (ended : ScoreAnswer → Bool) (id : Bytes) (answers : List ScoreAnswer) : Finset Nat :=
  ((answers.filter fun a => decide (a.userId = id) && !ended a).map (·.challengeId)).toFinset

theorem mem_solved {ended : ScoreAnswer → Bool} {id : Bytes}
    {answers : List ScoreAnswer} {n : Nat} :
    n ∈ solved ended id answers ↔
      ∃ a ∈ answers, a.userId = id ∧ ended a = false ∧ a.challengeId = n := by
  simp [solved, and_assoc]

theorem solved_cons (ended : ScoreAnswer → Bool) (id : Bytes) (a : ScoreAnswer)
    (answers : List ScoreAnswer) : solved ended id (a :: answers) =
      if a.userId = id ∧ ended a = false then insert a.challengeId (solved ended id answers)
      else solved ended id answers := by
  unfold solved
  by_cases h : a.userId = id ∧ ended a = false
  · rw [if_pos h, List.filter_cons_of_pos (by simp [h]), List.map_cons, List.toFinset_cons]
  · rw [if_neg h, List.filter_cons_of_neg (by simpa using h)]

theorem solved_perm {ended : ScoreAnswer → Bool} {id : Bytes} {a b : List ScoreAnswer}
    (h : a.Perm b) : solved ended id a = solved ended id b := by
  ext n
  rw [mem_solved, mem_solved]
  constructor
  · rintro ⟨x, hx, h1⟩
    exact ⟨x, h.mem_iff.mp hx, h1⟩
  · rintro ⟨x, hx, h1⟩
    exact ⟨x, h.mem_iff.mpr hx, h1⟩

/-- **The inner loop** counts the challenges other than the one counted last, which is not above
those to come, and leaves the answers of the users behind `id`. -/
theorem scoreLoop_eq (ended : ScoreAnswer → Bool) (id : Bytes) (score : Int) (last : Nat)
    (answers : List ScoreAnswer) (hsorted : answers.Pairwise fun a b => compareAnswers a b = true)
    (hlast : ∀ a ∈ answers, a.userId = id → last ≤ a.challengeId) :
    scoreLoop ended id score last answers =
      (score + 100 * ((solved ended id answers).erase last).card,
        answers.dropWhile fun a => !decide (id < a.userId)) := by
  induction answers generalizing score last with
  | nil => simp [scoreLoop, solved]
  | cons a answers ih =>
    obtain ⟨hhead, htail⟩ := List.pairwise_cons.mp hsorted
    have hlast' : ∀ b ∈ answers, b.userId = id → last ≤ b.challengeId :=
      fun b hb => hlast b (List.mem_cons_of_mem _ hb)
    unfold scoreLoop
    by_cases hbehind : id < a.userId
    · -- `break`: every answer from here on is of a later user
      have hnone : solved ended id (a :: answers) = ∅ := by
        ext n
        rw [mem_solved]
        simp only [Finset.notMem_empty, iff_false]
        rintro ⟨b, hb, hid, -⟩
        rcases List.mem_cons.mp hb with rfl | hb
        · exact List.lt_irrefl _ (hid ▸ hbehind)
        · have h1 := ((compareAnswers_iff a b).mp (hhead b hb)).1
          exact h1 (hid ▸ hbehind)
      rw [if_pos hbehind, hnone, List.dropWhile_cons_of_neg (by simpa using hbehind)]
      simp
    · rw [if_neg hbehind, List.dropWhile_cons_of_pos (by simpa using hbehind), solved_cons]
      by_cases hskip : a.userId < id ∨ ended a = true
      · have hno : ¬ (a.userId = id ∧ ended a = false) := by
          rintro ⟨h1, h2⟩
          rcases hskip with h3 | h3
          · exact List.lt_irrefl _ (h1 ▸ h3)
          · rw [h2] at h3
            cases h3
        rw [if_pos hskip, if_neg hno]
        exact ih score last htail hlast'
      · push Not at hskip
        have hid : a.userId = id := List.le_antisymm (List.not_lt.mp hbehind)
          (List.not_lt.mp hskip.1)
        have hended : ended a = false := by
          simpa using hskip.2
        rw [if_neg (by push Not; exact hskip), if_pos (And.intro hid hended)]
        by_cases hcount : a.challengeId = last
        · rw [if_neg (fun h => h hcount), hcount, Finset.erase_insert_eq_erase]
          exact ih score last htail hlast'
        · -- a challenge above the last one: none of the later answers is for that one
          have hlt : last < a.challengeId :=
            Nat.lt_of_le_of_ne (hlast a List.mem_cons_self hid) (Ne.symm hcount)
          have hge : ∀ b ∈ answers, b.userId = id → a.challengeId ≤ b.challengeId :=
            fun b hb h1 => ((compareAnswers_iff a b).mp (hhead b hb)).2 (hid.trans h1.symm)
          have hnot : last ∉ solved ended id answers := by
            rw [mem_solved]
            rintro ⟨b, hb, h1, -, h2⟩
            have h3 := hge b hb h1
            omega
          have hcard : ((insert a.challengeId (solved ended id answers)).erase last).card =
              ((solved ended id answers).erase a.challengeId).card + 1 := by
            rw [Finset.erase_eq_of_notMem (by simp [hnot, Ne.symm hcount]),
              ← Finset.erase_insert_eq_erase, Finset.card_erase_add_one
              (Finset.mem_insert_self _ _)]
          rw [if_pos hcount, ih _ _ htail hge, hcard]
          congr 1
          push_cast
          ring

/-- the answers that a user leaves hold all of a later user -/
theorem solved_dropWhile (ended : ScoreAnswer → Bool) (id later : Bytes) (h : id < later)
    (answers : List ScoreAnswer) :
    solved ended later (answers.dropWhile fun a => !decide (id < a.userId)) =
      solved ended later answers := by
  induction answers with
  | nil => rfl
  | cons a answers ih =>
    by_cases hbehind : id < a.userId
    · rw [List.dropWhile_cons_of_neg (by simpa using hbehind)]
    · rw [List.dropWhile_cons_of_pos (by simpa using hbehind), ih, solved_cons, if_neg]
      rintro ⟨h1, -⟩
      exact hbehind (h1 ▸ h)

/-- a user with the score of the definition -/
def withScore (ended : ScoreAnswer → Bool) (answers : List ScoreAnswer) (user : PublicUser) :
    PublicUser :=
  { user with score := 100 * (solved ended user.id answers).card }

/-- **The pass over the sorted arrays** gives every user the score of the definition. -/
theorem scoreUsers_eq (ended : ScoreAnswer → Bool) (users : List PublicUser)
    (answers : List ScoreAnswer) (husers : users.Pairwise fun a b => a.id < b.id)
    (hsorted : answers.Pairwise fun a b => compareAnswers a b = true)
    (hpos : ∀ a ∈ answers, 1 ≤ a.challengeId) :
    scoreUsers ended users answers = users.map (withScore ended answers) := by
  induction users generalizing answers with
  | nil => rfl
  | cons user users ih =>
    obtain ⟨hhead, htail⟩ := List.pairwise_cons.mp husers
    have hloop := scoreLoop_eq ended user.id 0 0 answers hsorted fun a _ _ => Nat.zero_le _
    have hzero : 0 ∉ solved ended user.id answers := by
      rw [mem_solved]
      rintro ⟨a, ha, -, -, h1⟩
      have h2 := hpos a ha
      omega
    have hsub := List.dropWhile_sublist (l := answers) fun a => !decide (user.id < a.userId)
    unfold scoreUsers
    rw [hloop, List.map_cons]
    show _ :: scoreUsers ended users _ = _
    rw [ih _ htail (hsorted.sublist hsub) fun a ha => hpos a (hsub.subset ha)]
    congr 1
    · rw [withScore, Finset.erase_eq_of_notMem hzero, Int.zero_add]
    · apply List.map_congr_left
      intro later hl
      rw [withScore, withScore, solved_dropWhile _ _ _ (hhead later hl)]

/-! ## the ranking -/

/-- by score from above, then by id -/
def Ranked (users : List PublicUser) : Prop :=
  users.Pairwise fun a b => b.score < a.score ∨ a.score = b.score ∧ a.id < b.id

/-- whether an answer counts: all do without an end, else those before it -/
def endedAt (endEnabled : Bool) (endAt : Int) (answer : ScoreAnswer) : Bool :=
  endEnabled && decide (answer.createdAt ≥ endAt)

theorem withScore_endedAt (answers : List ScoreAnswer) (endEnabled : Bool) (endAt : Int) :
    withScore (endedAt endEnabled endAt) answers = fun user => { user with score :=
      100 * ((answers.filter fun a => a.userId = user.id ∧
        (endEnabled = true → a.createdAt < endAt)).map (·.challengeId)).toFinset.card } := by
  funext user
  have h : ∀ a ∈ answers, (decide (a.userId = user.id) && !endedAt endEnabled endAt a) =
      decide (a.userId = user.id ∧ (endEnabled = true → a.createdAt < endAt)) := by
    intro a _
    cases endEnabled with
    | false => simp [endedAt]
    | true => simp [endedAt, ← decide_not]
  rw [withScore, solved, List.filter_congr h]

theorem withScore_perm {ended : ScoreAnswer → Bool} {a b : List ScoreAnswer} (h : a.Perm b) :
    withScore ended a = withScore ended b := by
  funext user
  rw [withScore, withScore, solved_perm h]

theorem calculateUserScoresBy_spec (q : Qsort) (users : List PublicUser)
    (answers : List ScoreAnswer) (endEnabled : Bool) (endAt : Int)
    (hids : (users.map (·.id)).Nodup) (hpos : ∀ a ∈ answers, 1 ≤ a.challengeId) :
    (calculateUserScoresBy q users answers endEnabled endAt).Perm
        (users.map (withScore (endedAt endEnabled endAt) answers)) ∧
      Ranked (calculateUserScoresBy q users answers endEnabled endAt) := by
  have hup := q.run_perm compareUserIds users
  have hap := q.run_perm compareAnswers answers
  have hus := q.run_sorted compareUserIds users compareUserIds_trans compareUserIds_total
  have has := q.run_sorted compareAnswers answers compareAnswers_trans compareAnswers_total
  have hstrict : (q.run compareUserIds users).Pairwise fun a b => a.id < b.id := by
    have hnd : (q.run compareUserIds users).Pairwise fun a b => a.id ≠ b.id :=
      List.pairwise_map.mp ((hup.map _).nodup_iff.mpr hids)
    refine (hus.and hnd).imp ?_
    rintro a b ⟨h1, h2⟩
    exact Std.lt_of_le_of_ne (of_decide_eq_true h1) h2
  have hpass := scoreUsers_eq (endedAt endEnabled endAt) _ _ hstrict has
    fun a ha => hpos a (hap.mem_iff.mp ha)
  rw [withScore_perm hap] at hpass
  have hperm : (calculateUserScoresBy q users answers endEnabled endAt).Perm
      (users.map (withScore (endedAt endEnabled endAt) answers)) := by
    refine (q.run_perm compareScores _).trans ?_
    show (scoreUsers (endedAt endEnabled endAt) _ _).Perm _
    rw [hpass]
    exact hup.map _
  refine ⟨hperm, ?_⟩
  have hsorted : (calculateUserScoresBy q users answers endEnabled endAt).Pairwise
      fun a b => compareScores a b = true :=
    q.run_sorted compareScores _ compareScores_trans compareScores_total
  have hnd : (calculateUserScoresBy q users answers endEnabled endAt).Pairwise
      fun a b => a.id ≠ b.id := by
    apply List.pairwise_map.mp
    refine (hperm.map (·.id)).nodup_iff.mpr ?_
    rwa [List.map_map]
  refine (hsorted.and hnd).imp ?_
  rintro a b ⟨h1, h2⟩
  rcases (compareScores_iff a b).mp h1 with h1 | ⟨h1, h3⟩
  · exact .inl h1
  · exact .inr ⟨h1, Std.lt_of_le_of_ne h3 h2⟩

theorem Ranked.unique {a b : List PublicUser} (ha : Ranked a) (hb : Ranked b) (h : a.Perm b) :
    a = b := by
  refine List.Perm.eq_of_pairwise ?_ ha hb h
  rintro x y - - (h1 | ⟨h1, h2⟩) (h3 | ⟨h3, h4⟩)
  · omega
  · omega
  · omega
  · exact absurd h4 (List.lt_asymm h2)

/-- **Scoring equals its definition**, for users with distinct ids and answers to challenges from
1 on, and for any `qsort`.  Every user gets 100 for each challenge among the answers with the
user's id that count, the users come back ranked by score and then id, and neither the order of
the users nor that of the answers nor the `qsort` plays a part. -/
theorem calculateUserScores_defines (q : Qsort) (users : List PublicUser)
    (answers : List ScoreAnswer) (endEnabled : Bool) (endAt : Int)
    (hids : (users.map (·.id)).Nodup) (hpos : ∀ a ∈ answers, 1 ≤ a.challengeId) :
    (calculateUserScoresBy q users answers endEnabled endAt).Perm
        (users.map fun user => { user with score := 100 * ((answers.filter fun a =>
          a.userId = user.id ∧ (endEnabled = true → a.createdAt < endAt)).map
            (·.challengeId)).toFinset.card }) ∧
      Ranked (calculateUserScoresBy q users answers endEnabled endAt) ∧
      ∀ q' users' answers', users'.Perm users → answers'.Perm answers →
        calculateUserScoresBy q' users' answers' endEnabled endAt =
          calculateUserScoresBy q users answers endEnabled endAt := by
  obtain ⟨hperm, hranked⟩ := calculateUserScoresBy_spec q users answers endEnabled endAt hids hpos
  refine ⟨?_, hranked, ?_⟩
  · rw [← withScore_endedAt]
    exact hperm
  · intro q' users' answers' hu ha
    obtain ⟨hperm', hranked'⟩ := calculateUserScoresBy_spec q' users' answers' endEnabled endAt
      ((hu.map _).nodup_iff.mpr hids) fun a h => hpos a (ha.mem_iff.mp h)
    rw [withScore_perm ha] at hperm'
    exact hranked'.unique hranked (hperm'.trans ((hu.map _).trans hperm.symm))

/-- three answers of one user to two challenges, the last of them late, and one of nobody -/
theorem calculateUserScores_defines_sample :
    Ranked (calculateUserScoresBy .merge [⟨ascii "b", [], 0⟩, ⟨ascii "a", [], 0⟩]
      [⟨ascii "b", 2, 5⟩, ⟨ascii "z", 1, 5⟩, ⟨ascii "b", 2, 6⟩, ⟨ascii "b", 1, 9⟩] true 9) :=
  (calculateUserScores_defines .merge _ _ true 9 (by decide) (by decide)).2.1

example : scoreUsers (endedAt true 9) [⟨ascii "a", [], 0⟩, ⟨ascii "b", [], 0⟩]
    [⟨ascii "b", 1, 9⟩, ⟨ascii "b", 2, 5⟩, ⟨ascii "b", 2, 6⟩, ⟨ascii "z", 1, 5⟩] =
      [⟨ascii "a", [], 0⟩, ⟨ascii "b", [], 100⟩] := by decide

end App
