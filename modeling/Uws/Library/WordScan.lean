import Mathlib

/-! The words of a text, each one folded: a word begins with a byte that starts one, and has the bytes inside of words behind it. -/

namespace Uws.WordScan

variable {α β : Type*} (starts inside : α → Bool) (step : β → α → β) (init : β)

def scan : Option β → List α → List β
  | current, [] => current.toList
  | none, c :: text => if starts c then scan (some (step init c)) text else scan none text
  | some word, c :: text => if inside c then scan (some (step word c)) text else word :: scan none text

variable {starts inside step init}

theorem scan_skip (text : List α) :
    scan starts inside step init none text = scan starts inside step init none (text.dropWhile fun c => !starts c) := by
  induction text with
  | nil => rfl
  | cons c text ih =>
    by_cases begin_ : starts c = true
    · rw [List.dropWhile_cons_of_neg (by rw [begin_]; decide)]
    · rw [scan, if_neg begin_, ih, List.dropWhile_cons_of_pos (by rw [eq_false_of_ne_true begin_]; rfl)]

theorem scan_word (apart : ∀ c, starts c = true → inside c = true) (word : β) (text : List α) :
    scan starts inside step init (some word) text =
      (text.takeWhile inside).foldl step word :: scan starts inside step init none (text.dropWhile inside) := by
  induction text generalizing word with
  | nil => rfl
  | cons c text ih =>
    by_cases more : inside c = true
    · rw [scan, if_pos more, ih, List.takeWhile_cons_of_pos more, List.dropWhile_cons_of_pos more, List.foldl_cons]
    · rw [scan, if_neg more, List.takeWhile_cons_of_neg more, List.dropWhile_cons_of_neg more, scan,
        if_neg fun begin_ => more (apart c begin_)]
      rfl

theorem scan_append (apart : ∀ c, starts c = true → inside c = true) {c : α} (outside : inside c = false) (current : Option β)
    (front back : List α) :
    scan starts inside step init current (front ++ c :: back) =
      scan starts inside step init current front ++ scan starts inside step init none back := by
  have more : ¬ inside c = true := by
    rw [outside]
    decide
  have closed : ¬ starts c = true := fun begin_ => more (apart c begin_)
  induction front generalizing current with
  | nil =>
    cases current with
    | none => exact if_neg closed
    | some word => exact if_neg more
  | cons d front ih =>
    cases current with
    | none =>
      rw [List.cons_append, scan, scan]
      split
      · exact ih _
      · exact ih _
    | some word =>
      rw [List.cons_append, scan, scan]
      split
      · exact ih _
      · rw [ih, List.cons_append]

theorem scan_separators (apart : ∀ c, starts c = true → inside c = true) {blank : List α}
    (outside : ∀ c ∈ blank, inside c = false) (text : List α) :
    scan starts inside step init none (blank ++ text) = scan starts inside step init none text := by
  rw [scan_skip, List.dropWhile_append_of_pos, ← scan_skip]
  intro c member
  cases begin_ : starts c with
  | false => rfl
  | true => exact absurd (apart c begin_) (by rw [outside c member]; decide)

theorem scan_length (current : Option β) (text : List α) :
    (scan starts inside step init current text).length ≤ text.length + current.toList.length := by
  induction text generalizing current with
  | nil => exact Nat.le_add_left _ _
  | cons c text ih =>
    cases current with
    | none =>
      rw [scan]
      split
      · exact Nat.le_trans (ih _) (Nat.le_refl _)
      · exact Nat.le_trans (ih _) (Nat.le_succ _)
    | some word =>
      rw [scan]
      split
      · exact Nat.le_trans (ih _) (Nat.add_le_add_right (Nat.le_succ _) 1)
      · exact Nat.le_trans (Nat.succ_le_succ (ih none)) (Nat.le_succ _)

end Uws.WordScan
