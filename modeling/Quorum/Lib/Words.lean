/-
The words of a text: the longest stretches without a break. A break splits a text into two whose words are those of
the parts, so breaks at either end make no difference.
-/
import Mathlib.Data.List.TakeWhile

namespace Quorum

variable {α : Type} (p : α → Bool)

/-- The words between the breaks. -/
def words (l : List α) : List (List α) := (l.splitOnP p).filter fun w => !w.isEmpty

/-- The text without the breaks at its ends. -/
def trim (l : List α) : List α := ((l.dropWhile p).reverse.dropWhile p).reverse

variable {p}

@[simp] theorem words_nil : words p [] = [] := rfl

theorem words_break (before after : List α) {sep : α} (h : p sep = true) :
    words p (before ++ sep :: after) = words p before ++ words p after := by
  unfold words
  rw [List.splitOnP_append_cons before after h, List.filter_append]

theorem words_word {w : List α} (hne : w ≠ []) (h : ∀ x ∈ w, p x = false) : words p w = [w] := by
  unfold words
  rw [List.splitOnP_eq_singleton h]
  exact List.filter_cons_of_pos (by simpa using hne)

theorem words_blank_append {blank : List α} (h : ∀ x ∈ blank, p x = true) (l : List α) :
    words p (blank ++ l) = words p l := by
  induction blank with
  | nil => rfl
  | cons x blank ih =>
    obtain ⟨hx, hblank⟩ := List.forall_mem_cons.1 h
    exact (words_break [] (blank ++ l) hx).trans (ih hblank)

theorem words_append_blank (l : List α) {blank : List α} (h : ∀ x ∈ blank, p x = true) :
    words p (l ++ blank) = words p l := by
  cases blank with
  | nil => rw [List.append_nil]
  | cons x blank =>
    obtain ⟨hx, hblank⟩ := List.forall_mem_cons.1 h
    have hnone := words_blank_append hblank []
    rw [List.append_nil, words_nil] at hnone
    rw [words_break l blank hx, hnone, List.append_nil]

theorem words_trim (l : List α) : words p (trim p l) = words p l := by
  have hfront : ∀ l : List α, ∀ x ∈ l.takeWhile p, p x = true := fun l x hx => List.mem_takeWhile_imp hx
  have hstart : words p (l.dropWhile p) = words p l := by
    calc words p (l.dropWhile p)
        = words p (l.takeWhile p ++ l.dropWhile p) := (words_blank_append (hfront l) _).symm
      _ = words p l := by rw [List.takeWhile_append_dropWhile]
  have hsplit : l.dropWhile p = trim p l ++ ((l.dropWhile p).reverse.takeWhile p).reverse := by
    unfold trim
    rw [← List.reverse_append, List.takeWhile_append_dropWhile, List.reverse_reverse]
  rw [← hstart, hsplit]
  exact (words_append_blank _ fun x hx => hfront _ x (List.mem_reverse.1 hx)).symm

/-- A text that neither begins nor ends with a break is trimmed already. -/
theorem trim_eq_self {a b : α} (l : List α) (ha : p a = false) (hb : p b = false) :
    trim p (a :: l ++ [b]) = a :: l ++ [b] := by
  unfold trim
  rw [List.cons_append, List.dropWhile_cons_of_neg (by simp [ha]), ← List.cons_append, List.reverse_append,
    List.reverse_singleton, List.singleton_append, List.dropWhile_cons_of_neg (by simp [hb]), List.reverse_cons,
      List.reverse_reverse]

/-- What a text begins with, up to its first break, its first word begins with. -/
theorem beginning_of_words {w l first : List α} {rest : List (List α)} (hne : w ≠ []) (hw : ∀ x ∈ w, p x = false)
    (h : words p (w ++ l) = first :: rest) : w <+: first := by
  -- the first word ends at the first break of `l`
  have hfree : ∀ x ∈ w ++ l.takeWhile (!p ·), p x = false := by
    intro x hx
    rcases List.mem_append.1 hx with hx | hx
    · exact hw x hx
    · simpa using List.mem_takeWhile_imp hx
  have hword : words p (w ++ l.takeWhile (!p ·)) = [w ++ l.takeWhile (!p ·)] :=
    words_word (List.append_ne_nil_of_left_ne_nil hne _) hfree
  rw [← List.takeWhile_append_dropWhile (p := (!p ·)) (l := l), ← List.append_assoc] at h
  cases hdrop : l.dropWhile (!p ·) with
  | nil =>
    rw [hdrop, List.append_nil, hword] at h
    cases h
    exact List.prefix_append _ _
  | cons sep after =>
    have hsep : p sep = true := by
      have hhead := List.head_dropWhile_not (!p ·) (l := l) (by rw [hdrop]; exact List.cons_ne_nil _ _)
      simp only [hdrop, List.head_cons] at hhead
      simpa using hhead
    rw [hdrop, words_break _ _ hsep, hword] at h
    cases h
    exact List.prefix_append _ _

end Quorum
