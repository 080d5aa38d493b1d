/-
A file read line by line, as `bufio.Scanner` does with its default split function: a line is what stands before a
newline or, at the end of the file, what is left, unless nothing is.
-/
import Mathlib.Data.List.Basic

namespace Quorum

def newline : UInt8 := 10

/-- The lines of a file, with the carriage returns they may end in. -/
def lines : List UInt8 → List (List UInt8)
  | [] => []
  | b :: bs =>
    if b = newline then [] :: lines bs
    else
      match lines bs with
      | [] => [[b]]
      | l :: ls => (b :: l) :: ls

/-- `dropCR`. -/
def dropCR (l : List UInt8) : List UInt8 := if l.getLast? = some 13 then l.dropLast else l

/-- `bufio.MaxScanTokenSize`: from this length on, a line does not fit into the scanner's buffer with its newline. -/
def maxScanTokenSize : Nat := 64 * 1024

theorem lines_terminated {l : List UInt8} (h : newline ∉ l) (rest : List UInt8) :
    lines (l ++ newline :: rest) = l :: lines rest := by
  induction l with
  | nil => exact if_pos rfl
  | cons b l ih =>
    obtain ⟨hb, hl⟩ := not_or.1 (List.mem_cons.not.1 h)
    rw [List.cons_append, lines, if_neg (Ne.symm hb), ih hl]

theorem lines_last {l : List UInt8} (h : newline ∉ l) (hne : l ≠ []) : lines l = [l] := by
  induction l with
  | nil => exact absurd rfl hne
  | cons b l ih =>
    obtain ⟨hb, hl⟩ := not_or.1 (List.mem_cons.not.1 h)
    rw [lines, if_neg (Ne.symm hb)]
    cases l with
    | nil => rfl
    | cons c l => rw [ih hl (List.cons_ne_nil c l)]

theorem dropCR_of_not_mem {l : List UInt8} (h : 13 ∉ l) : dropCR l = l :=
  if_neg fun hlast => h (List.mem_of_getLast? hlast)

end Quorum
