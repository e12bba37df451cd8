import CloudLedger.Text.Blank
import Mathlib.Data.List.Basic

/-!
# Trimming

A trimmed text neither begins nor ends with a blank.  If a text is trimmed already, then trimming
drops whatever blanks are put around it and nothing else.
-/

namespace CloudLedger.Text

variable {cs : List Char} {s before after : String}

/-- Whether a text has a blank neither at its start nor at its end. -/
def IsTrimmed (s : String) : Prop :=
  (∀ c, s.toList.head? = some c → ¬ isBlank c) ∧ ∀ c, s.toList.getLast? = some c → ¬ isBlank c

theorem toList_trim (s : String) : (trim s).toList = trimChars s.toList := String.toList_ofList

theorem not_isBlank_of_trimFront {c : Char} (h : (trimFront cs).head? = some c) :
    ¬ isBlank c := by
  have hhead := List.head?_dropWhile_not isBlank cs
  rw [trimFront] at h
  rw [h] at hhead
  simpa using hhead

theorem isTrimmed_trim (s : String) : IsTrimmed (trim s) := by
  constructor
  · intro c hc
    rw [toList_trim, trimChars] at hc
    have hprefix : (trimFront (trimFront s.toList).reverse).reverse <+: trimFront s.toList := by
      rw [← List.reverse_suffix, List.reverse_reverse]
      exact List.dropWhile_suffix isBlank
    obtain ⟨more, hmore⟩ := hprefix
    apply @not_isBlank_of_trimFront s.toList
    rw [← hmore, List.head?_append, hc, Option.some_or]
  · intro c hc
    rw [toList_trim, trimChars, List.getLast?_reverse] at hc
    exact not_isBlank_of_trimFront hc

theorem trimFront_of_head? (h : ∀ c, cs.head? = some c → ¬ isBlank c) : trimFront cs = cs := by
  cases cs with
  | nil => rfl
  | cons c rest => exact List.dropWhile_cons_of_neg (h c rfl)

theorem trimFront_append {blanks : List Char} (hblanks : ∀ c ∈ blanks, isBlank c)
    (h : ∀ c, cs.head? = some c → ¬ isBlank c) : trimFront (blanks ++ cs) = cs := by
  rw [trimFront, List.dropWhile_append_of_pos hblanks]
  exact trimFront_of_head? h

/-- Trimming drops the blanks around a trimmed text. -/
theorem trim_surrounded (hs : IsTrimmed s) (hne : s ≠ "") (hbefore : isBlankText before)
    (hafter : isBlankText after) : trim (before ++ s ++ after) = s := by
  have hcs : s.toList ≠ [] := by simpa using hne
  have hfront : trimFront (before ++ s ++ after).toList = s.toList ++ after.toList := by
    rw [String.toList_append, String.toList_append, List.append_assoc]
    apply trimFront_append (List.all_eq_true.mp hbefore)
    rw [List.head?_append_of_ne_nil _ hcs]
    exact hs.1
  have hback : trimFront (s.toList ++ after.toList).reverse = s.toList.reverse := by
    have hblanks : ∀ c ∈ after.toList.reverse, isBlank c := fun c hc ↦
      List.all_eq_true.mp hafter c (List.mem_reverse.mp hc)
    rw [List.reverse_append]
    apply trimFront_append hblanks
    rw [List.head?_reverse]
    exact hs.2
  rw [trim, trimChars, hfront, hback, List.reverse_reverse, String.ofList_toList]

end CloudLedger.Text
