import CloudLedger.Identity
import CloudLedger.Proofs.Utf8
import Mathlib.Data.List.Basic

/-!
# What an identity is taken of

Seven texts are written one after the other, with a separator between them, and digested.  Neither
the provider nor the numerals of the day hold a separator, so that they can be told from what stands
between them.  The account, the service and the region are free texts: they are told apart only as
long as none of them holds a separator itself.
-/

namespace CloudLedger

open Text

/-! ## Parts of a list -/

section Cutting

variable {β : Type} {mark : β} {front back front' back' : List β}

/-- What stands before the first mark, and what stands after it. -/
theorem cut_at_first (hfront : mark ∉ front) (hfront' : mark ∉ front')
    (h : front ++ mark :: back = front' ++ mark :: back') : front = front' ∧ back = back' := by
  rcases List.append_eq_append_iff.mp h with ⟨more, hmore, hback⟩ | ⟨more, hmore, hback⟩
  · cases more with
    | nil => exact ⟨by simpa using hmore.symm, by simpa using hback⟩
    | cons first rest =>
      obtain ⟨rfl, -⟩ := List.cons.inj hback
      exact absurd (hmore ▸ List.mem_append_right front List.mem_cons_self) hfront'
  · cases more with
    | nil => exact ⟨by simpa using hmore, by simpa using hback.symm⟩
    | cons first rest =>
      obtain ⟨rfl, -⟩ := List.cons.inj hback
      exact absurd (hmore ▸ List.mem_append_right front' List.mem_cons_self) hfront

/-- What stands before the last mark, and what stands after it. -/
theorem cut_at_last (hback : mark ∉ back) (hback' : mark ∉ back')
    (h : front ++ mark :: back = front' ++ mark :: back') : front = front' ∧ back = back' := by
  have hreverse := congrArg List.reverse h
  simp only [List.reverse_append, List.reverse_cons, List.append_assoc, List.singleton_append]
    at hreverse
  obtain ⟨hsame, hrest⟩ := cut_at_first (by simpa using hback) (by simpa using hback') hreverse
  exact ⟨List.reverse_inj.mp hrest, List.reverse_inj.mp hsame⟩

end Cutting

/-! ## Texts between separators -/

namespace Text

theorem Utf8.encode_append (s t : String) :
    Utf8.encode (s ++ t) = Utf8.encode s ++ Utf8.encode t := by
  simp [Utf8.encode]

theorem Utf8.encode_injective {s t : String} (h : Utf8.encode s = Utf8.encode t) : s = t := by
  have hdecoded := congrArg Utf8.decode? h
  rwa [Utf8.decode?_encode, Utf8.decode?_encode, Option.some.injEq] at hdecoded

/-- Texts between separators are encoded one by one. -/
theorem Utf8.encode_intercalate (separator : String) (texts : List String) :
    Utf8.encode (separator.intercalate texts) =
      (Utf8.encode separator).intercalate (texts.map Utf8.encode) := by
  induction texts with
  | nil => rfl
  | cons first rest ih =>
    cases rest with
    | nil => simp
    | cons second rest =>
      rw [String.intercalate_cons_cons, Utf8.encode_append, Utf8.encode_append, ih]
      simp only [List.map_cons, List.intercalate_cons_cons]

theorem natNumeral_injective {m n : Nat} (h : natNumeral m = natNumeral n) : m = n := by
  have hdigits : Nat.toDigits 10 m = Nat.toDigits 10 n := String.ofList_injective h
  rw [← @Nat.ofDigitChars_ten_toDigits m, hdigits, Nat.ofDigitChars_ten_toDigits]

theorem not_mem_natNumeral {c : Char} (hc : ¬ c.isDigit) (n : Nat) : c ∉ (natNumeral n).toList := by
  rw [natNumeral, String.toList_ofList]
  exact fun hmem ↦ hc (Nat.isDigit_of_mem_toDigits (by decide) (by decide) hmem)

theorem intNumeral_injective {m n : Int} (h : intNumeral m = intNumeral n) : m = n := by
  have hminus (m n : Nat) : "-" ++ natNumeral m ≠ natNumeral n := by
    intro heq
    have hmem : '-' ∈ (natNumeral n).toList := by simp [← heq]
    exact not_mem_natNumeral (by decide) n hmem
  unfold intNumeral at h
  split_ifs at h with hm hn hn
  · have hsame : m.natAbs = n.natAbs := natNumeral_injective (by simpa using h)
    omega
  · exact absurd h (hminus _ _)
  · exact absurd h.symm (hminus _ _)
  · have hsame : m.natAbs = n.natAbs := natNumeral_injective h
    omega

theorem not_mem_intNumeral {c : Char} (hc : ¬ c.isDigit) (hminus : c ≠ '-') (n : Int) :
    c ∉ (intNumeral n).toList := by
  unfold intNumeral
  split_ifs
  · simp [hminus, not_mem_natNumeral hc]
  · exact not_mem_natNumeral hc _

end Text

theorem Provider.tag_injective {p q : Provider} (h : p.tag = q.tag) : p = q := by
  cases p <;> cases q <;> simp_all [tag]

namespace Identity

/-- The character of the separator. -/
def mark : Char := '\x1F'

end Identity

namespace Line

open Identity

/-- The account, the service and the region with separators between them. -/
def joined (line : Line) : String :=
  (String.singleton mark).intercalate [line.account, line.service, line.region]

/-- Whether neither the account nor the service nor the region holds a separator. -/
def IsPlain (line : Line) : Prop :=
  mark ∉ line.account.toList ∧ mark ∉ line.service.toList ∧ mark ∉ line.region.toList

instance (line : Line) : Decidable line.IsPlain := inferInstanceAs (Decidable (_ ∧ _ ∧ _))

theorem toList_joined (line : Line) : line.joined.toList =
    line.account.toList ++ mark :: (line.service.toList ++ mark :: line.region.toList) := by
  simp [joined]

/-- Texts without separators are found again between them. -/
theorem eq_of_joined {line other : Line} (hline : line.IsPlain) (hother : other.IsPlain)
    (hprovider : line.provider = other.provider) (h : line.joined = other.joined) :
    line = other := by
  have hchars := congrArg String.toList h
  rw [toList_joined, toList_joined] at hchars
  obtain ⟨haccount, hrest⟩ := cut_at_first hline.1 hother.1 hchars
  obtain ⟨hservice, hregion⟩ := cut_at_first hline.2.1 hother.2.1 hrest
  cases line
  cases other
  rw [Line.mk.injEq]
  exact ⟨hprovider, String.toList_inj.mp haccount, String.toList_inj.mp hservice,
    String.toList_inj.mp hregion⟩

end Line

namespace Identity

variable {line other : Line} {period day : Period}

/-- The bytes of an identity are those of one text. -/
theorem preimage_eq_encode (line : Line) (period : Period) : preimage line period =
    Utf8.encode ((String.singleton mark).intercalate (parts line period)) := by
  have hmark : Utf8.encode (String.singleton mark) = [separator] := by decide
  rw [Utf8.encode_intercalate, hmark, preimage]

theorem toList_intercalate_parts (line : Line) (period : Period) :
    ((String.singleton mark).intercalate (parts line period)).toList =
      line.provider.tag.toList ++ mark :: (((line.joined.toList ++
        mark :: (intNumeral period.year.toInt).toList) ++
        mark :: (natNumeral period.month.toNat).toList) ++
        mark :: (natNumeral period.day.toNat).toList) := by
  simp [parts, Line.toList_joined]

/-- The bytes of two identities are the same exactly if provider, day and joined texts are. -/
theorem preimage_eq_iff : preimage line period = preimage other day ↔
    line.provider = other.provider ∧ period = day ∧ line.joined = other.joined := by
  rw [preimage_eq_encode, preimage_eq_encode]
  constructor
  · intro h
    have hchars := congrArg String.toList (Utf8.encode_injective h)
    rw [toList_intercalate_parts, toList_intercalate_parts] at hchars
    have htag (p : Provider) : mark ∉ p.tag.toList := by cases p <;> decide
    have hnat (n : Nat) : mark ∉ (natNumeral n).toList := not_mem_natNumeral (by decide) n
    have hint (n : Int) : mark ∉ (intNumeral n).toList :=
      not_mem_intNumeral (by decide) (by decide) n
    obtain ⟨hprovider, hrest⟩ := cut_at_first (htag _) (htag _) hchars
    obtain ⟨hrest, hday⟩ := cut_at_last (hnat _) (hnat _) hrest
    obtain ⟨hrest, hmonth⟩ := cut_at_last (hnat _) (hnat _) hrest
    obtain ⟨hjoined, hyear⟩ := cut_at_last (hint _) (hint _) hrest
    refine ⟨Provider.tag_injective (String.toList_inj.mp hprovider), ?_,
      String.toList_inj.mp hjoined⟩
    cases period
    cases day
    rw [Period.mk.injEq]
    exact ⟨UInt32.toNat_inj.mp (natNumeral_injective (String.toList_inj.mp hday)),
      UInt32.toNat_inj.mp (natNumeral_injective (String.toList_inj.mp hmonth)),
      Int32.toInt_inj.mp (intNumeral_injective (String.toList_inj.mp hyear))⟩
  · rintro ⟨hprovider, rfl, hjoined⟩
    have hchars := toList_intercalate_parts line period
    rw [hprovider, hjoined, ← toList_intercalate_parts] at hchars
    rw [String.toList_inj.mp hchars]

end Identity

end CloudLedger
