import CloudLedger.Proofs.Calendar
import CloudLedger.Proofs.Numerals
import CloudLedger.Proofs.Trimming
import CloudLedger.Usage.Dating

/-!
# Dates given by three cells

A day, a month and a year are each taken from their own cell, or from the reference day where that
cell holds no number within the bounds.  So the month of a line item is always one of the twelve and
its day one that some month has, although the two need not make a date.
-/

namespace CloudLedger.Usage

open Calendar Text

variable {low high n : Nat} {cell : String}

/-- Whether a part of a date is the number in a cell if that lies between two bounds, and is the
part of another date if the cell holds no such number. -/
structure TakenFrom (cell : String) (low high : Nat) (missing part : Int) : Prop where
  eq_number : ∀ n : Nat, IsNumeral (trim cell).toList n → low ≤ n → n ≤ high → part = n
  eq_missing : (∀ n : Nat, IsNumeral (trim cell).toList n → ¬ (low ≤ n ∧ n ≤ high)) → part = missing

theorem numberIn?_eq_some (hhigh : high ≤ greatestUnsigned) : numberIn? low high cell = some n ↔
    IsNumeral (trim cell).toList n ∧ low ≤ n ∧ n ≤ high := by
  rw [numberIn?, Option.filter_eq_some_iff, readUnsigned?_eq_some, toList_trim, Bool.and_eq_true,
    decide_eq_true_iff, decide_eq_true_iff]
  constructor
  · rintro ⟨⟨hnumeral, -⟩, hbounds⟩
    exact ⟨hnumeral, hbounds⟩
  · rintro ⟨hnumeral, hlow, hle⟩
    exact ⟨⟨hnumeral, hle.trans hhigh⟩, hlow, hle⟩

theorem yearIn?_eq_some : yearIn? cell = some (n : Int) ↔
    IsNumeral (trim cell).toList n ∧ 1 ≤ n ∧ n ≤ 9999 := by
  rw [yearIn?, Option.filter_eq_some_iff, toList_trim, Bool.and_eq_true, decide_eq_true_iff,
    decide_eq_true_iff]
  constructor
  · rintro ⟨hread, hfirst, hlast⟩
    have hnumeral := (readSigned?_eq_some (by omega)).mp hread
    exact ⟨hnumeral.1, by omega, by omega⟩
  · rintro ⟨hnumeral, hfirst, hlast⟩
    have hfits : n ≤ greatestSigned := hlast.trans (by decide)
    exact ⟨(readSigned?_eq_some hfirst).mpr ⟨hnumeral, hfits⟩, by omega, by omega⟩

theorem exists_nat_of_yearIn? {year : Int} (h : yearIn? cell = some year) :
    ∃ n : Nat, year = n := by
  have hbounds := (Option.filter_eq_some_iff.mp h).2
  rw [Bool.and_eq_true, decide_eq_true_iff] at hbounds
  exact ⟨year.toNat, by omega⟩

/-- A part is taken from its cell if it is read from there exactly when the cell holds a number within
the bounds, and then as that number. -/
theorem takenFrom_getD {Word : Type} {word? : Option Word} {missing : Word} (toInt : Word → Int)
    (hread : ∀ n : Nat, IsNumeral (trim cell).toList n → low ≤ n → n ≤ high →
      ∃ word, word? = some word ∧ toInt word = n)
    (hword : ∀ word, word? = some word →
      ∃ n, IsNumeral (trim cell).toList n ∧ low ≤ n ∧ n ≤ high) :
    TakenFrom cell low high (toInt missing) (toInt (word?.getD missing)) where
  eq_number n hnumeral hlow hle := by
    obtain ⟨word, hsome, hvalue⟩ := hread n hnumeral hlow hle
    rw [hsome, Option.getD_some, hvalue]
  eq_missing hmissing := by
    cases hsome : word? with
    | none => rfl
    | some word =>
      obtain ⟨n, hnumeral, hbounds⟩ := hword word hsome
      exact absurd hbounds (hmissing n hnumeral)

theorem takenFrom_numberIn? (hhigh : high ≤ greatestUnsigned) (missing : UInt32) :
    TakenFrom cell low high missing.toNat
      (((numberIn? low high cell).map UInt32.ofNat).getD missing).toNat := by
  apply takenFrom_getD fun word : UInt32 ↦ (word.toNat : Int)
  · intro n hnumeral hlow hle
    have hword : (UInt32.ofNat n).toNat = n :=
      UInt32.toNat_ofNat_of_lt' (Nat.lt_of_le_of_lt (hle.trans hhigh) (by decide))
    rw [(numberIn?_eq_some hhigh).mpr ⟨hnumeral, hlow, hle⟩, Option.map_some]
    exact ⟨_, rfl, by rw [hword]⟩
  · intro word hword
    obtain ⟨n, hn, -⟩ := Option.map_eq_some_iff.mp hword
    exact ⟨n, (numberIn?_eq_some hhigh).mp hn⟩

theorem takenFrom_yearIn? (missing : Int32) :
    TakenFrom cell 1 9999 missing.toInt
      (((yearIn? cell).map Int32.ofInt).getD missing).toInt := by
  apply takenFrom_getD Int32.toInt
  · intro n hnumeral hfirst hlast
    rw [yearIn?_eq_some.mpr ⟨hnumeral, hfirst, hlast⟩, Option.map_some]
    exact ⟨_, rfl, Int32.toInt_ofInt_of_le (by omega) (by omega)⟩
  · intro word hword
    obtain ⟨year, hyear, -⟩ := Option.map_eq_some_iff.mp hword
    obtain ⟨n, rfl⟩ := exists_nat_of_yearIn? hyear
    exact ⟨n, yearIn?_eq_some.mp hyear⟩

/-- Bounds hold of a part if they hold of what stands in for it. -/
theorem TakenFrom.mem {missing part : Nat} (h : TakenFrom cell low high missing part)
    (hmissing : low ≤ missing ∧ missing ≤ high) : low ≤ part ∧ part ≤ high := by
  by_cases hnumber : ∃ n, IsNumeral (trim cell).toList n ∧ low ≤ n ∧ n ≤ high
  · obtain ⟨n, hnumeral, hlow, hle⟩ := hnumber
    have := h.eq_number n hnumeral hlow hle
    omega
  · have := h.eq_missing fun n hnumeral hbounds ↦ hnumber ⟨n, hnumeral, hbounds⟩
    omega

theorem hasMonth_periodOfCells {today : Period} (h : today.HasMonth) (day month year : String) :
    (periodOfCells today day month year).HasMonth :=
  (takenFrom_numberIn? (by decide) today.month).mem h

theorem hasDay_periodOfCells {today : Period} (h : today.HasDay) (day month year : String) :
    (periodOfCells today day month year).HasDay :=
  (takenFrom_numberIn? (by decide) today.day).mem h

/-- Each part of a date comes from its own cell alone: the number in it if that is a numeral within
the bounds, and the part of the reference day otherwise.  Month and day are always within theirs. -/
theorem parts_of_cells (today : Date) (day month year : String) :
    let period := periodOfCells (.ofDate today) day month year
    TakenFrom day 1 31 today.day period.day.toNat ∧
      TakenFrom month 1 12 today.month period.month.toNat ∧
      TakenFrom year 1 9999 today.year period.year.toInt ∧
      (∀ day' month' year',
        (periodOfCells (.ofDate today) day month' year').day = period.day ∧
        (periodOfCells (.ofDate today) day' month year').month = period.month ∧
        (periodOfCells (.ofDate today) day' month' year).year = period.year) ∧
      period.HasMonth ∧ period.HasDay := by
  intro period
  have hday : TakenFrom day 1 31 today.day period.day.toNat := by
    rw [← Period.ofDate_day today]
    exact takenFrom_numberIn? (by decide) _
  have hmonth : TakenFrom month 1 12 today.month period.month.toNat := by
    rw [← Period.ofDate_month today]
    exact takenFrom_numberIn? (by decide) _
  have hyear : TakenFrom year 1 9999 today.year period.year.toInt := by
    rw [← Period.ofDate_year today]
    exact takenFrom_yearIn? _
  exact ⟨hday, hmonth, hyear, fun _ _ _ ↦ ⟨rfl, rfl, rfl⟩,
    hasMonth_periodOfCells (Period.hasMonth_ofDate today) day month year,
    hasDay_periodOfCells (Period.hasDay_ofDate today) day month year⟩

/-- Leading zeros do not matter, while a number that a word cannot hold is no number. -/
example : periodOfCells ⟨15, 3, 2016⟩ " +0000000000000007" "4294967298" "-5" = ⟨7, 3, 2016⟩ := by
  decide +kernel

end CloudLedger.Usage
