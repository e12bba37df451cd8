import CloudLedger.Proofs.Archive
import CloudLedger.Proofs.Csv
import CloudLedger.Proofs.Identity
import CloudLedger.Proofs.StateFile.Decimals
import CloudLedger.Table.Cleaning

/-!
# Archived tables are read back

A table that has been archived is read as its header and one row for each report, in order and with
the cells that were written, whatever characters they hold.  A row gives back every field of its
report but the two figures, which stand in it as texts.  Without reports the file is empty.
-/

namespace CloudLedger

open Files Table Text

/-- A report without its figures. -/
def Report.bare {α : Type} (r : Report α) : Report Unit :=
  ⟨r.id, r.line, r.accountName, r.period, r.unit, ⟨(), ()⟩⟩

namespace Text

/-- Read a numeral that may have a minus sign. -/
def readWhole? (s : String) : Option Int :=
  match s.toList with
  | '-' :: ds => (readDigits? ds).map fun n : Nat ↦ -(n : Int)
  | ds => (readDigits? ds).map fun n : Nat ↦ (n : Int)

theorem readDigits?_natNumeral (n : Nat) : readDigits? (natNumeral n).toList = some n := by
  have hdigits : (natNumeral n).toList ≠ [] ∧ (natNumeral n).toList.all isDigit := by
    rw [natNumeral, String.toList_ofList, List.all_eq_true]
    exact ⟨Nat.toDigits_ne_nil, fun c hc ↦ StateFile.isDigit_of_mem_toDigits hc⟩
  have hvalue : digitsValue (natNumeral n).toList = n := by
    rw [natNumeral, String.toList_ofList]
    exact Nat.ofDigitChars_ten_toDigits
  rw [readDigits?, if_pos hdigits, hvalue]

theorem readWhole?_intNumeral (n : Int) : readWhole? (intNumeral n) = some n := by
  unfold intNumeral
  split
  · rename_i hneg
    have hminus : ("-" ++ natNumeral n.natAbs).toList = '-' :: (natNumeral n.natAbs).toList := by
      rw [String.toList_append]
      rfl
    have habs : -(n.natAbs : Int) = n := by omega
    rw [readWhole?, hminus]
    change (readDigits? (natNumeral n.natAbs).toList).map (fun n : Nat ↦ -(n : Int)) = some n
    rw [readDigits?_natNumeral, Option.map_some, habs]
  · rename_i hnonneg
    have hminus : '-' ∉ (natNumeral n.natAbs).toList := not_mem_natNumeral (by decide) _
    have habs : (n.natAbs : Int) = n := by omega
    rw [readWhole?]
    split
    · rename_i ds hds
      exact absurd (hds ▸ List.mem_cons_self) hminus
    · rw [readDigits?_natNumeral, Option.map_some, habs]

theorem intNumeral_natCast (n : Nat) : intNumeral n = natNumeral n := by
  rw [intNumeral, if_neg (by omega), Int.natAbs_natCast]

end Text

theorem Provider.ofTag?_tag (p : Provider) : ofTag? p.tag = some p := by
  cases p <;> rfl

namespace Archive

variable {σ : Type} {s t : σ} {d e : Disk} {folder written : FilePath} {period : Period}
  {reports : List (Report Float)}

/-- The report that a row is about, without its figures. -/
def reportOf? : Row → Option (Report Unit)
  | [id, account, accountName, day, month, year, service, region, tag, _, unit, _] => do
    let period : Period :=
      ⟨.ofNat (← readDigits? day.toList), .ofNat (← readDigits? month.toList),
        .ofInt (← readWhole? year)⟩
    let line : Line := ⟨← Provider.ofTag? tag, account, service, region⟩
    return ⟨⟨id⟩, line, accountName, period, unit, ⟨(), ()⟩⟩
  | _ => none

/-- The cells of a report. -/
theorem row_eq (r : Report Float) :
    row r =
      [r.id.digest, r.line.account, r.accountName, natNumeral r.period.day.toNat,
        natNumeral r.period.month.toNat, intNumeral r.period.year.toInt, r.line.service,
        r.line.region, r.line.provider.tag, Amount.Layout.sheet.text r.measures.usage, r.unit,
        Amount.Layout.sheet.text r.measures.cost] := by
  rw [← intNumeral_natCast, ← intNumeral_natCast]
  rfl

/-- Nothing but the figures of a report is lost in its row. -/
theorem reportOf?_row (r : Report Float) : reportOf? (row r) = some r.bare := by
  have hperiod : (⟨.ofNat r.period.day.toNat, .ofNat r.period.month.toNat,
      .ofInt r.period.year.toInt⟩ : Period) = r.period := by
    rw [UInt32.ofNat_toNat, UInt32.ofNat_toNat, Int32.ofInt_toInt]
  rw [row_eq, reportOf?, readDigits?_natNumeral, readDigits?_natNumeral, readWhole?_intNumeral,
    Provider.ofTag?_tag]
  change some (⟨r.id, r.line, r.accountName, _, r.unit, ⟨(), ()⟩⟩ : Report Unit) = some r.bare
  rw [hperiod, Report.bare]

theorem not_isPrefixOf_write (rows : List Row) :
    ¬ Csv.byteOrderMark.isPrefixOf (Csv.write (header :: rows)) := by
  have hfirst : (Csv.writeRow header).head? = some 0x49 := by decide +kernel
  obtain ⟨rest, hrest⟩ := List.head?_eq_some_iff.mp hfirst
  rw [Csv.write, List.flatMap_cons, hrest, List.cons_append]
  exact Bool.false_ne_true

/-- A table with reports is read as its header and their rows. -/
theorem read_table (hne : reports ≠ []) :
    Csv.read (table reports) = header :: reports.map row := by
  rw [table, if_neg hne]
  refine Csv.read_write ?_ (not_isPrefixOf_write _)
  intro cells hcells
  rcases List.mem_cons.mp hcells with rfl | hrow
  · decide
  · obtain ⟨r, -, rfl⟩ := List.mem_map.mp hrow
    exact (by decide : 1 < 12)

/-- An archived table is read back without loss: the file of a written table holds its header and
the rows of the reports in order, and from each row its report is found again, up to the figures. -/
theorem read_of_write (h : (write folder period reports).run (s, d) = .ok written (t, e)) :
    ∃ bytes, e.read written = .ok bytes ∧
      (reports = [] → bytes = []) ∧
      (reports ≠ [] →
        RowStream.ofBytes bytes =
          { rows :=
              ["ID", "Account Number", "Account Name", "Day", "Month", "Year", "Service Type",
                "Region", "Provider", "Usage Quantity", "Unit Of Measurement", "Cost"] ::
              reports.map fun r ↦
                [r.id.digest, r.line.account, r.accountName, natNumeral r.period.day.toNat,
                  natNumeral r.period.month.toNat, intNumeral r.period.year.toInt, r.line.service,
                  r.line.region, r.line.provider.tag, Amount.Layout.sheet.text r.measures.usage,
                  r.unit, Amount.Layout.sheet.text r.measures.cost]
            failure := none } ∧
        (RowStream.ofBytes bytes).rows.tail.map reportOf? = reports.map (some ∘ Report.bare)) := by
  have hread := read_eq_table h
  obtain ⟨rfl, -⟩ := write_eq_ok h
  refine ⟨table reports, hread, fun hempty ↦ if_pos hempty, fun hne ↦ ⟨?_, ?_⟩⟩
  · rw [RowStream.ofBytes, read_table hne, List.map_congr_left fun r _ ↦ row_eq r]
    rfl
  · rw [RowStream.ofBytes, read_table hne, List.tail_cons, List.map_map]
    exact List.map_congr_left fun r _ ↦ reportOf?_row r

/-! ## Cells that need quotes -/

section Quotes

def quotedReports : List (Report Float) :=
  [⟨⟨"any \"id\""⟩, ⟨.gcp, "", " Compute,\r\nEngine ", "\""⟩, "é\n", ⟨31, 2, -5⟩, "", ⟨1.5, 0.1⟩⟩,
    ⟨⟨""⟩, ⟨.azure, "1", "Storage", ""⟩, ",", ⟨1, 12, 2016⟩, "GB", ⟨0, 1e16⟩⟩]

def quotedTable : FilePath := ⟨"out/2016-February-normalized-billing-data.csv"⟩

/-- Two reports full of quotes, commas and line ends are read back from the file. -/
theorem read_of_write_quotes :
    ∃ e, (write ⟨"out"⟩ ⟨29, 2, 2016⟩ quotedReports).run ((), { here := [] }) =
        .ok quotedTable ((), e) ∧
      ∃ bytes, e.read quotedTable = .ok bytes ∧
        (RowStream.ofBytes bytes).rows.tail =
          [["any \"id\"", "", "é\n", "31", "2", "-5", " Compute,\r\nEngine ", "\"", "GCP", "1.5",
              "", "0.1"],
            ["", "1", ",", "1", "12", "2016", "Storage", "", "Azure", "0.0", "GB", "1e16"]] ∧
        (RowStream.ofBytes bytes).rows.tail.map reportOf? =
          quotedReports.map (some ∘ Report.bare) := by
  have hrun : ∃ e, (write ⟨"out"⟩ ⟨29, 2, 2016⟩ quotedReports).run ((), { here := [] }) =
      .ok quotedTable ((), e) := ⟨_, rfl⟩
  obtain ⟨e, he⟩ := hrun
  obtain ⟨bytes, hbytes, -, hread⟩ := read_of_write he
  obtain ⟨hrows, hreports⟩ := hread (by decide)
  refine ⟨e, he, bytes, hbytes, ?_, hreports⟩
  rw [hrows]
  decide +kernel

end Quotes

end Archive

end CloudLedger
