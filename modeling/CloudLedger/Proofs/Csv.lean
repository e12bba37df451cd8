import CloudLedger.Proofs.Utf8
import CloudLedger.Table.Csv

/-!
# Written tables are read back

A cell that is written, in quotes or not, is read to its last byte, and leaves the reader where a
comma divides cells and a line feed ends the row.  Only an empty cell that is a row of its own would
be lost: its line is empty.  Tables whose rows have at least two cells are therefore read back as
they were, whatever their cells hold.
-/

namespace CloudLedger.Table.Csv

open Text

variable {position : Position} {d : Draft} {done : List (List UInt8)} {b : UInt8}
  {cell rest : List UInt8}

/-! ## One byte -/

theorem readFrom_quoted :
    readFrom .quoted d (b :: rest) =
      if b = quote then readFrom .closing d rest else readFrom .quoted (d.push b) rest := by
  rw [readFrom]

theorem readFrom_closing_quote :
    readFrom .closing d (quote :: rest) = readFrom .quoted (d.push quote) rest := by
  rw [readFrom, if_pos ⟨rfl, nofun⟩, if_pos rfl]
  exact nofun

/-- A quote at the start of a cell is not part of it. -/
theorem readFrom_quote (h : position = .rowStart ∨ position = .cellStart) :
    readFrom position d (quote :: rest) = readFrom .quoted d rest := by
  rcases h with rfl | rfl <;> rw [readFrom, if_pos ⟨rfl, nofun⟩, if_neg nofun] <;> exact nofun

/-- Outside quotes, a byte other than a quote has its effect. -/
theorem readFrom_of_ne_quote (h : position ≠ .quoted) (hb : b ≠ quote) :
    readFrom position d (b :: rest) =
      match effect b with
      | .divide => readFrom .cellStart d.close rest
      | .keep => readFrom .plain (d.push b) rest
      | .finish =>
        if position = .rowStart then readFrom .rowStart d rest
        else d.row :: readFrom .rowStart {} rest := by
  have hnot : ¬ (b = quote ∧ position ≠ .plain) := fun hquote ↦ hb hquote.1
  cases heffect : effect b <;> simp only [readFrom, if_neg hnot, heffect]

theorem readFrom_comma (h : position ≠ .quoted) :
    readFrom position d (comma :: rest) = readFrom .cellStart d.close rest := by
  rw [readFrom_of_ne_quote h (by decide)]
  rfl

theorem readFrom_lineFeed (h : position ≠ .quoted) (hstart : position ≠ .rowStart) :
    readFrom position d (lineFeed :: rest) = d.row :: readFrom .rowStart {} rest := by
  have heffect : effect lineFeed = .finish := rfl
  rw [readFrom_of_ne_quote h (by decide), heffect]
  exact if_neg hstart

theorem readFrom_keep (h : position ≠ .quoted) (hb : ¬ needsQuotes b) :
    readFrom position d (b :: rest) = readFrom .plain (d.push b) rest := by
  simp only [needsQuotes, Bool.or_eq_true, decide_eq_true_eq, not_or] at hb
  obtain ⟨⟨hcomma, hquote⟩, hrow⟩ := hb
  have heffect : effect b = .keep := by rw [effect, if_neg hcomma, if_neg hrow]
  rw [readFrom_of_ne_quote h hquote, heffect]

/-! ## One cell -/

theorem readFrom_plain (hcell : ∀ b ∈ cell, ¬ needsQuotes b) :
    readFrom .plain d (cell ++ rest) = readFrom .plain ⟨d.cells, cell.reverse ++ d.cell⟩ rest := by
  induction cell generalizing d with
  | nil => rfl
  | cons b more ih =>
    obtain ⟨hb, hmore⟩ := List.forall_mem_cons.mp hcell
    have hplain : Position.plain ≠ .quoted := nofun
    rw [List.cons_append, readFrom_keep hplain hb, ih hmore, List.reverse_cons, List.append_assoc]
    rfl

/-- Within quotes everything is read as it was, up to the quote that closes them. -/
theorem readFrom_doubled :
    readFrom .quoted d
        (cell.flatMap (fun b ↦ if b = quote then [quote, quote] else [b]) ++ quote :: rest) =
      readFrom .closing ⟨d.cells, cell.reverse ++ d.cell⟩ rest := by
  induction cell generalizing d with
  | nil => rw [List.flatMap_nil, List.nil_append, readFrom_quoted, if_pos rfl]; rfl
  | cons b more ih =>
    have hpush (rest : List UInt8) :
        readFrom .quoted d ((if b = quote then [quote, quote] else [b]) ++ rest) =
          readFrom .quoted (d.push b) rest := by
      split
      · rename_i hquote
        rw [List.cons_append, readFrom_quoted, if_pos rfl, List.singleton_append,
          readFrom_closing_quote, hquote]
      · rename_i hquote
        rw [List.singleton_append, readFrom_quoted, if_neg hquote]
    rw [List.flatMap_cons, List.append_assoc, hpush, ih, List.reverse_cons, List.append_assoc]
    rfl

/-- Where the reader is after a cell that it met at a position. -/
def afterCell (position : Position) (cell : List UInt8) : Position :=
  if cell.any needsQuotes then .closing else if cell = [] then position else .plain

theorem afterCell_ne_quoted (h : position ≠ .quoted) : afterCell position cell ≠ .quoted := by
  unfold afterCell
  split_ifs
  · exact nofun
  · exact h
  · exact nofun

theorem afterCell_ne_rowStart (h : position ≠ .rowStart ∨ cell ≠ []) :
    afterCell position cell ≠ .rowStart := by
  unfold afterCell
  split_ifs with hquotes hempty
  · exact nofun
  · exact h.resolve_right (fun hcell ↦ hcell hempty)
  · exact nofun

/-- A written cell is read whole. -/
theorem readFrom_writeCell (h : position = .rowStart ∨ position = .cellStart) :
    readFrom position ⟨done, []⟩ (writeCell cell ++ rest) =
      readFrom (afterCell position cell) ⟨done, cell.reverse⟩ rest := by
  unfold writeCell afterCell
  split_ifs with hquotes hempty
  · rw [List.cons_append, List.cons_append, List.append_assoc, readFrom_quote h,
      List.singleton_append, readFrom_doubled, List.append_nil]
  · rw [hempty]
    rfl
  · have hplain : ∀ b ∈ cell, ¬ needsQuotes b := by simpa using hquotes
    obtain ⟨first, more, rfl⟩ := List.exists_cons_of_ne_nil hempty
    obtain ⟨hfirst, hmore⟩ := List.forall_mem_cons.mp hplain
    have hposition : position ≠ .quoted := by rcases h with rfl | rfl <;> exact nofun
    rw [List.cons_append, readFrom_keep hposition hfirst, readFrom_plain hmore, List.reverse_cons]
    rfl

/-! ## Rows -/

/-- Written cells are read as a row, unless they are a single empty one. -/
theorem readFrom_cells {first : List UInt8} {more : List (List UInt8)}
    (h : position = .rowStart ∨ position = .cellStart)
    (hline : position ≠ .rowStart ∨ first ≠ [] ∨ more ≠ []) :
    readFrom position ⟨done, []⟩
        ([comma].intercalate ((first :: more).map writeCell) ++ lineFeed :: rest) =
      (done.reverse ++ first :: more) :: readFrom .rowStart {} rest := by
  have hposition : position ≠ .quoted := by rcases h with rfl | rfl <;> exact nofun
  induction more generalizing position first done with
  | nil =>
    have hends : position ≠ .rowStart ∨ first ≠ [] := by simpa using hline
    rw [List.map_singleton, List.intercalate_singleton, readFrom_writeCell h,
      readFrom_lineFeed (afterCell_ne_quoted hposition) (afterCell_ne_rowStart hends)]
    simp [Draft.row, Draft.close]
  | cons second more ih =>
    rw [List.map_cons, List.map_cons, List.intercalate_cons_cons, ← List.map_cons,
      List.append_assoc, List.append_assoc, readFrom_writeCell h, List.singleton_append,
      readFrom_comma (afterCell_ne_quoted hposition), Draft.close, List.reverse_reverse,
      ih (.inr rfl) (.inl nofun) nofun]
    simp

theorem readFrom_writeRow {row : Row} (h : 1 < row.length) :
    readFrom .rowStart {} (writeRow row ++ rest) =
      row.map Utf8.encode :: readFrom .rowStart {} rest := by
  obtain ⟨first, second, more, rfl⟩ : ∃ first second more, row = first :: second :: more := by
    match row, h with
    | first :: second :: more, _ => exact ⟨first, second, more, rfl⟩
  have hcells : (first :: second :: more).map (fun cell ↦ writeCell (Utf8.encode cell)) =
      (Utf8.encode first :: (second :: more).map Utf8.encode).map writeCell := by
    rw [← List.map_cons, List.map_map]
    rfl
  rw [writeRow, hcells, List.append_assoc, List.singleton_append]
  exact readFrom_cells (.inl rfl) (.inr (.inr nofun))

theorem readFrom_write {rows : List Row} (h : ∀ row ∈ rows, 1 < row.length) :
    readFrom .rowStart {} (write rows) = rows.map fun row ↦ row.map Utf8.encode := by
  induction rows with
  | nil => rfl
  | cons row more ih =>
    obtain ⟨hrow, hmore⟩ := List.forall_mem_cons.mp h
    rw [write, List.flatMap_cons, readFrom_writeRow hrow, List.map_cons, ← ih hmore, write]

/-- A table is read back as it was written, unless it starts with a mark that is dropped. -/
theorem read_write {rows : List Row} (h : ∀ row ∈ rows, 1 < row.length)
    (hmark : ¬ byteOrderMark.isPrefixOf (write rows)) : read (write rows) = rows := by
  have hcells (row : Row) : (row.map Utf8.encode).map Utf8.decodeLossy = row := by
    rw [List.map_map]
    exact List.map_id'' Utf8.decodeLossy_encode row
  rw [read, dropMark, if_neg hmark, readFrom_write h, List.map_map]
  exact List.map_id'' hcells rows

end CloudLedger.Table.Csv
