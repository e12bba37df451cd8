import CloudLedger.Proofs.ColumnNames
import CloudLedger.Proofs.Csv
import CloudLedger.Proofs.FailingExports

/-!
# Rows that carry no usage

Banners, blank lines, short rows and records that are no line items may stand anywhere in an export
that yields reports: with any number of them in any places it yields the same reports.  Above the
header only such rows are allowed that cleaning drops, since the first other row is the header.
-/

namespace CloudLedger

/-- Whether a list is another one with elements of some kind inserted. -/
inductive Interspersed {β : Type} (P : β → Prop) : List β → List β → Prop where
  | nil : Interspersed P [] []
  | keep (b : β) {items more : List β} :
      Interspersed P items more → Interspersed P (b :: items) (b :: more)
  | insert {b : β} {items more : List β} :
      P b → Interspersed P items more → Interspersed P items (b :: more)

namespace Interspersed

variable {β γ : Type} {P : β → Prop} {items more : List β}

theorem sublist (h : Interspersed P items more) : items.Sublist more := by
  induction h with
  | nil => exact .slnil
  | keep b _ ih => exact ih.cons_cons b
  | insert _ _ ih => exact ih.cons _

/-- A function that is undefined on what is inserted does not see it. -/
theorem filterMap_eq {f : β → Option γ} (h : Interspersed P items more)
    (hnone : ∀ b, P b → f b = none) : more.filterMap f = items.filterMap f := by
  induction h with
  | nil => rfl
  | keep b _ ih => rw [List.filterMap_cons, List.filterMap_cons, ih]
  | insert hb _ ih => rw [List.filterMap_cons_none (hnone _ hb), ih]

end Interspersed

namespace Usage

open Table Text

/-! ## Line items -/

/-- The name of the column that tells line items from other records. -/
def itemColumn : Provider → String
  | .aws => "RecordType"
  | .azure => "Consumed Service"
  | .gcp => "Line Item"

/-- Whether a cell of that column belongs to a line item. -/
def MarksItem : Provider → String → Prop
  | .aws, cell => trim cell = "PayerLineItem" ∨ trim cell = "LinkedLineItem"
  | .azure, cell => ¬ isBlankText cell
  | .gcp, cell => ¬ isBlankText cell

instance (provider : Provider) (cell : String) : Decidable (MarksItem provider cell) :=
  match provider with
  | .aws => inferInstanceAs (Decidable (_ ∨ _))
  | .azure => inferInstanceAs (Decidable (¬ _))
  | .gcp => inferInstanceAs (Decidable (¬ _))

section Items

variable {α : Type} [Amount α]

theorem Aws.report?_eq_none {region : String} {period : Period} {record : Record Aws.Column} :
    (Aws.report? region period record : Option (Report α)) = none ↔
      ¬ MarksItem .aws (record .recordType) := by
  unfold Aws.report?
  split_ifs with hitem <;>
    simpa [Aws.isItem, Aws.itemTypes, MarksItem, or_iff_not_imp_left] using hitem

theorem Azure.report?_eq_none {today : Period} {record : Record Azure.Column} :
    (Azure.report? today record : Option (Report α)) = none ↔
      ¬ MarksItem .azure (record .consumedService) := by
  unfold Azure.report?
  split_ifs with hblank <;> simpa [MarksItem] using hblank

theorem Gcp.report?_eq_none {today : Period} {record : Record Gcp.Column} :
    (Gcp.report? today record : Option (Report α)) = none ↔
      ¬ MarksItem .gcp (record .lineItem) := by
  unfold Gcp.report?
  split_ifs with hblank <;> simpa [MarksItem] using hblank

end Items

namespace Dialect

variable {α : Type} {d : Dialect α} {rows padded below : List Row} {header : Row}
  {reports : List (Report α)}

instance (d : Dialect α) : Columns d.Column := d.columns

/-! ## Reports of rows -/

/-- The reports of raw rows. -/
def ofRows (d : Dialect α) (rows : List Row) : Except Fault (List (Report α)) := do
  let kept ← RowStream.clean d.width { rows }
  let records ← records d.Column d.provider kept
  return d.reports records

theorem ofExport_eq_ofRows (d : Dialect α) (bytes : List UInt8) :
    d.ofExport bytes = d.ofRows (Csv.read bytes) := rfl

/-- The report of a cleaned row under some names. -/
def reportUnder? (d : Dialect α) (names : List String) (row : Row) : Option (Report α) :=
  (Record.ofRow? names row).bind d.report?

theorem reports_filterMap (d : Dialect α) (names : List String) (rows : List Row) :
    d.reports (rows.filterMap (Record.ofRow? names)) = rows.filterMap (d.reportUnder? names) := by
  rw [Dialect.reports, List.filterMap_filterMap]
  rfl

/-- Rows yield reports exactly if the first row that is left names no column twice and some other
one has a cell under each name. -/
theorem ofRows_eq_ok [LawfulColumns d.Column] : d.ofRows rows = .ok reports ↔
    ∃ header below, rows.filterMap d.width.cleaned? = header :: below ∧
      NamesOnce d.Column (columnNames header) ∧ (∃ row ∈ below, header.length ≤ row.length) ∧
      reports = below.filterMap (d.reportUnder? (columnNames header)) := by
  constructor
  · intro h
    obtain ⟨kept, hkept, hread⟩ := bind_eq_ok.mp h
    obtain ⟨records, hrecords, hreports⟩ := bind_eq_ok.mp hread
    obtain ⟨-, rfl, hne⟩ := RowStream.clean_eq_ok.mp hkept
    obtain ⟨header, below, hcut⟩ := List.exists_cons_of_ne_nil hne
    rw [hcut] at hrecords
    obtain ⟨honce, hlong, rfl⟩ := records_eq_ok.mp hrecords
    refine ⟨header, below, hcut, honce, hlong, ?_⟩
    rw [← Except.ok.inj hreports, reports_filterMap]
  · rintro ⟨header, below, hcut, honce, hlong, rfl⟩
    have hkept : RowStream.clean d.width { rows } = .ok (header :: below) :=
      RowStream.clean_eq_ok.mpr ⟨rfl, hcut.symm, List.cons_ne_nil _ _⟩
    have hrecords : records d.Column d.provider (header :: below) = .ok _ :=
      records_eq_ok.mpr ⟨honce, hlong, rfl⟩
    refine bind_eq_ok.mpr ⟨_, hkept, bind_eq_ok.mpr ⟨_, hrecords, ?_⟩⟩
    rw [reports_filterMap]
    rfl

/-! ## Idle rows -/

/-- Whether a row carries no usage below a header: cleaning drops it, it is shorter than the header
or it is no line item. -/
def IsIdle (d : Dialect α) (header row : Row) : Prop :=
  d.width.Drops row ∨ row.length < header.length ∨
    ¬ MarksItem d.provider (cellUnder (columnNames header) row (itemColumn d.provider))

instance (d : Dialect α) (header row : Row) : Decidable (d.IsIdle header row) :=
  inferInstanceAs (Decidable (_ ∨ _ ∨ _))

/-- Whether some rows are others with idle rows inserted: rows that cleaning drops anywhere, and
below the header any idle ones. -/
inductive Padded (d : Dialect α) : List Row → List Row → Prop where
  | insert {row : Row} {rows padded : List Row} :
      d.width.Drops row → Padded d rows padded → Padded d rows (row :: padded)
  | above {row : Row} {rows padded : List Row} :
      d.width.Drops row → Padded d rows padded → Padded d (row :: rows) (row :: padded)
  | header {header : Row} {rows padded : List Row} :
      ¬ d.width.Drops header →
      Interspersed (d.IsIdle (header.take d.width.most)) rows padded →
      Padded d (header :: rows) (header :: padded)

/-- Padding changes neither the header nor what is made of the rows below it, and loses none. -/
theorem Padded.cleaned (h : d.Padded rows padded)
    (hcut : rows.filterMap d.width.cleaned? = header :: below) :
    ∃ more, padded.filterMap d.width.cleaned? = header :: more ∧ below.Sublist more ∧
      ∀ {β : Type} (f : Row → Option β),
        (∀ row, d.IsIdle header row → (d.width.cleaned? row).bind f = none) →
        more.filterMap f = below.filterMap f := by
  induction h with
  | insert hdrops _ ih =>
    rw [List.filterMap_cons_none (Width.cleaned?_eq_none.mpr hdrops)]
    exact ih hcut
  | above hdrops _ ih =>
    rw [List.filterMap_cons_none (Width.cleaned?_eq_none.mpr hdrops)] at hcut ⊢
    exact ih hcut
  | header hkept hmore =>
    -- idleness is judged by the header as it is cut
    have hfirst := Width.cleaned?_eq_some.mpr ⟨hkept, rfl⟩
    rw [List.filterMap_cons_some hfirst, List.cons.injEq] at hcut
    obtain ⟨rfl, rfl⟩ := hcut
    refine ⟨_, List.filterMap_cons_some hfirst, hmore.sublist.filterMap _, fun f hidle ↦ ?_⟩
    rw [List.filterMap_filterMap, List.filterMap_filterMap, hmore.filterMap_eq hidle]

end Dialect

end Usage

namespace Pipeline

open Usage Table

variable {α : Type} [Amount α] {c : Configuration} {provider : Provider} {rows padded : List Row}
  {header row : Row} {reports : List (Report α)}

/-! ## Padded rows -/

instance : LawfulColumns (dialect c provider : Dialect α).Column :=
  match provider with
  | .aws => inferInstanceAs (LawfulColumns Aws.Column)
  | .azure => inferInstanceAs (LawfulColumns Azure.Column)
  | .gcp => inferInstanceAs (LawfulColumns Gcp.Column)

/-- The deciding cell of a row alone tells whether its record is a line item. -/
theorem report?_ofRow_eq_none {names : List String} :
    (dialect c provider : Dialect α).report? (Record.ofRow names row) = none ↔
      ¬ MarksItem provider (cellUnder names row (itemColumn provider)) := by
  cases provider with
  | aws => exact Aws.report?_eq_none
  | azure => exact Azure.report?_eq_none
  | gcp => exact Gcp.report?_eq_none

/-- An idle row has no report, whether it is dropped, no record or no line item. -/
theorem reportUnder?_of_isIdle
    (hwidth : header.length ≤ (dialect c provider : Dialect α).width.most)
    (h : (dialect c provider : Dialect α).IsIdle header row) :
    ((dialect c provider : Dialect α).width.cleaned? row).bind
      ((dialect c provider : Dialect α).reportUnder? (columnNames header)) = none := by
  rw [Dialect.IsIdle, dialect_provider] at h
  rw [← length_columnNames] at hwidth
  by_cases hdrops : (dialect c provider : Dialect α).width.Drops row
  · rw [Width.cleaned?_eq_none.mpr hdrops, Option.bind_none]
  · rw [Width.cleaned?_eq_some.mpr ⟨hdrops, rfl⟩, Option.bind_some, Dialect.reportUnder?,
      Record.ofRow?]
    split_ifs with hlong
    · -- a row that is long enough once it is cut is long enough before
      rw [length_columnNames] at hlong
      have hrow : ¬ row.length < header.length :=
        Nat.not_lt.mpr (hlong.trans (List.length_take_le' _ _))
      have hcell := (h.resolve_left hdrops).resolve_left hrow
      rw [← cellUnder_take hwidth] at hcell
      exact report?_ofRow_eq_none.mpr hcell
    · rfl

/-- Rows that yield reports yield the same ones with idle rows inserted. -/
theorem ofRows_of_padded (h : (dialect c provider : Dialect α).Padded rows padded)
    (hrows : (dialect c provider).ofRows rows = .ok reports) :
    (dialect c provider).ofRows padded = .ok reports := by
  obtain ⟨header, below, hcut, honce, ⟨row, hrow, hlong⟩, rfl⟩ := Dialect.ofRows_eq_ok.mp hrows
  have hwidth : header.length ≤ (dialect c provider : Dialect α).width.most := by
    obtain ⟨first, -, hfirst⟩ := List.mem_filterMap.mp (hcut ▸ List.mem_cons_self)
    exact Width.length_of_cleaned? hfirst
  obtain ⟨more, hmore, hsub, hsame⟩ := h.cleaned hcut
  refine Dialect.ofRows_eq_ok.mpr ⟨header, more, hmore, honce, ⟨row, hsub.mem hrow, hlong⟩, ?_⟩
  exact (hsame _ fun row ↦ reportUnder?_of_isIdle hwidth).symm

/-- Whether an export is another one, or has the rows of another accepted one with idle rows
inserted. -/
def PaddedExport (d : Dialect α) (bytes bytes' : List UInt8) : Prop :=
  bytes' = bytes ∨ d.accepts bytes ∧ d.Padded (Csv.read bytes) (Csv.read bytes')

theorem PaddedExport.ofExport_eq {bytes bytes' : List UInt8}
    (h : PaddedExport (dialect c provider : Dialect α) bytes bytes') :
    (dialect c provider : Dialect α).ofExport bytes' = (dialect c provider).ofExport bytes := by
  rcases h with rfl | ⟨haccepts, hpadded⟩
  · rfl
  · obtain ⟨reports, hreports⟩ := Dialect.accepts_iff.mp haccepts
    rw [hreports, Dialect.ofExport_eq_ofRows]
    exact ofRows_of_padded hpadded hreports

/-- Idle rows never matter: rows that yield reports yield the same ones with idle rows inserted, and
a pipeline yields and asks the same whatever idle rows are inserted into its accepted exports. -/
theorem run_of_padded (c : Configuration) (provider : Provider) :
    (∀ rows padded (reports : List (Report α)),
      (dialect c provider : Dialect α).Padded rows padded →
      (dialect c provider).ofRows rows = .ok reports →
      (dialect c provider).ofRows padded = .ok reports) ∧
    ∀ (lookup : Lookup α) exports exports',
      List.Forall₂ (PaddedExport (dialect c provider : Dialect α)) exports exports' →
      run c lookup provider exports' = run c lookup provider exports := by
  refine ⟨fun _ _ _ ↦ ofRows_of_padded, fun lookup exports exports' hpadded ↦ ?_⟩
  apply run_of_gather_eq
  apply gather_congr
  rw [← List.forall₂_eq_eq_eq, List.forall₂_map_left_iff, List.forall₂_map_right_iff]
  exact hpadded.flip.imp fun _ _ hexport ↦ PaddedExport.ofExport_eq hexport

/-! ### A bill with a banner and sums -/

section Bill

def billHeader : Row :=
  ["RecordType", "ProductName", "PayerAccountId", "UsageQuantity", "TotalCost"] ++
    List.replicate 24 ""

def billItem : Row := ["PayerLineItem", "disk", "1", "2", "3"] ++ List.replicate 24 ""

/-- The same bill with a banner, blank rows, an overlong sum and an item that is too short. -/
def untidyBill : List Row :=
  [["Detailed bill", ""], List.replicate 40 " ", billHeader,
    ["StatementTotal", "disk", "1", "2", "3"] ++ List.replicate 30 "x", ["", ""], billItem,
    ["PayerLineItem", "net", "1", "2", "3"]]

theorem run_of_padded_bill :
    let c : Configuration := { reference := .sixthOfApril }
    let lookup : Lookup Float := fun _ ↦ .ok none
    let report : Report Float :=
      .derived ⟨.aws, "1", "disk", c.region⟩ "" c.bookingDay "" ⟨2.0, 3.0⟩
    (dialect c .aws).ofRows untidyBill = .ok [report] ∧
      run c lookup .aws [Csv.write untidyBill] =
        run c lookup .aws [Csv.write [billHeader, billItem]] := by
  intro c lookup report
  obtain ⟨hrows, hexports⟩ := run_of_padded (α := Float) c .aws
  have hbill : (dialect c .aws).ofRows [billHeader, billItem] = .ok [report] := by decide +kernel
  have hpadded : (dialect c .aws : Dialect Float).Padded [billHeader, billItem] untidyBill := by
    refine .insert (by decide +kernel) (.insert (by decide +kernel) ?_)
    refine .header (by decide +kernel) ?_
    refine .insert (by decide +kernel) (.insert (by decide +kernel) (.keep _ ?_))
    exact .insert (by decide +kernel) .nil
  have hread : Csv.read (Csv.write [billHeader, billItem]) = [billHeader, billItem] :=
    Csv.read_write (by decide) (by decide +kernel)
  have huntidy : Csv.read (Csv.write untidyBill) = untidyBill :=
    Csv.read_write (by decide) (by decide +kernel)
  have haccepts : (dialect c .aws : Dialect Float).accepts (Csv.write [billHeader, billItem]) := by
    rw [Dialect.accepts_iff, Dialect.ofExport_eq_ofRows, hread]
    exact ⟨_, hbill⟩
  have hexport : PaddedExport (dialect c .aws : Dialect Float)
      (Csv.write [billHeader, billItem]) (Csv.write untidyBill) := by
    refine .inr ⟨haccepts, ?_⟩
    rwa [hread, huntidy]
  exact ⟨hrows _ _ _ hpadded hbill, hexports lookup _ _ (.cons hexport .nil)⟩

end Bill

end Pipeline

end CloudLedger
