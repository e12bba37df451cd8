import CloudLedger.Proofs.Cleaning
import CloudLedger.Usage.Aws
import CloudLedger.Usage.Azure
import CloudLedger.Usage.Gcp
import Mathlib.Data.List.FinRange

/-!
# Reading by the names of columns

A header that names no column of the records twice decides which rows are records, those with a cell
under each of its names, and what stands in each: the cell under the name of the column, unchanged.
Nothing else matters: neither where the columns stand, nor which others there are, nor what follows
the last one.  A header that names a column twice makes no row a record.
-/

namespace CloudLedger.Table

open Text

/-! ## Cells under names -/

theorem lookup_zip {names : List String} {row : Row} {name : String} {i : Nat}
    (honce : names.count name ≤ 1) (hi : names[i]? = some name) :
    (names.zip row).lookup name = row[i]? := by
  induction names generalizing row i with
  | nil => simp at hi
  | cons first rest ih =>
    cases row with
    | nil => simp
    | cons cell cells =>
      rw [List.zip_cons_cons, List.lookup_cons]
      cases i with
      | zero =>
        obtain rfl : first = name := by simpa using hi
        simp
      | succ i =>
        have hrest : rest[i]? = some name := by simpa using hi
        have hmem : name ∈ rest := List.mem_of_getElem? hrest
        have hne : name ≠ first := by
          rintro rfl
          have := List.count_pos_iff.mpr hmem
          rw [List.count_cons_self] at honce
          omega
        have hcount : rest.count name ≤ 1 := by rwa [List.count_cons_of_ne hne.symm] at honce
        rw [beq_false_of_ne hne]
        exact ih hcount hrest

theorem lookup_zip_of_not_mem {names : List String} {row : Row} {name : String}
    (h : name ∉ names) : (names.zip row).lookup name = none := by
  rw [List.lookup_eq_none_iff]
  rintro ⟨other, cell⟩ hmem
  have hother : other ∈ names := (List.of_mem_zip hmem).1
  simpa using fun heq : name = other ↦ h (heq ▸ hother)

theorem cellUnder_take {names : List String} {row : Row} {n : Nat} (h : names.length ≤ n)
    (name : String) : cellUnder names (row.take n) name = cellUnder names row name := by
  have hzip : names.zip (row.take n) = names.zip row := calc
    names.zip (row.take n) = (names.take n).zip (row.take n) := by rw [List.take_of_length_le h]
    _ = (names.zip row).take n := List.take_zipWith.symm
    _ = names.zip row := List.take_of_length_le (by rw [List.length_zip]; omega)
  rw [cellUnder, hzip, cellUnder]

/-! ## Records -/

variable {C : Type} [Columns C] {names names' header header' : List String} {row row' : Row}
  {rows rows' : List Row} {record record' : Record C} {provider : Provider}

/-- Whether no column of the records is named twice. -/
def NamesOnce (C : Type) [Columns C] (names : List String) : Prop :=
  ∀ column : C, names.count (Columns.name column) ≤ 1

/-- Whether a record is what stands under some names in a row: in every column the cell under its
name as it is, or nothing if no name is the column's. -/
structure IsRead (names : List String) (row : Row) (record : Record C) : Prop where
  cell : ∀ (column : C) (i : Nat), names[i]? = some (Columns.name column) →
    row[i]? = some (record column)
  missing : ∀ column : C, Columns.name column ∉ names → record column = ""

theorem isRead_ofRow (honce : NamesOnce C names) (hlong : names.length ≤ row.length) :
    IsRead names row (Record.ofRow names row : Record C) where
  cell column i hi := by
    have hlt : i < names.length := (List.getElem?_eq_some_iff.mp hi).1
    rw [Record.ofRow, cellUnder, lookup_zip (honce column) hi,
      List.getElem?_eq_getElem (Nat.lt_of_lt_of_le hlt hlong), Option.getD_some]
  missing column hnone := by
    rw [Record.ofRow, cellUnder, lookup_zip_of_not_mem hnone, Option.getD_none]

theorem IsRead.eq (h : IsRead names row record) (h' : IsRead names row record') :
    record = record' := by
  funext column
  by_cases hmem : Columns.name column ∈ names
  · obtain ⟨i, hi⟩ := List.mem_iff_getElem?.mp hmem
    exact Option.some.inj ((h.cell column i hi).symm.trans (h'.cell column i hi))
  · rw [h.missing column hmem, h'.missing column hmem]

/-- The record of a row, if it has a cell under every name. -/
def Record.ofRow? (names : List String) (row : Row) : Option (Record C) :=
  if names.length ≤ row.length then some (.ofRow names row) else none

/-- Kinds of records whose columns are all listed, under names of their own. -/
class LawfulColumns (C : Type) [Columns C] : Prop where
  mem_all : ∀ column : C, column ∈ Columns.all
  nodup_names : ((Columns.all (C := C)).map Columns.name).Nodup

theorem isAmbiguous_iff [LawfulColumns C] : isAmbiguous C names ↔ ¬ NamesOnce C names := by
  simp [isAmbiguous, NamesOnce, LawfulColumns.mem_all]

@[simp]
theorem length_columnNames (header : Row) : (columnNames header).length = header.length := by
  cases header <;> simp [columnNames]

theorem filterMap_ofRow? (names : List String) (rows : List Row) :
    rows.filterMap (Record.ofRow? (C := C) names) =
      (rows.filter fun row ↦ names.length ≤ row.length).map (Record.ofRow names) := by
  rw [← filterMap_ite]
  simp only [decide_eq_true_eq]
  rfl

theorem recordsUnder_of_once [LawfulColumns C] (honce : NamesOnce C names) (rows : List Row) :
    (recordsUnder names rows : List (Record C)) = rows.filterMap (Record.ofRow? names) := by
  rw [recordsUnder, if_neg (mt isAmbiguous_iff.mp (not_not.mpr honce)), filterMap_ofRow?]

theorem records_of_once [LawfulColumns C] (honce : NamesOnce C (columnNames header))
    (rows : List Row) :
    records C provider (header :: rows) =
      if rows.filterMap (Record.ofRow? (C := C) (columnNames header)) = [] then
        .error (.noValidRows provider)
      else .ok (rows.filterMap (Record.ofRow? (columnNames header))) := by
  rw [records, List.headD_cons, List.tail_cons, recordsUnder_of_once honce]

theorem records_of_twice [LawfulColumns C] (htwice : ¬ NamesOnce C (columnNames header))
    (rows : List Row) :
    records C provider (header :: rows) = .error (.noValidRows provider) := by
  rw [records, List.headD_cons, recordsUnder, if_pos (isAmbiguous_iff.mpr htwice), if_pos rfl]

theorem filterMap_ofRow?_eq_nil :
    rows.filterMap (Record.ofRow? (C := C) (columnNames header)) = [] ↔
      ∀ row ∈ rows, row.length < header.length := by
  simp [Record.ofRow?]

theorem records_eq_error [LawfulColumns C] (honce : NamesOnce C (columnNames header)) :
    records C provider (header :: rows) = .error (.noValidRows provider) ↔
      ∀ row ∈ rows, row.length < header.length := by
  rw [records_of_once honce, ← filterMap_ofRow?_eq_nil (C := C)]
  split_ifs with hnone <;> simp [hnone]

/-- There are records exactly if the header names no column twice and some row has a cell under each
of its names. -/
theorem records_eq_ok [LawfulColumns C] {found : List (Record C)} :
    records C provider (header :: rows) = .ok found ↔
      NamesOnce C (columnNames header) ∧ (∃ row ∈ rows, header.length ≤ row.length) ∧
        found = rows.filterMap (Record.ofRow? (columnNames header)) := by
  by_cases honce : NamesOnce C (columnNames header)
  · have hsome : rows.filterMap (Record.ofRow? (C := C) (columnNames header)) ≠ [] ↔
        ∃ row ∈ rows, header.length ≤ row.length := by
      rw [Ne, filterMap_ofRow?_eq_nil]
      push Not
      rfl
    rw [records_of_once honce, ← hsome]
    split_ifs with hnone
    · simp [hnone]
    · simp [honce, hnone, eq_comm]
  · simp [records_of_twice honce, honce]

theorem exists_records [LawfulColumns C] (honce : NamesOnce C (columnNames header))
    (hsome : ∃ row ∈ rows, header.length ≤ row.length) :
    ∃ found, records C provider (header :: rows) = .ok found ∧
      List.Forall₂ (IsRead (columnNames header))
        (rows.filter fun row ↦ header.length ≤ row.length) found := by
  refine ⟨_, records_eq_ok.mpr ⟨honce, hsome, rfl⟩, ?_⟩
  rw [filterMap_ofRow?, length_columnNames, List.forall₂_map_right_iff, List.forall₂_same]
  intro row hrow
  exact isRead_ofRow honce (by simpa using (List.mem_filter.mp hrow).2)

/-- Tables agree in their records if they agree row by row. -/
theorem records_congr [LawfulColumns C]
    (honce : NamesOnce C (columnNames header) ↔ NamesOnce C (columnNames header'))
    (hrows : NamesOnce C (columnNames header) → List.Forall₂ (fun row row' ↦
      (Record.ofRow? (columnNames header) row : Option (Record C)) =
        Record.ofRow? (columnNames header') row') rows rows') :
    records C provider (header' :: rows') = records C provider (header :: rows) := by
  by_cases h : NamesOnce C (columnNames header)
  · have hmaps : rows.map (Record.ofRow? (C := C) (columnNames header)) =
        rows'.map (Record.ofRow? (columnNames header')) := by
      rw [← List.forall₂_eq_eq_eq, List.forall₂_map_left_iff, List.forall₂_map_right_iff]
      exact hrows h
    have hfound := congrArg (List.filterMap id) hmaps
    simp only [List.filterMap_map, Function.id_comp] at hfound
    rw [records_of_once h, records_of_once (honce.mp h), hfound]
  · rw [records_of_twice h, records_of_twice (mt honce.mpr h)]

/-! ## Other columns and further cells -/

/-- Whether two headers have the columns of the records at the same places. -/
def SameColumns (C : Type) [Columns C] (names names' : List String) : Prop :=
  List.Forall₂ (fun name name' ↦ ∀ column : C,
    name = Columns.name column ↔ name' = Columns.name column) names names'

/-- Whether two rows have the same cells in the columns of the records, and both or neither have a
cell under every name. -/
structure SameCells (C : Type) [Columns C] (names : List String) (row row' : Row) : Prop where
  long_iff : names.length ≤ row.length ↔ names.length ≤ row'.length
  cell_eq : ∀ (column : C) (i : Nat), names[i]? = some (Columns.name column) → row[i]? = row'[i]?

theorem SameColumns.getElem?_iff (h : SameColumns C names names') (column : C) (i : Nat) :
    names[i]? = some (Columns.name column) ↔ names'[i]? = some (Columns.name column) := by
  induction h generalizing i with
  | nil => simp
  | cons hname _ ih =>
    cases i with
    | zero => simpa using hname column
    | succ i => simpa using ih i

theorem SameColumns.count_eq (h : SameColumns C names names') (column : C) :
    names.count (Columns.name column) = names'.count (Columns.name column) := by
  induction h with
  | nil => rfl
  | cons hname _ ih => simp only [List.count_cons, ih, beq_iff_eq, hname column]

theorem SameColumns.ofRow?_eq (h : SameColumns C names names') (hcells : SameCells C names row row')
    (honce : NamesOnce C names) :
    (Record.ofRow? names row : Option (Record C)) = Record.ofRow? names' row' := by
  have hlength : names'.length = names.length := (List.Forall₂.length_eq h).symm
  have honce' : NamesOnce C names' := fun column ↦ h.count_eq column ▸ honce column
  rw [Record.ofRow?, Record.ofRow?, hlength]
  by_cases hlong : names.length ≤ row.length
  · have hlong' := hcells.long_iff.mp hlong
    rw [if_pos hlong, if_pos hlong']
    have hread : IsRead names row (Record.ofRow names' row' : Record C) := by
      have hread' : IsRead names' row' (Record.ofRow names' row' : Record C) :=
        isRead_ofRow honce' (hlength.symm ▸ hlong')
      refine ⟨fun column i hi ↦ ?_, fun column hnone ↦ hread'.missing column fun hmem ↦ ?_⟩
      · rw [hcells.cell_eq column i hi]
        exact hread'.cell column i ((h.getElem?_iff column i).mp hi)
      · obtain ⟨i, hi⟩ := List.mem_iff_getElem?.mp hmem
        exact hnone (List.mem_of_getElem? ((h.getElem?_iff column i).mpr hi))
    rw [(isRead_ofRow honce hlong).eq hread]
  · rw [if_neg hlong, if_neg (mt hcells.long_iff.mpr hlong)]

/-! ## Columns in another order -/

section Rearranging

variable {n : Nat}

/-- A row with its first `n` cells rearranged: each place takes the cell from the place that the
permutation gives for it. -/
def rearrange (σ : Equiv.Perm (Fin n)) (row : Row) : Row :=
  List.ofFn (fun i ↦ row.getD (σ i) "") ++ row.drop n

theorem length_rearrange (σ : Equiv.Perm (Fin n)) (hlong : n ≤ row.length) :
    (rearrange σ row).length = row.length := by
  rw [rearrange, List.length_append, List.length_ofFn, List.length_drop]
  omega

theorem getElem?_rearrange (σ : Equiv.Perm (Fin n)) (hlong : n ≤ row.length) (i : Fin n) :
    (rearrange σ row)[i.val]? = row[(σ i).val]? := by
  have hi : (σ i).val < row.length := Nat.lt_of_lt_of_le (σ i).isLt hlong
  rw [rearrange, List.getElem?_append_left (by simp), List.getElem?_ofFn, dif_pos i.isLt,
    List.getD_eq_getElem?_getD, List.getElem?_eq_getElem hi, Option.getD_some]

theorem rearrange_perm (header : Row) (σ : Equiv.Perm (Fin header.length)) :
    (rearrange σ header).Perm header := by
  have hcells : (fun i ↦ header.getD (σ i) "") = header.get ∘ σ := by
    funext i
    simp [List.getD_eq_getElem?_getD]
  rw [rearrange, List.drop_length, List.append_nil, hcells]
  simpa using σ.ofFn_comp_perm header.get

theorem columnNames_of_unmarked (h : ∀ cell ∈ header, textMark ∉ cell.toList) :
    columnNames header = header.map trim := by
  cases header with
  | nil => rfl
  | cons first rest =>
    have hfirst : first.toList.dropWhile (· = textMark) = first.toList := by
      cases hchars : first.toList with
      | nil => rfl
      | cons c cs =>
        have hc : c ≠ textMark := by
          rintro rfl
          exact h first List.mem_cons_self (hchars ▸ List.mem_cons_self)
        rw [List.dropWhile_cons_of_neg (by simpa using hc)]
    rw [columnNames, dropTextMarks, hfirst, String.ofList_toList, List.map_cons]

/-- Without marks in a header the names are rearranged as its cells are. -/
theorem columnNames_rearrange (hmarks : ∀ cell ∈ header, textMark ∉ cell.toList)
    (σ : Equiv.Perm (Fin header.length)) :
    (columnNames (rearrange σ header)).Perm (columnNames header) ∧
      ∀ i : Fin header.length,
        (columnNames (rearrange σ header))[i.val]? = (columnNames header)[(σ i).val]? := by
  have hperm := rearrange_perm header σ
  have hmarks' : ∀ cell ∈ rearrange σ header, textMark ∉ cell.toList :=
    fun cell hcell ↦ hmarks cell (hperm.mem_iff.mp hcell)
  rw [columnNames_of_unmarked hmarks, columnNames_of_unmarked hmarks']
  refine ⟨hperm.map _, fun i ↦ ?_⟩
  rw [List.getElem?_map, List.getElem?_map, getElem?_rearrange σ le_rfl]

theorem namesOnce_of_perm (h : names'.Perm names) : NamesOnce C names' ↔ NamesOnce C names := by
  simp only [NamesOnce, h.count_eq]

theorem ofRow?_rearrange {σ : Equiv.Perm (Fin header.length)}
    (hmarks : ∀ cell ∈ header, textMark ∉ cell.toList) (hlong : header.length ≤ row.length)
    (honce : NamesOnce C (columnNames header)) :
    (Record.ofRow? (columnNames header) row : Option (Record C)) =
      Record.ofRow? (columnNames (rearrange σ header)) (rearrange σ row) := by
  obtain ⟨hperm, hnames⟩ := columnNames_rearrange hmarks σ
  have hlong' : (columnNames header).length ≤ row.length := by rwa [length_columnNames]
  have hmoved : (columnNames (rearrange σ header)).length ≤ (rearrange σ row).length := by
    rwa [hperm.length_eq, length_rearrange σ hlong]
  have hread := isRead_ofRow honce hlong'
  have hread' : IsRead (columnNames (rearrange σ header)) (rearrange σ row)
      (Record.ofRow (columnNames header) row : Record C) := by
    refine ⟨fun column i hi ↦ ?_, fun column hnone ↦ ?_⟩
    · have hlt : i < header.length := by
        have := (List.getElem?_eq_some_iff.mp hi).1
        rwa [hperm.length_eq, length_columnNames] at this
      rw [hnames ⟨i, hlt⟩] at hi
      rw [getElem?_rearrange σ hlong ⟨i, hlt⟩]
      exact hread.cell column _ hi
    · exact hread.missing column (mt hperm.mem_iff.mpr hnone)
  rw [Record.ofRow?, Record.ofRow?, if_pos hlong', if_pos hmoved,
    hread'.eq (isRead_ofRow ((namesOnce_of_perm hperm).mpr honce) hmoved)]

end Rearranging

/-! ## The header of a provider -/

/-- Under a header of its own names a record takes the cells of a row in order. -/
theorem IsRead.map_all [LawfulColumns C] (h : IsRead names row record)
    (hnames : (Columns.all (C := C)).map Columns.name = names) :
    (Columns.all (C := C)).map record = row.take names.length := by
  have hlength : names.length = (Columns.all (C := C)).length := by rw [← hnames, List.length_map]
  apply List.ext_getElem?
  intro i
  rw [List.getElem?_map]
  cases hi : (Columns.all (C := C))[i]? with
  | none =>
    have hle : names.length ≤ i := hlength ▸ List.getElem?_eq_none_iff.mp hi
    rw [List.getElem?_eq_none (Nat.le_trans (List.length_take_le _ _) hle), Option.map_none]
  | some column =>
    have hlt : i < names.length := hlength ▸ (List.getElem?_eq_some_iff.mp hi).1
    have hname : names[i]? = some (Columns.name column) := by
      rw [← hnames, List.getElem?_map, hi, Option.map_some]
    rw [List.getElem?_take_of_lt hlt, h.cell column i hname, Option.map_some]

theorem namesOnce_own [LawfulColumns C] :
    NamesOnce C ((Columns.all (C := C)).map Columns.name) := fun _ ↦
  List.nodup_iff_count_le_one.mp LawfulColumns.nodup_names _

/-- What it comes to that records of a kind are read by the names of their columns alone.  The
header `own` is the one that their provider writes. -/
structure ReadsByName (C : Type) [Columns C] (own : List String) : Prop where
  /-- A header that names no column twice: the rows with a cell under each of its names are the
  records, in their order, and there has to be one. -/
  once : ∀ provider header rows, NamesOnce C (columnNames header) →
    (records C provider (header :: rows) = .error (.noValidRows provider) ↔
      ∀ row ∈ rows, row.length < header.length) ∧
    ((∃ row ∈ rows, header.length ≤ row.length) →
      ∃ found, records C provider (header :: rows) = .ok found ∧
        List.Forall₂ (IsRead (columnNames header))
          (rows.filter fun row ↦ header.length ≤ row.length) found)
  /-- A header that names some column twice. -/
  twice : ∀ provider header rows, ¬ NamesOnce C (columnNames header) →
    records C provider (header :: rows) = .error (.noValidRows provider)
  /-- Other columns, what stands in them, and what stands to the right of all columns. -/
  others : ∀ provider header header' rows rows',
    SameColumns C (columnNames header) (columnNames header') →
    List.Forall₂ (SameCells C (columnNames header)) rows rows' →
    records C provider (header' :: rows') = records C provider (header :: rows)
  /-- The order of the columns. -/
  rearranged : ∀ provider header rows (σ : Equiv.Perm (Fin header.length)),
    (∀ cell ∈ header, textMark ∉ cell.toList) → (∀ row ∈ rows, header.length ≤ row.length) →
    records C provider (rearrange σ header :: rows.map (rearrange σ)) =
      records C provider (header :: rows)
  own_names : (Columns.all (C := C)).map Columns.name = own
  /-- The provider's own header: the cells of a row go to the columns in order. -/
  own_header : ∀ provider rows, (∃ row ∈ rows, own.length ≤ row.length) →
    ∃ found, records C provider (own :: rows) = .ok found ∧
      List.Forall₂ (fun row record ↦ (Columns.all (C := C)).map record = row.take own.length)
        (rows.filter fun row ↦ own.length ≤ row.length) found

theorem readsByName [LawfulColumns C] {own : List String}
    (hnames : (Columns.all (C := C)).map Columns.name = own) (hown : columnNames own = own) :
    ReadsByName C own where
  once provider header rows honce := ⟨records_eq_error honce, exists_records honce⟩
  twice provider header rows htwice := records_of_twice htwice rows
  others provider header header' rows rows' hcolumns hcells := by
    refine records_congr ?_ fun honce ↦ hcells.imp fun row row' hrow ↦ hcolumns.ofRow?_eq hrow honce
    simp only [NamesOnce, hcolumns.count_eq]
  rearranged provider header rows σ hmarks hlong := by
    refine records_congr (namesOnce_of_perm (columnNames_rearrange hmarks σ).1).symm fun honce ↦ ?_
    rw [List.forall₂_map_right_iff, List.forall₂_same]
    exact fun row hrow ↦ ofRow?_rearrange hmarks (hlong row hrow) honce
  own_names := hnames
  own_header provider rows hsome := by
    have honce : NamesOnce C (columnNames own) := by
      rw [hown, ← hnames]
      exact namesOnce_own
    obtain ⟨found, hfound, hread⟩ := exists_records (C := C) honce hsome
    rw [hown] at hread
    exact ⟨found, hfound, hread.imp fun row record hrecord ↦ hrecord.map_all hnames⟩

end CloudLedger.Table

namespace CloudLedger.Usage

open Table

instance : LawfulColumns Aws.Column where
  mem_all column := by cases column <;> decide
  nodup_names := by decide +kernel

instance : LawfulColumns Azure.Column where
  mem_all column := by cases column <;> decide
  nodup_names := by decide +kernel

instance : LawfulColumns Gcp.Column where
  mem_all column := by cases column <;> decide
  nodup_names := by decide +kernel

/-- The header that AWS writes. -/
def Aws.header : List String :=
  ["InvoiceID", "PayerAccountId", "LinkedAccountId", "RecordType", "RecordID",
    "BillingPeriodStartDate", "BillingPeriodEndDate", "InvoiceDate", "PayerAccountName",
    "LinkedAccountName", "TaxationAddress", "PayerPONumber", "ProductCode", "ProductName",
    "SellerOfRecord", "UsageType", "Operation", "RateId", "ItemDescription", "UsageStartDate",
    "UsageEndDate", "UsageQuantity", "BlendedRate", "CurrencyCode", "CostBeforeTax", "Credits",
    "TaxAmount", "TaxType", "TotalCost"]

/-- The header that Azure writes. -/
def Azure.header : List String :=
  ["AccountOwnerId", "Account Name", "ServiceAdministratorId", "SubscriptionId",
    "SubscriptionGuid", "Subscription Name", "Date", "Month", "Day", "Year", "Product", "Meter ID",
    "Meter Category", "Meter Sub-Category", "Meter Region", "Meter Name", "Consumed Quantity",
    "ResourceRate", "ExtendedCost", "Resource Location", "Consumed Service", "Instance ID",
    "ServiceInfo1", "ServiceInfo2", "AdditionalInfo", "Tags", "Store Service Identifier",
    "Department Name", "Cost Center", "Unit Of Measure", "Resource Group"]

/-- The header that GCP writes, with the columns that describe a project. -/
def Gcp.header : List String :=
  ["Account ID", "Line Item", "Start Time", "End Time", "Project", "Measurement1",
    "Measurement1 Total Consumption", "Measurement1 Units", "Credit1", "Credit1 Amount",
    "Credit1 Currency", "Cost", "Currency", "Project Number", "Project ID", "Project Name",
    "Project Labels", "Description"]

/-- The records of every provider are read by the names of their columns, each column by the name
that it has in the provider's own header. -/
theorem records_by_name :
    ReadsByName Aws.Column Aws.header ∧ ReadsByName Azure.Column Azure.header ∧
      ReadsByName Gcp.Column Gcp.header :=
  ⟨readsByName rfl (by decide +kernel), readsByName rfl (by decide +kernel),
    readsByName rfl (by decide +kernel)⟩

/-- A marked header in another order, with a column of its own; the last row is too short. -/
example :
    List.map (fun record ↦ (record .lineItem, record .cost, record .project)) <$>
        records Gcp.Column .gcp
          [["\uFEFF Cost", "Margin", " Line Item"], ["3", "7", " disk ", "x"], ["1", "2"]] =
      .ok [(" disk ", "3", "")] := by
  decide +kernel

end CloudLedger.Usage
