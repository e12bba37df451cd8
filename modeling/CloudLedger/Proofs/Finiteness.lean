import CloudLedger.Proofs.Amount.Overflow
import CloudLedger.Proofs.Pipeline

/-!
# When the figures of a pipeline are finite

Every cell is read to a finite number, but merging adds any number of them and running totals are
reduced, and these sums are never checked.  The figures of a pipeline are finite exactly if none of
the sums on the way to them overflows.
-/

namespace CloudLedger

open Amount

namespace Amount

variable {x y : Float}

/-- The exact value of a floating-point number; whatever is not finite has none and counts as zero.
-/
def exactValue (x : Float) : ℚ :=
  match view x with
  | .finite b => b.value
  | _ => 0

theorem exactValue_of_finite {b : Binary} (h : view x = .finite b) : exactValue x = b.value := by
  rw [exactValue, h]

/-- A sum is finite exactly if the exact one does not overflow. -/
theorem isFinite_add (hx : x.isFinite) (hy : y.isFinite) :
    (x + y).isFinite ↔ |exactValue x + exactValue y| < overflow := by
  obtain ⟨b, hb⟩ := isFinite_iff.mp hx
  obtain ⟨c, hc⟩ := isFinite_iff.mp hy
  rw [isFinite_add_iff hb hc, exactValue_of_finite hb, exactValue_of_finite hc]

theorem isFinite_sub (hx : x.isFinite) (hy : y.isFinite) :
    (x - y).isFinite ↔ |exactValue x - exactValue y| < overflow := by
  obtain ⟨b, hb⟩ := isFinite_iff.mp hx
  obtain ⟨c, hc⟩ := isFinite_iff.mp hy
  rw [isFinite_sub_iff hb hc, exactValue_of_finite hb, exactValue_of_finite hc]

theorem isFinite_readMeasure (cell : String) : (readMeasure cell).isFinite := by
  rw [readMeasure]
  split
  · split_ifs with hfinite
    · exact hfinite
    · decide
  · decide

end Amount

/-! ## Usage and cost -/

namespace Measures

variable {m n total : Measures Float} {ms : List (Measures Float)}

/-- Whether usage and cost are finite. -/
def IsFinite (m : Measures Float) : Prop := m.usage.isFinite ∧ m.cost.isFinite

/-- Whether neither the sum of the usages nor that of the costs overflows. -/
def SumFits (m n : Measures Float) : Prop :=
  |exactValue m.usage + exactValue n.usage| < overflow ∧
    |exactValue m.cost + exactValue n.cost| < overflow

/-- Whether neither the difference of the usages nor that of the costs overflows. -/
def DifferenceFits (m n : Measures Float) : Prop :=
  |exactValue m.usage - exactValue n.usage| < overflow ∧
    |exactValue m.cost - exactValue n.cost| < overflow

/-- Whether no sum overflows when measures are added one after the other, each to the rounded total
of those before it. -/
def SumsFit (total : Measures Float) : List (Measures Float) → Prop
  | [] => True
  | m :: rest => total.SumFits m ∧ SumsFit (total + m) rest

theorem isFinite_add_iff (hm : m.IsFinite) (hn : n.IsFinite) : (m + n).IsFinite ↔ m.SumFits n :=
  and_congr (isFinite_add hm.1 hn.1) (isFinite_add hm.2 hn.2)

theorem isFinite_sub_iff (hm : m.IsFinite) (hn : n.IsFinite) :
    (m - n).IsFinite ↔ m.DifferenceFits n :=
  and_congr (isFinite_sub hm.1 hn.1) (isFinite_sub hm.2 hn.2)

theorem IsFinite.of_add (h : (m + n).IsFinite) : m.IsFinite :=
  ⟨by_contra fun hm ↦ not_isFinite_add hm _ h.1, by_contra fun hm ↦ not_isFinite_add hm _ h.2⟩

theorem IsFinite.of_sub (h : (m - n).IsFinite) : m.IsFinite :=
  ⟨by_contra fun hm ↦ not_isFinite_sub hm _ h.1, by_contra fun hm ↦ not_isFinite_sub hm _ h.2⟩

theorem IsFinite.of_foldl (h : (ms.foldl (· + ·) total).IsFinite) : total.IsFinite := by
  induction ms generalizing total with
  | nil => exact h
  | cons m rest ih => exact (ih h).of_add

/-- A total is finite exactly if no sum on the way to it overflows. -/
theorem isFinite_foldl_iff (htotal : total.IsFinite) (hms : ∀ m ∈ ms, m.IsFinite) :
    (ms.foldl (· + ·) total).IsFinite ↔ SumsFit total ms := by
  induction ms generalizing total with
  | nil => exact iff_of_true htotal trivial
  | cons m rest ih =>
    have hstep := isFinite_add_iff htotal (hms m List.mem_cons_self)
    have hrest : ∀ n ∈ rest, n.IsFinite := fun n hn ↦ hms n (List.mem_cons_of_mem m hn)
    rw [List.foldl_cons, SumsFit, ← hstep]
    constructor
    · intro h
      exact ⟨h.of_foldl, (ih h.of_foldl hrest).mp h⟩
    · intro h
      exact (ih h.1 hrest).mpr h.2

theorem isFinite_ofCells (usage cost : String) :
    (ofCells usage cost : Measures Float).IsFinite := by
  have hcell : (Amount.ofCell : String → Float) = readMeasure := rfl
  rw [ofCells, hcell, IsFinite]
  dsimp only
  exact ⟨isFinite_readMeasure usage, isFinite_readMeasure cost⟩

end Measures

theorem Report.joined_measures (first : Report Float) (rest : List (Report Float)) :
    (first.joined rest).measures = (rest.map Report.measures).foldl (· + ·) first.measures := by
  rw [List.foldl_map]
  rfl

/-! ## Pipelines -/

namespace Pipeline

open Usage

variable {c : Configuration} {lookup : Lookup Float} {provider : Provider}
  {exports : List (List UInt8)} {rows reports : List (Report Float)}

/-- The measures of a row are read from two cells. -/
theorem isFinite_of_report? {record : Table.Record (dialect (α := Float) c provider).Column}
    {r : Report Float} (h : (dialect c provider).report? record = some r) :
    r.measures.IsFinite := by
  cases provider with
  | aws =>
    simp only [dialect, Aws.dialect, Aws.report?] at h
    split at h
    · cases h
      exact Measures.isFinite_ofCells _ _
    · cases h
  | azure =>
    simp only [dialect, Azure.dialect, Azure.report?] at h
    split at h
    · cases h
    · cases h
      exact Measures.isFinite_ofCells _ _
  | gcp =>
    simp only [dialect, Gcp.dialect, Gcp.report?] at h
    split at h
    · cases h
    · cases h
      exact Measures.isFinite_ofCells _ _

/-- Whether no sum on the way to the figures of a group overflows, neither when the group is merged
nor when recorded amounts are taken off. -/
structure GroupFits (c : Configuration) (lookup : Lookup Float) (provider : Provider)
    (first : Report Float) (rest : List (Report Float)) : Prop where
  sums : first.measures.SumsFit (rest.map Report.measures)
  difference : provider.givesTotals → ∀ q recorded,
    Delta.query? c.lookupRule (first.joined rest) = .ok (some q) →
      lookup q = .ok (some recorded) → (first.joined rest).measures.DifferenceFits recorded

/-- Whether no sum on the way to the figures of a pipeline overflows. -/
def Fits (c : Configuration) (lookup : Lookup Float) (provider : Provider)
    (exports : List (List UInt8)) : Prop :=
  ∀ rows, gather (dialect c provider) exports = .ok rows →
    ∀ id first rest, groupOf id rows = first :: rest → GroupFits c lookup provider first rest

theorem isFinite_joined_iff {first : Report Float} {rest : List (Report Float)}
    (hfinite : ∀ r ∈ first :: rest, r.measures.IsFinite) :
    (first.joined rest).measures.IsFinite ↔
      first.measures.SumsFit (rest.map Report.measures) := by
  rw [Report.joined_measures]
  apply Measures.isFinite_foldl_iff (hfinite first List.mem_cons_self)
  intro m hm
  obtain ⟨r, hr, rfl⟩ := List.mem_map.mp hm
  exact hfinite r (List.mem_cons_of_mem first hr)

/-- A running total from which recorded amounts are taken off is finite exactly if it was and the
difference does not overflow. -/
theorem isFinite_of_adjusts {r s : Report Float}
    (hlookup : ∀ q recorded, lookup q = .ok (some recorded) → recorded.IsFinite)
    (h : Delta.Adjusts lookup c.lookupRule r s) :
    s.measures.IsFinite ↔ r.measures.IsFinite ∧ ∀ q recorded,
      Delta.query? c.lookupRule r = .ok (some q) → lookup q = .ok (some recorded) →
        r.measures.DifferenceFits recorded := by
  rcases h with ⟨hquery, rfl⟩ | ⟨q, found, hquery, hfound, rfl⟩
  · refine (and_iff_left ?_).symm
    intro q recorded hq
    rw [hquery] at hq
    cases hq
  · cases found with
    | none =>
      refine (and_iff_left ?_).symm
      intro q' recorded hq hrecorded
      rw [hquery] at hq
      cases hq
      rw [hfound] at hrecorded
      cases hrecorded
    | some recorded =>
      change (r.measures - recorded).IsFinite ↔ _
      constructor
      · intro hfinite
        refine ⟨hfinite.of_sub, fun q' recorded' hq hrecorded ↦ ?_⟩
        rw [hquery] at hq
        cases hq
        rw [hfound] at hrecorded
        cases hrecorded
        exact (Measures.isFinite_sub_iff hfinite.of_sub (hlookup q recorded hfound)).mp hfinite
      · rintro ⟨hfinite, hfits⟩
        exact (Measures.isFinite_sub_iff hfinite (hlookup q recorded hfound)).mpr
          (hfits q recorded hquery hfound)

/-- The figures of a pipeline are finite exactly if no sum on the way to them overflows. -/
theorem isFinite_run_iff
    (hlookup : ∀ q recorded, lookup q = .ok (some recorded) → recorded.IsFinite)
    (h : (run c lookup provider exports).outcome = .ok reports) :
    (∀ r ∈ reports, r.measures.IsFinite) ↔ Fits c lookup provider exports := by
  obtain ⟨whole, hwhole, hreports⟩ := run_eq_ok h
  obtain ⟨rows, hrows, rfl⟩ := map_eq_ok.mp hwhole
  simp only [Fits, hrows, Except.ok.injEq, forall_eq']
  have hfinite : ∀ r ∈ rows, r.measures.IsFinite := by
    intro r hr
    obtain ⟨record, hrecord⟩ := mem_of_gather hrows hr
    exact isFinite_of_report? hrecord
  have hgroup : ∀ id first rest, groupOf id rows = first :: rest →
      ((first.joined rest).measures.IsFinite ↔
        first.measures.SumsFit (rest.map Report.measures)) := by
    intro id first rest hgroup
    apply isFinite_joined_iff
    intro r hr
    exact hfinite r (mem_groupOf.mp (hgroup ▸ hr)).1
  by_cases htotals : provider.givesTotals
  · rw [if_pos htotals] at hreports
    have hreduced := forall_iff_of_forall₂ (Q := fun s : Report Float ↦ s.measures.IsFinite)
      (fun r s hadjusts ↦ isFinite_of_adjusts hlookup hadjusts) hreports
    rw [hreduced, forall_mem_mergeByIdentity_iff]
    constructor
    · intro hall id first rest hfirst
      obtain ⟨hsums, hdifference⟩ := hall id first rest hfirst
      exact ⟨(hgroup id first rest hfirst).mp hsums, fun _ ↦ hdifference⟩
    · intro hall id first rest hfirst
      obtain ⟨hsums, hdifference⟩ := hall id first rest hfirst
      exact ⟨(hgroup id first rest hfirst).mpr hsums, hdifference htotals⟩
  · rw [if_neg htotals] at hreports
    rw [hreports, forall_mem_mergeByIdentity_iff]
    constructor
    · intro hall id first rest hfirst
      exact ⟨(hgroup id first rest hfirst).mp (hall id first rest hfirst),
        fun h ↦ absurd h htotals⟩
    · intro hall id first rest hfirst
      exact (hgroup id first rest hfirst).mpr (hall id first rest hfirst).sums

end Pipeline

end CloudLedger
