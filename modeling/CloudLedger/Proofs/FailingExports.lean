import CloudLedger.Proofs.LineItems

/-!
# Exports that fail

An export is accepted if it can be cleaned and read, even if none of its rows is a line item.  A
pipeline of daily exports passes over all others: what it yields is decided by the accepted ones
alone, and only if there are none does it fail, as the last of its exports does.  Any other pipeline
fails as the first of its exports that is not accepted, and does not ask what comes after it.
-/

namespace CloudLedger

open Usage

variable {α : Type}

namespace Usage.Dialect

/-- Whether an export can be cleaned and read. -/
def accepts (d : Dialect α) (bytes : List UInt8) : Bool := (d.ofExport bytes).isOk

/-- The exports that can be cleaned and read. -/
def usable (d : Dialect α) (exports : List (List UInt8)) : List (List UInt8) :=
  exports.filter d.accepts

/-- The first export that cannot be cleaned or read. -/
def firstFailing? (d : Dialect α) (exports : List (List UInt8)) : Option (List UInt8) :=
  exports.find? fun bytes ↦ !d.accepts bytes

variable {d : Dialect α} {bytes : List UInt8} {exports : List (List UInt8)}

theorem accepts_iff : d.accepts bytes ↔ ∃ reports, d.ofExport bytes = .ok reports := by
  unfold accepts
  cases d.ofExport bytes <;> simp [Except.isOk, Except.toBool]

theorem not_accepts_iff : ¬ d.accepts bytes ↔ ∃ fault, d.ofExport bytes = .error fault := by
  unfold accepts
  cases d.ofExport bytes <;> simp [Except.isOk, Except.toBool]

/-- An export is accepted exactly if it has records. -/
theorem accepts_eq_isSome (d : Dialect α) (bytes : List UInt8) :
    d.accepts bytes = (d.recordsOf bytes).toOption.isSome := by
  rw [accepts, Pipeline.ofExport_eq]
  cases d.recordsOf bytes <;> rfl

theorem usable_eq_self : d.usable exports = exports ↔ ∀ bytes ∈ exports, d.accepts bytes :=
  List.filter_eq_self

theorem usable_eq_nil : d.usable exports = [] ↔ ∀ bytes ∈ exports, ¬ d.accepts bytes :=
  List.filter_eq_nil_iff

theorem usable_usable (d : Dialect α) (exports : List (List UInt8)) :
    d.usable (d.usable exports) = d.usable exports :=
  usable_eq_self.mpr fun _ hbytes ↦ (List.mem_filter.mp hbytes).2

/-- If not all exports are accepted, a first one is not. -/
theorem exists_firstFailing (h : d.usable exports ≠ exports) :
    ∃ bad, d.firstFailing? exports = some bad := by
  rw [← Option.isSome_iff_exists, firstFailing?, List.find?_isSome]
  by_contra hnone
  push Not at hnone
  exact h (usable_eq_self.mpr fun bytes hbytes ↦ by simpa using hnone bytes hbytes)

/-- Exports that are not accepted have no records. -/
theorem accepted_usable (d : Dialect α) (exports : List (List UInt8)) :
    d.accepted (d.usable exports) = d.accepted exports := by
  rw [accepted, usable, List.filterMap_filter]
  apply List.filterMap_congr
  intro bytes _
  rw [accepts_eq_isSome]
  cases d.recordsOf bytes <;> rfl

theorem lineItems_usable (d : Dialect α) (exports : List (List UInt8)) :
    d.lineItems (d.usable exports) = d.lineItems exports := by
  rw [lineItems, accepted_usable, lineItems]

theorem accepted_eq_nil (h : d.accepted exports = []) : d.usable exports = [] := by
  rw [accepted, List.filterMap_eq_nil_iff] at h
  refine usable_eq_nil.mpr fun bytes hbytes ↦ ?_
  rw [accepts_eq_isSome, h bytes hbytes]
  exact Bool.false_ne_true

end Usage.Dialect

namespace Pipeline

variable {d : Dialect α} {exports : List (List UInt8)}

/-! ## Gathering -/

/-- What exports yield decides what is gathered from them. -/
theorem gather_congr {others : List (List UInt8)}
    (h : exports.map d.ofExport = others.map d.ofExport) : gather d exports = gather d others := by
  have hnil : exports = [] ↔ others = [] := by
    rw [← List.map_eq_nil_iff (f := d.ofExport), h, List.map_eq_nil_iff]
  have hall : exports.mapM d.ofExport = others.mapM d.ofExport := by
    have hid (exports : List (List UInt8)) :
        exports.mapM d.ofExport = (exports.map d.ofExport).mapM id := by
      rw [List.mapM_map, Function.id_comp]
    rw [hid, h, hid]
  simp only [gather, gatherDaily, gatherAll, h, hall, hnil]

/-- Of daily exports the accepted ones are gathered, if there are any. -/
theorem gatherDaily_of_usable (h : d.usable exports ≠ []) :
    gatherDaily d.ofExport exports = .ok (d.lineItems exports) := by
  unfold gatherDaily
  dsimp only
  rw [filterMap_ofExport]
  split
  · rename_i hnone _
    exact absurd (Dialect.accepted_eq_nil (List.map_eq_nil_iff.mp hnone)) h
  · rw [Dialect.lineItems, List.flatMap_def]

/-- If no daily export is accepted, the fault of the last one counts. -/
theorem gatherDaily_of_not_usable (hne : exports ≠ []) (h : d.usable exports = []) :
    ∃ fault, d.ofExport (exports.getLast hne) = .error fault ∧
      gatherDaily d.ofExport exports = .error fault := by
  obtain ⟨fault, hfault⟩ := Dialect.not_accepts_iff.mp
    (Dialect.usable_eq_nil.mp h _ (List.getLast_mem hne))
  have hnone : d.accepted exports = [] := by
    rw [← Dialect.accepted_usable, h]
    rfl
  have hlast : (exports.map d.ofExport).getLast? = some (.error fault) := by
    rw [List.getLast?_map, List.getLast?_eq_some_getLast hne, Option.map_some, hfault]
  refine ⟨fault, hfault, ?_⟩
  unfold gatherDaily
  dsimp only
  rw [filterMap_ofExport, hnone, hlast]
  rfl

/-- Exports that are all accepted are gathered, whether they are daily or not. -/
theorem gather_of_accepts (hne : exports ≠ []) (h : ∀ bytes ∈ exports, d.accepts bytes) :
    gather d exports = .ok (d.lineItems exports) := by
  have husable : d.usable exports = exports := Dialect.usable_eq_self.mpr h
  rw [gather, if_neg hne]
  split_ifs
  · exact gatherDaily_of_usable (husable.symm ▸ hne)
  · obtain ⟨days, hdays⟩ := mapM_ok_iff.mpr fun bytes hbytes ↦
      Dialect.accepts_iff.mp (h bytes hbytes)
    rw [gatherAll, hdays, Dialect.lineItems, List.flatMap_def, ← filterMap_ofExport,
      ← eq_filterMap_of_mapM hdays]
    rfl

variable [Amount α] {c : Configuration} {lookup : Lookup α} {provider : Provider} {fault : Fault}

/-! ## Pipelines -/

theorem run_of_gather_error (h : gather (dialect c provider : Dialect α) exports = .error fault) :
    run c lookup provider exports = .silent (.error fault) := by
  rw [run, totals, h]
  rfl

/-- What is gathered decides what a pipeline yields and asks. -/
theorem run_of_gather_eq {others : List (List UInt8)}
    (h : gather (dialect c provider : Dialect α) exports = gather (dialect c provider) others) :
    run c lookup provider exports = run c lookup provider others := by
  rw [run, run, totals, totals, h]

theorem run_nil (c : Configuration) (lookup : Lookup α) (provider : Provider) :
    run c lookup provider [] = .silent (.error (.noValidRows provider)) := by
  apply run_of_gather_error
  rw [gather, if_pos rfl, dialect_provider]

theorem gather_gcp (c : Configuration) (hne : exports ≠ []) :
    gather (dialect c .gcp : Dialect α) exports =
      gatherDaily (dialect c .gcp : Dialect α).ofExport exports := by
  rw [gather, if_neg hne, if_pos]
  rfl

theorem gather_of_ne_gcp (hp : provider ≠ .gcp) (hne : exports ≠ []) :
    gather (dialect c provider : Dialect α) exports =
      gatherAll (dialect c provider : Dialect α).ofExport exports := by
  rw [gather, if_neg hne, if_neg]
  rw [dialect_provider, Provider.exportsDaily]
  simpa using hp

/-- Where no totals run, what is yielded from accepted exports are their merged line items. -/
theorem run_of_accepts (hp : provider ≠ .aws) (hne : exports ≠ [])
    (h : ∀ bytes ∈ exports, (dialect c provider : Dialect α).accepts bytes) :
    run c lookup provider exports = .silent (.ok (mergeByIdentity (items c provider exports))) := by
  have hdated : ¬ provider.givesTotals := by simpa [Provider.givesTotals] using hp
  rw [run, totals, gather_of_accepts hne h]
  exact if_neg hdated

/-- Daily exports that are not accepted make no difference as long as others are. -/
theorem run_of_usable (h : (dialect c .gcp : Dialect α).usable exports ≠ []) :
    run c lookup .gcp exports =
      run c lookup .gcp ((dialect c .gcp : Dialect α).usable exports) := by
  have hne : exports ≠ [] := by
    rintro rfl
    exact h rfl
  have hagain : (dialect c .gcp : Dialect α).usable ((dialect c .gcp : Dialect α).usable exports) ≠
      [] := by
    rwa [Dialect.usable_usable]
  apply run_of_gather_eq
  rw [gather_gcp c hne, gather_gcp c h, gatherDaily_of_usable h, gatherDaily_of_usable hagain,
    Dialect.lineItems_usable]

theorem run_of_not_usable (hne : exports ≠ [])
    (h : (dialect c .gcp : Dialect α).usable exports = []) :
    ∃ fault, (dialect c .gcp : Dialect α).ofExport (exports.getLast hne) = .error fault ∧
      run c lookup .gcp exports = .silent (.error fault) := by
  obtain ⟨fault, hlast, hgather⟩ := gatherDaily_of_not_usable hne h
  exact ⟨fault, hlast, run_of_gather_error ((gather_gcp c hne).trans hgather)⟩

/-- The first export that is not accepted decides a pipeline that passes over none. -/
theorem run_of_firstFailing (hp : provider ≠ .gcp) {bad : List UInt8}
    (hfirst : (dialect c provider : Dialect α).firstFailing? exports = some bad) :
    ∃ fault, (dialect c provider : Dialect α).ofExport bad = .error fault ∧
      run c lookup provider exports = .silent (.error fault) := by
  obtain ⟨hbad, before, rest, rfl, hbefore⟩ := List.find?_eq_some_iff_append.mp hfirst
  obtain ⟨fault, hfault⟩ := Dialect.not_accepts_iff.mp (by simpa using hbad)
  have hall : (before ++ bad :: rest).mapM (dialect c provider : Dialect α).ofExport =
      .error fault := by
    refine mapM_of_error (fun bytes hbytes ↦ ?_) hfault rest
    exact Dialect.accepts_iff.mp (by simpa using hbefore bytes hbytes)
  refine ⟨fault, hfault, run_of_gather_error ?_⟩
  rw [gather_of_ne_gcp hp (by simp), gatherAll, hall]
  rfl

/-- Daily exports that are not accepted leave no trace: a pipeline yields and asks the same as from
the accepted ones alone, wherever the others stand, and if there are no accepted ones it fails as
the last export does.  Any other pipeline fails as the first export that is not accepted, whatever
comes after it.  Without exports every pipeline fails. -/
theorem run_passes_over_failing (c : Configuration) (lookup : Lookup α) :
    (∀ exports, (dialect c .gcp : Dialect α).usable exports ≠ [] →
      run c lookup .gcp exports =
        run c lookup .gcp ((dialect c .gcp : Dialect α).usable exports)) ∧
    (∀ exports others, (dialect c .gcp : Dialect α).usable exports ≠ [] →
      (dialect c .gcp : Dialect α).usable others = (dialect c .gcp : Dialect α).usable exports →
      run c lookup .gcp others = run c lookup .gcp exports) ∧
    (∀ exports (hne : exports ≠ []), (dialect c .gcp : Dialect α).usable exports = [] →
      ∃ fault, (dialect c .gcp : Dialect α).ofExport (exports.getLast hne) = .error fault ∧
        run c lookup .gcp exports = .silent (.error fault)) ∧
    (∀ provider exports, provider ≠ .gcp →
      (dialect c provider : Dialect α).usable exports ≠ exports →
      ∃ bad fault, (dialect c provider : Dialect α).firstFailing? exports = some bad ∧
        (dialect c provider : Dialect α).ofExport bad = .error fault ∧
        run c lookup provider exports = .silent (.error fault)) ∧
    ∀ provider, run c lookup provider [] = .silent (.error (.noValidRows provider)) := by
  refine ⟨fun exports ↦ run_of_usable, fun exports others hsome hsame ↦ ?_,
    fun exports hne ↦ run_of_not_usable hne, fun provider exports hp hfailing ↦ ?_,
    run_nil c lookup⟩
  · have hothers : (dialect c .gcp : Dialect α).usable others ≠ [] := hsame ▸ hsome
    rw [run_of_usable hothers, run_of_usable hsome, hsame]
  · obtain ⟨bad, hfirst⟩ := Dialect.exists_firstFailing hfailing
    obtain ⟨fault, hbad, hrun⟩ := run_of_firstFailing hp hfirst
    exact ⟨bad, fault, hfirst, hbad, hrun⟩

/-! ### Exports that are no tables -/

section Tables

def noTable : List UInt8 := Text.Utf8.encode "no table"

def firstDay : List UInt8 := dayExport ["disk,2016-04-05T00:00:00Z,1,0.5,a"]

def secondDay : List UInt8 := dayExport ["disk,2016-04-06T00:00:00Z,3,1.5,a"]

/-- What is no table is passed over wherever it stands among daily exports; if nothing else is
there, the last export decides, and of exports that are not daily the first one that is no table. -/
theorem run_passes_over_failing_tables :
    let c : Configuration := { reference := .sixthOfApril }
    let lookup : Lookup Float := fun _ ↦ .ok none
    run c lookup .gcp [firstDay, noTable, secondDay, []] = run c lookup .gcp [firstDay, secondDay] ∧
      run c lookup .gcp [[], noTable, firstDay, secondDay] =
        run c lookup .gcp [firstDay, noTable, secondDay, []] ∧
      run c lookup .gcp [noTable, []] = .silent (.error (.exhausted .reading)) ∧
      run c lookup .azure [separatedExport, noTable, []] =
        .silent (.error (.exhausted .droppingShort)) ∧
      run c lookup .aws [] = .silent (.error (.noValidRows .aws)) := by
  intro c lookup
  obtain ⟨hdaily, hanywhere, hnone, hfirst, hnothing⟩ := run_passes_over_failing c lookup
  have husable : (dialect c .gcp : Dialect Float).usable [firstDay, noTable, secondDay, []] =
      [firstDay, secondDay] := by
    decide +kernel
  have hmoved : (dialect c .gcp : Dialect Float).usable [[], noTable, firstDay, secondDay] =
      [firstDay, secondDay] := by
    decide +kernel
  have hunusable : (dialect c .gcp : Dialect Float).usable [noTable, []] = [] := by decide +kernel
  have hbad : (dialect c .azure : Dialect Float).firstFailing? [separatedExport, noTable, []] =
      some noTable := by
    decide +kernel
  have hsome : (dialect c .gcp : Dialect Float).usable [firstDay, noTable, secondDay, []] ≠ [] := by
    rw [husable]
    exact List.cons_ne_nil _ _
  refine ⟨(hdaily _ hsome).trans (congrArg _ husable),
    hanywhere _ _ hsome (hmoved.trans husable.symm), ?_, ?_, hnothing .aws⟩
  · obtain ⟨fault, hlast, hrun⟩ := hnone [noTable, []] (List.cons_ne_nil _ _) hunusable
    have hreading : (dialect c .gcp : Dialect Float).ofExport [] = .error (.exhausted .reading) :=
      rfl
    rw [hrun, ← Except.error.inj (hreading.symm.trans hlast)]
  · have hfailing : (dialect c .azure : Dialect Float).usable [separatedExport, noTable, []] ≠
        [separatedExport, noTable, []] := by
      decide +kernel
    obtain ⟨bad, fault, hfound, hfault, hrun⟩ := hfirst .azure _ (by decide) hfailing
    obtain rfl := Option.some.inj (hbad.symm.trans hfound)
    have hshort : (dialect c .azure : Dialect Float).ofExport noTable =
        .error (.exhausted .droppingShort) := by
      decide +kernel
    rw [hrun, ← Except.error.inj (hshort.symm.trans hfault)]

end Tables

end Pipeline

end CloudLedger
