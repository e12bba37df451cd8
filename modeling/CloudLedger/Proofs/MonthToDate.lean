import CloudLedger.Proofs.Delta
import CloudLedger.Proofs.FirstWrites
import CloudLedger.Proofs.Store

/-!
# What a save adds to a month

A question for usage sums over the whole history, while saving goes by identity.  After a save the
answer is the one before it with the measures of the new reports of the line added from left to
right; reports that are known, or that the question does not match, leave every bit of it as it was.
-/

namespace CloudLedger

/-- Whether a report is of the line and the month asked about and of a day that counts. -/
def Query.Matches {α : Type} (q : Query) (r : Report α) : Prop :=
  r.line.provider = q.line.provider ∧ r.line.account = q.line.account ∧
    r.line.service = q.line.service ∧ r.line.region = q.line.region ∧
    r.period.month = q.period.month ∧ r.period.year = q.period.year ∧
    (r.period.day < q.period.day ∨ q.includesPeriod = true ∧ r.period.day = q.period.day)

instance {α : Type} (q : Query) (r : Report α) : Decidable (q.Matches r) :=
  inferInstanceAs (Decidable (_ ∧ _))

theorem Line.eq_iff {l m : Line} : l = m ↔ l.provider = m.provider ∧ l.account = m.account ∧
    l.service = m.service ∧ l.region = m.region := by
  cases l
  cases m
  simp

theorem Query.covers_eq_matches {α : Type} (q : Query) :
    (q.covers : Report α → Bool) = fun r ↦ decide (q.Matches r) := by
  funext r
  rw [Bool.eq_iff_iff, Query.covers_iff, decide_eq_true_iff, Query.Matches, Line.eq_iff,
    Query.reaches, Period.sharesMonth]
  simp only [Bool.and_eq_true, Bool.or_eq_true, decide_eq_true_eq]
  tauto

open KeepsHistory

/-- After a successful save a question is answered with the sum that it was answered with before,
nothing counting as zero, with the measures of the matching new reports added in their order.
Nothing is found only if nothing was found before and no new report matches, and the answer stays
the same, down to the last bit, if each report saved is known or does not match. -/
theorem lookup_after_save {σ : Type} [Store σ] [KeepsHistory σ] {s t : σ} {d e : Files.Disk}
    {reports : List (Report Float)} (h : (Store.save reports).run (s, d) = .ok () (t, e))
    (q : Query) :
    let new := firstOfEach (reports.filter fun r ↦ r.id ∉ (history s).ids)
    let matching := new.filter fun r ↦ q.Matches r
    (history t).reports = (history s).reports ++ new ∧
    ∃ before after, Store.lookup s q = .ok before ∧ Store.lookup t q = .ok after ∧
      (∀ total, after = some total →
        total = matching.foldl (fun total r ↦ total + r.measures) (before.getD 0)) ∧
      (after = none ↔ before = none ∧ matching = []) ∧
      ((∀ r ∈ reports, r.id ∈ (history s).ids ∨ ¬ q.Matches r) → after = before) := by
  intro new matching
  have hnew : new = fresh (history s).ids reports := (fresh_eq_firstOfEach _ _).symm
  have hreports : (history t).reports = (history s).reports ++ new := by
    rw [hnew, save_ok h, History.add_reports, History.additions]
  have hmatching : new.filter q.covers = matching := by rw [Query.covers_eq_matches]
  refine ⟨hreports, (history s).monthToDate q, (history t).monthToDate q,
    by rw [lookup_eq]; rfl, by rw [lookup_eq]; rfl, fun total hsome ↦ ?_, ?_, fun hold ↦ ?_⟩
  · have htotal := History.monthToDate_getD_of_append hreports q
    rwa [hsome, hmatching] at htotal
  · rw [History.monthToDate_eq_none, History.monthToDate_eq_none, hreports, List.filter_append,
      hmatching, List.append_eq_nil_iff]
  · refine History.monthToDate_of_append hreports (hmatching.trans ?_)
    refine List.filter_eq_nil_iff.mpr fun r hr ↦ ?_
    rw [hnew] at hr
    have hmatches := (hold r (fresh_subset _ _ hr)).resolve_left (not_mem_of_mem_fresh hr)
    simpa using hmatches

/-! ### A week of computing -/

section Computing

def computingOn (id service : String) (day : UInt32) (amount : Float) : Report Float :=
  ⟨⟨id⟩, ⟨.aws, "1", service, "eu"⟩, "", ⟨day, 4, 2016⟩, "", ⟨amount, amount⟩⟩

def computingFile : StateFile := ⟨⟨"state.json"⟩, .ofReports [computingOn "a" "EC2" 4 0.1]⟩

/-- A day that is stored with another amount, two new days of the line, the second one twice, a day
of another service and one that is too late. -/
def computingWeek : List (Report Float) :=
  [computingOn "a" "EC2" 4 9, computingOn "b" "EC2" 5 0.2, computingOn "c" "S3" 5 9,
    computingOn "d" "EC2" 6 0.3, computingOn "d" "EC2" 6 9, computingOn "e" "EC2" 7 9]

def throughSixth : Query := ⟨⟨"q"⟩, ⟨.aws, "1", "EC2", "eu"⟩, ⟨6, 4, 2016⟩, true⟩

/-- Two of six reports are added to what was recorded, and the question for another account still
finds nothing. -/
theorem lookup_after_save_week :
    ∃ (t : StateFile) (e : Files.Disk),
      (Store.save computingWeek).run (computingFile, ⟨[], [], [], [], List.nodup_nil⟩) =
        .ok () (t, e) ∧
      Store.lookup computingFile throughSixth = .ok (some ⟨0.1, 0.1⟩) ∧
      Store.lookup t throughSixth = .ok (some ⟨0.1 + 0.2 + 0.3, 0.1 + 0.2 + 0.3⟩) ∧
      Store.lookup t { throughSixth with line.account := "2" } = .ok none := by
  have hsaves : ((Store.save computingWeek).run
      (computingFile, ⟨[], [], [], [], List.nodup_nil⟩) matches .ok ..) = true := by
    decide +kernel
  cases hrun : (Store.save computingWeek).run (computingFile, ⟨[], [], [], [], List.nodup_nil⟩) with
  | error fault state =>
    rw [hrun] at hsaves
    cases hsaves
  | ok _ state =>
    obtain ⟨t, e⟩ := state
    have hafter := lookup_after_save hrun
    have hbefore : Store.lookup computingFile throughSixth = .ok (some ⟨0.1, 0.1⟩) := by
      decide +kernel
    have hother : Store.lookup computingFile { throughSixth with line.account := "2" } =
        .ok none := by
      decide +kernel
    refine ⟨t, e, rfl, hbefore, ?_, ?_⟩
    · obtain ⟨-, before, after, hfound, hlookup, htotal, hnone, -⟩ := hafter throughSixth
      obtain rfl := Except.ok.inj (hbefore.symm.trans hfound)
      cases after with
      | none => exact absurd (hnone.mp rfl).1 (Option.some_ne_none _)
      | some total =>
        rw [hlookup, htotal total rfl]
        decide +kernel
    · obtain ⟨-, before, after, hfound, hlookup, -, -, hsame⟩ :=
        hafter { throughSixth with line.account := "2" }
      obtain rfl := Except.ok.inj (hother.symm.trans hfound)
      rw [hlookup, hsame (by decide +kernel)]

end Computing

end CloudLedger
