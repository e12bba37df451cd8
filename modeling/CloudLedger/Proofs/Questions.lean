import CloudLedger.Fault
import CloudLedger.Proofs.LookupRules
import CloudLedger.Proofs.Pipeline

/-!
# All questions or none

Reports are asked about one after the other.  If every question is answered, each report comes back
in its place, with nothing but its measures changed, and all questions have been asked in order.
The first question that fails ends it: nothing comes back, the fault names the identity asked about
and quotes the answer, and no later question has been asked.
-/

namespace CloudLedger.Delta

variable {α : Type} {lookupRule : LookupRule} {reports rest : List (Report α)} {r : Report α}
  {q : Query}

/-- What is asked for some reports, in their order. -/
def questions (lookupRule : LookupRule) (reports : List (Report α)) : List Query :=
  reports.filterMap fun r ↦ (query? lookupRule r).toOption.join

theorem questions_cons_of_none (hq : query? lookupRule r = .ok none) :
    questions lookupRule (r :: rest) = questions lookupRule rest := by
  rw [questions, List.filterMap_cons_none]
  · rfl
  · rw [hq]
    rfl

theorem questions_cons_of_some (hq : query? lookupRule r = .ok (some q)) :
    questions lookupRule (r :: rest) = q :: questions lookupRule rest := by
  rw [questions, List.filterMap_cons_some]
  · rfl
  · rw [hq]
    rfl

/-- Only for the first date of all a rule does not know what to ask. -/
theorem exists_query? (hfirst : lookupRule = .dayBefore → r.period ≠ .first) :
    ∃ asked, query? lookupRule r = .ok asked := by
  cases hq : query? lookupRule r with
  | ok asked => exact ⟨asked, rfl⟩
  | error fault =>
    have hrule : lookupRule = .dayBefore := by
      cases lookupRule with
      | ownDay => cases hq
      | dayBefore => rfl
    exact absurd (eq_first_of_query?_error hq) (hfirst hrule)

/-- Either the day of a report is asked about or some other day, through which usage counts. -/
theorem query?_cases (hq : query? lookupRule r = .ok (some q)) :
    q = r.query ∨ ∃ eve, q = r.query.upTo eve := by
  cases lookupRule with
  | ownDay => exact .inl (Option.some.inj (Except.ok.inj hq)).symm
  | dayBefore =>
    simp only [query?] at hq
    split at hq
    · exact .inl (Option.some.inj (Except.ok.inj hq)).symm
    · split at hq
      · cases hq
      · split at hq
        · exact .inr ⟨_, (Option.some.inj (Except.ok.inj hq)).symm⟩
        · cases hq

/-- A report that is identified by its own line and day is asked about under the identity of the
line and the day asked about. -/
theorem identity_of_query? (hr : r.IsDerived) (hq : query? lookupRule r = .ok (some q)) :
    q.identity = Identity.ofLine q.line q.period := by
  obtain rfl | ⟨eve, rfl⟩ := query?_cases hq
  · exact hr
  · rfl

variable [Amount α] {lookup : Lookup α}

/-! ## One report -/

theorem apply_cons_of_none (hq : query? lookupRule r = .ok none) :
    apply lookup lookupRule (r :: rest) = (apply lookup lookupRule rest).map (r :: ·) := by
  rw [apply, hq]

theorem apply_cons_of_answer {recorded : Option (Measures α)}
    (hq : query? lookupRule r = .ok (some q)) (hanswer : lookup q = .ok recorded) :
    apply lookup lookupRule (r :: rest) =
      ((apply lookup lookupRule rest).map (reduce r recorded :: ·)).after q := by
  simp only [apply, hq, hanswer]

theorem apply_cons_of_fault {fault : Fault} (hq : query? lookupRule r = .ok (some q))
    (hfault : lookup q = .error fault) :
    apply lookup lookupRule (r :: rest) = ⟨[q], .error (.lookup q.identity fault)⟩ := by
  simp only [apply, hq, hfault]

/-! ## All reports -/

/-- If all questions are answered, all are asked and nothing fails. -/
theorem apply_of_answers (hasked : ∀ r ∈ reports, ∃ asked, query? lookupRule r = .ok asked)
    (hanswers : ∀ q ∈ questions lookupRule reports, ∃ recorded, lookup q = .ok recorded) :
    ∃ adjusted, apply lookup lookupRule reports = ⟨questions lookupRule reports, .ok adjusted⟩ := by
  induction reports with
  | nil => exact ⟨[], rfl⟩
  | cons r rest ih =>
    obtain ⟨⟨asked, hq⟩, hrest⟩ := List.forall_mem_cons.mp hasked
    cases asked with
    | none =>
      rw [questions_cons_of_none hq] at hanswers ⊢
      obtain ⟨adjusted, happly⟩ := ih hrest hanswers
      exact ⟨r :: adjusted, by rw [apply_cons_of_none hq, happly]; rfl⟩
    | some q =>
      rw [questions_cons_of_some hq] at hanswers ⊢
      obtain ⟨⟨recorded, hanswer⟩, hothers⟩ := List.forall_mem_cons.mp hanswers
      obtain ⟨adjusted, happly⟩ := ih hrest hothers
      exact ⟨reduce r recorded :: adjusted, by rw [apply_cons_of_answer hq hanswer, happly]; rfl⟩

/-- A question that fails after others that do not ends the asking. -/
theorem apply_of_fault (hasked : ∀ r ∈ reports, ∃ asked, query? lookupRule r = .ok asked)
    {before after : List Query} {fault : Fault}
    (hquestions : questions lookupRule reports = before ++ q :: after)
    (hbefore : ∀ p ∈ before, ∃ recorded, lookup p = .ok recorded)
    (hfault : lookup q = .error fault) :
    apply lookup lookupRule reports = ⟨before ++ [q], .error (.lookup q.identity fault)⟩ := by
  induction reports generalizing before with
  | nil => simp [questions] at hquestions
  | cons r rest ih =>
    obtain ⟨⟨asked, hq⟩, hrest⟩ := List.forall_mem_cons.mp hasked
    cases asked with
    | none =>
      rw [questions_cons_of_none hq] at hquestions
      rw [apply_cons_of_none hq, ih hrest hquestions hbefore]
      rfl
    | some first =>
      rw [questions_cons_of_some hq] at hquestions
      cases before with
      | nil =>
        obtain ⟨rfl, -⟩ := List.cons.inj hquestions
        exact apply_cons_of_fault hq hfault
      | cons p before =>
        obtain ⟨rfl, hothers⟩ := List.cons.inj hquestions
        obtain ⟨⟨recorded, hanswer⟩, hbefore⟩ := List.forall_mem_cons.mp hbefore
        rw [apply_cons_of_answer hq hanswer, ih hrest hothers hbefore]
        rfl

/-- What becomes of a report: if its question finds recorded measures they are taken off its own,
and otherwise it stays as it is. -/
structure Becomes (lookup : Lookup α) (lookupRule : LookupRule) (r s : Report α) : Prop where
  found : ∀ q recorded, query? lookupRule r = .ok (some q) → lookup q = .ok (some recorded) →
    s = { r with measures :=
      ⟨r.measures.usage - recorded.usage, r.measures.cost - recorded.cost⟩ }
  not_found : (∀ q recorded, query? lookupRule r = .ok (some q) →
    lookup q ≠ .ok (some recorded)) → s = r

theorem Adjusts.becomes {s : Report α} (h : Adjusts lookup lookupRule r s) :
    Becomes lookup lookupRule r s := by
  rcases h with ⟨hq, rfl⟩ | ⟨q, recorded, hq, hanswer, rfl⟩
  · exact ⟨fun q recorded hsome ↦ absurd (hq.symm.trans hsome) nofun, fun _ ↦ rfl⟩
  · refine ⟨fun p measures hp hfound ↦ ?_, fun hnone ↦ ?_⟩
    · obtain rfl : q = p := by simpa using hq.symm.trans hp
      obtain rfl : recorded = some measures := by simpa using hanswer.symm.trans hfound
      rfl
    · cases recorded with
      | none => rfl
      | some measures => exact absurd hanswer (hnone q measures hq)

/-- Either every question is answered; then all of them have been asked in order, and the reports
come back in order and number, reduced by what was found.  Or the first question that is not
answered is the last one asked, and its fault is all that comes back.  The identity in a question is
that of the line and day asked about if the report has the identity of its own. -/
theorem all_or_nothing (lookup : Lookup α) (lookupRule : LookupRule) (reports : List (Report α))
    (hfirst : lookupRule = .dayBefore → ∀ r ∈ reports, r.period ≠ .first) :
    ((∀ q ∈ questions lookupRule reports, ∃ recorded, lookup q = .ok recorded) →
      ∃ adjusted, apply lookup lookupRule reports =
          ⟨questions lookupRule reports, .ok adjusted⟩ ∧
        List.Forall₂ (Becomes lookup lookupRule) reports adjusted) ∧
    ((¬ ∀ q ∈ questions lookupRule reports, ∃ recorded, lookup q = .ok recorded) →
      ∃ before q after fault, questions lookupRule reports = before ++ q :: after ∧
        (∀ p ∈ before, ∃ recorded, lookup p = .ok recorded) ∧ lookup q = .error fault ∧
        apply lookup lookupRule reports = ⟨before ++ [q], .error (.lookup q.identity fault)⟩ ∧
        (Fault.lookup q.identity fault).message =
          "Failed to get usage to date for " ++ q.identity.digest ++ ": " ++ fault.message) ∧
    ∀ r : Report α, r.IsDerived → ∀ q, query? lookupRule r = .ok (some q) →
      q.identity = Identity.ofLine q.line q.period := by
  have hasked : ∀ r ∈ reports, ∃ asked, query? lookupRule r = .ok asked :=
    fun r hr ↦ exists_query? fun hrule ↦ hfirst hrule r hr
  refine ⟨fun hanswers ↦ ?_, fun hnot ↦ ?_, fun r hr q ↦ identity_of_query? hr⟩
  · obtain ⟨adjusted, happly⟩ := apply_of_answers hasked hanswers
    have houtcome : (apply lookup lookupRule reports).outcome = .ok adjusted := by rw [happly]
    exact ⟨adjusted, happly, (outcome_apply_eq_ok.mp houtcome).imp fun _ _ ↦ Adjusts.becomes⟩
  · obtain ⟨before, q, after, fault, hquestions, hbefore, hfault⟩ := exists_first_error hnot
    exact ⟨before, q, after, fault, hquestions, hbefore, hfault,
      apply_of_fault hasked hquestions hbefore hfault, rfl⟩

/-! ### A bill with a question that fails -/

section FailingQuestion

def totalOn (day month : UInt32) (amount : Float) : Report Float :=
  .derived ⟨.aws, "1", "EC2", "eu"⟩ "" ⟨day, month, 2016⟩ "" ⟨amount, amount⟩

/-- Something is recorded through the fourth, and nobody knows about the eighth. -/
def recordedDays : Lookup Float := fun q ↦
  if q.period.day = 4 then .ok (some ⟨1.5, 0.5⟩)
  else if q.period.day = 8 then .error (.foreign "lookup timed out")
  else .ok none

/-- Totals of the first of a month, of a day after a recorded one, of a day after one that is not
recorded, and of a day that no calendar has. -/
def answeredTotals : List (Report Float) :=
  [totalOn 1 4 4, totalOn 5 4 4, totalOn 6 4 4, totalOn 31 2 4]

def failingTotals : List (Report Float) := answeredTotals ++ [totalOn 9 4 4, totalOn 7 4 4]

/-- Three of four totals are asked about and one is reduced; of two more the first one fails, and
the second is not asked about. -/
theorem all_or_nothing_april :
    (∃ adjusted, apply recordedDays .dayBefore answeredTotals =
        ⟨questions .dayBefore answeredTotals, .ok adjusted⟩ ∧
      adjusted.map Report.measures = [⟨4, 4⟩, ⟨2.5, 3.5⟩, ⟨4, 4⟩, ⟨4, 4⟩]) ∧
    (questions .dayBefore failingTotals).map (fun q ↦ q.period.day) = [4, 5, 31, 8, 6] ∧
    ∃ before q, (before ++ [q]).map (fun q ↦ q.period.day) = [4, 5, 31, 8] ∧
      apply recordedDays .dayBefore failingTotals =
        ⟨before ++ [q], .error (.lookup q.identity (.foreign "lookup timed out"))⟩ := by
  have hanswered : ∀ r ∈ answeredTotals, r.period ≠ .first := by decide +kernel
  have hfailing : ∀ r ∈ failingTotals, r.period ≠ .first := by decide +kernel
  obtain ⟨hall, -, -⟩ := all_or_nothing recordedDays .dayBefore answeredTotals fun _ ↦ hanswered
  obtain ⟨hnone, hfirst, -⟩ :=
    all_or_nothing recordedDays .dayBefore failingTotals fun _ ↦ hfailing
  refine ⟨?_, by decide +kernel, ?_⟩
  · have hanswers : ∀ q ∈ questions .dayBefore answeredTotals,
        recordedDays q = .ok (recordedDays q).toOption.join := by
      decide +kernel
    obtain ⟨adjusted, happly, -⟩ := hall fun q hq ↦ ⟨_, hanswers q hq⟩
    have hmeasures : (apply recordedDays .dayBefore answeredTotals).outcome.map
        (List.map Report.measures) = .ok [⟨4, 4⟩, ⟨2.5, 3.5⟩, ⟨4, 4⟩, ⟨4, 4⟩] := by
      decide +kernel
    rw [happly] at hmeasures
    exact ⟨adjusted, happly, Except.ok.inj hmeasures⟩
  · have hfails : ¬ (apply recordedDays .dayBefore failingTotals).outcome.isOk := by
      decide +kernel
    have hdays : (apply recordedDays .dayBefore failingTotals).asked.map (fun q ↦ q.period.day) =
        [4, 5, 31, 8] := by
      decide +kernel
    obtain ⟨before, q, after, fault, -, -, hfault, happly, -⟩ := hfirst fun hanswers ↦ by
      obtain ⟨adjusted, happly, -⟩ := hnone hanswers
      rw [happly] at hfails
      exact hfails rfl
    obtain rfl : .foreign "lookup timed out" = fault := by
      unfold recordedDays at hfault
      split_ifs at hfault
      exact Except.error.inj hfault
    rw [happly] at hdays
    exact ⟨before, q, hdays, happly⟩

end FailingQuestion

end CloudLedger.Delta
