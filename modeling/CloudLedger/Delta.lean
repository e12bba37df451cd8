import CloudLedger.Configuration
import CloudLedger.Report

/-!
# From running totals to daily amounts

A running total of the month becomes the amount of a day by taking off what has been recorded for
the line earlier in the month.  `Delta.query?` says what to ask for, if anything can have been
recorded; `Delta.apply` asks for all reports in order and fails as a whole at the first question
that fails.  The questions are part of the result.
-/

namespace CloudLedger

/-- Where recorded usage is looked up: nothing is found if nothing has been recorded. -/
abbrev Lookup (α : Type) := Query → Except Fault (Option (Measures α))

/-- An outcome together with the questions asked on the way, in order. -/
structure Traced (β : Type) where
  asked : List Query
  outcome : Except Fault β

namespace Traced

variable {β γ : Type}

/-- An outcome that needed no question. -/
def silent (outcome : Except Fault β) : Traced β := ⟨[], outcome⟩

/-- Put a question in front. -/
def after (q : Query) (t : Traced β) : Traced β := { t with asked := q :: t.asked }

/-- Change the outcome where there is one. -/
def map (f : β → γ) (t : Traced β) : Traced γ := ⟨t.asked, f <$> t.outcome⟩

end Traced

namespace Delta

open Calendar

variable {α : Type}

/-- What to ask for a report.  For the day before the first of a month there is nothing to ask, and
a period that is no date is asked about as it is. -/
def query? (lookupRule : LookupRule) (r : Report α) : Except Fault (Option Query) :=
  match lookupRule with
  | .ownDay => .ok (some r.query)
  | .dayBefore =>
    match r.period.toDate? with
    | none => .ok (some r.query)
    | some date =>
      match date.previous? with
      | none => .error .outsideCalendar
      | some eve =>
        let period := Period.ofDate eve
        if period.sharesMonth r.period then .ok (some (r.query.upTo period)) else .ok none

variable [Amount α]

/-- Take recorded measures off a report, if there are any. -/
def reduce (r : Report α) : Option (Measures α) → Report α
  | some recorded => { r with measures := r.measures - recorded }
  | none => r

/-- Take what has been recorded off every report. -/
def apply (lookup : Lookup α) (lookupRule : LookupRule) : List (Report α) → Traced (List (Report α))
  | [] => .silent (.ok [])
  | r :: rest =>
    match query? lookupRule r with
    | .error fault => .silent (.error fault)
    | .ok none => (apply lookup lookupRule rest).map (r :: ·)
    | .ok (some q) =>
      match lookup q with
      | .error fault => ⟨[q], .error (.lookup q.identity fault)⟩
      | .ok recorded => ((apply lookup lookupRule rest).map (reduce r recorded :: ·)).after q

end Delta

end CloudLedger
