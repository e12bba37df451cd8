import CloudLedger.Proofs.FailingExports
import CloudLedger.Proofs.MergingInParts
import CloudLedger.Proofs.Transcripts

/-!
# Exports that share no identity

Exports of which no two share an identity need not be run together.  What they yield together is
what each yields alone, one after the other, since merging never joins reports of two of them.  A
store, too, makes no difference between one list and its pieces, so that it holds the same reports
in the end.  There has to be an export: without any, nothing is yielded that could be divided.
-/

namespace CloudLedger

open Usage

/-! ## Saving piece by piece -/

section Stores

open KeepsHistory

variable {σ : Type} [Store σ] [KeepsHistory σ] [RefusesCleanly σ] {s t u : σ}
  {log each once : List (Request × Reply)} {batches : List (List (Report Float))}

/-- The requests to save some lists, but those of nothing. -/
def saveRequests (batches : List (List (Report Float))) : List Request :=
  (batches.filter fun batch ↦ !batch.isEmpty).map .save

/-- If no write fails, every list that holds anything is saved. -/
theorem Transcript.savedIn_eq (h : Transcript s log t) (hwrites : NoWriteFails log)
    (hrequests : log.map Prod.fst = batches.map Request.save)
    (hne : ∀ batch ∈ batches, batch ≠ []) : savedIn log = batches := by
  induction h generalizing batches with
  | done =>
    obtain rfl := List.map_eq_nil_iff.mp hrequests.symm
    rfl
  | @step _ _ _ request reply log _ _ hserve _ ih =>
    obtain ⟨batch, rest, rfl, hbatch, hrest⟩ := List.map_eq_cons_iff.mp hrequests.symm
    obtain ⟨hfirst, hothers⟩ := noWriteFails_cons.mp hwrites
    obtain ⟨hbatchne, hrestne⟩ := List.forall_mem_cons.mp hne
    obtain rfl : Request.save batch = request := hbatch
    have hsaved : savedIn ((Request.save batch, reply) :: log) =
        savedIn [(Request.save batch, reply)] ++ savedIn log :=
      List.filterMap_append (l := [(Request.save batch, reply)])
    rcases history_of_serve_save hserve with ⟨rfl, -⟩ | ⟨fault, rfl, -⟩
    · rw [hsaved, ih hothers hrest.symm hrestne]
      rfl
    · exact absurd (hfirst batch fault (List.mem_singleton_self _)) hbatchne

/-- Saving lists one after the other leaves what saving all of them at once does. -/
theorem Transcript.saved_at_once (hbatches : batches.flatten ≠ [])
    (heach : Transcript s each t) (heachWrites : NoWriteFails each)
    (heachRequests : each.map Prod.fst = saveRequests batches)
    (honce : Transcript s once u) (honceWrites : NoWriteFails once)
    (honceRequests : once.map Prod.fst = [.save batches.flatten]) :
    savedIn each = batches.filter (fun batch ↦ !batch.isEmpty) ∧
      savedIn once = [batches.flatten] ∧ (history t).reports = (history u).reports := by
  have heachSaved := heach.savedIn_eq heachWrites heachRequests (by simp)
  have honceSaved : savedIn once = [batches.flatten] :=
    honce.savedIn_eq honceWrites honceRequests (by simpa using hbatches)
  refine ⟨heachSaved, honceSaved, ?_⟩
  rw [heach.history_eq, honce.history_eq, heachSaved, honceSaved, List.flatten_filter_not_isEmpty,
    List.flatten_singleton]

end Stores

namespace Pipeline

/-! ## Running export by export -/

section Exports

variable {α : Type} {c : Configuration} {provider : Provider} {exports : List (List UInt8)}
  {days : List (List (Report α))}

theorem lineItems_of_forall₂ {d : Dialect α}
    (h : List.Forall₂ (fun bytes day ↦ d.ofExport bytes = .ok day) exports days) :
    d.lineItems exports = days.flatten := by
  rw [eq_filterMap_of_mapM (mapM_eq_ok.mpr h), filterMap_ofExport, Dialect.lineItems,
    List.flatMap_def]

/-- Where no totals run, the reports of all exports are merged. -/
theorem run_of_forall₂ [Amount α] {lookup : Lookup α} (hp : provider ≠ .aws) (hne : exports ≠ [])
    (h : List.Forall₂ (fun bytes day ↦ (dialect c provider : Dialect α).ofExport bytes = .ok day)
      exports days) :
    run c lookup provider exports = .silent (.ok (mergeByIdentity days.flatten)) := by
  have haccepts : ∀ bytes ∈ exports, (dialect c provider : Dialect α).accepts bytes :=
    fun bytes hbytes ↦
      Dialect.accepts_iff.mpr (mapM_ok_iff.mp ⟨days, mapM_eq_ok.mpr h⟩ bytes hbytes)
  rw [run_of_accepts hp hne haccepts, items, lineItems_of_forall₂ h]

end Exports

open KeepsHistory

/-- Accepted exports of which no two share an identity yield together, for a provider whose totals
do not run, what each yields alone, in their order.  If no write fails, a store holds the same
whether this is saved export by export or at once.  There has to be an export. -/
theorem run_eq_flatten_of_separate (c : Configuration) (lookup : Lookup Float)
    {provider : Provider} (hp : provider ≠ .aws) {exports : List (List UInt8)} (hne : exports ≠ [])
    {days : List (List (Report Float))}
    (hdays : List.Forall₂
      (fun bytes day ↦ (dialect c provider : Dialect Float).ofExport bytes = .ok day) exports days)
    (hseparate : days.Pairwise SharesNoIdentity) :
    ∃ results,
      List.Forall₂ (fun bytes result ↦ run c lookup provider [bytes] = .silent (.ok result))
        exports results ∧
      run c lookup provider exports = .silent (.ok results.flatten) ∧
      ∀ {σ : Type} [Store σ] [KeepsHistory σ] [RefusesCleanly σ] (s t u : σ) each once,
        results.flatten ≠ [] →
        Transcript s each t → NoWriteFails each →
        each.map Prod.fst = saveRequests results →
        Transcript s once u → NoWriteFails once →
        once.map Prod.fst = [.save results.flatten] →
        savedIn each = results.filter (fun result ↦ !result.isEmpty) ∧
          savedIn once = [results.flatten] ∧ (history t).reports = (history u).reports := by
  refine ⟨days.map mergeByIdentity, ?_, ?_, ?_⟩
  · rw [List.forall₂_map_right_iff]
    refine hdays.imp fun bytes day hday ↦ ?_
    rw [run_of_forall₂ hp (List.cons_ne_nil _ _) (.cons hday .nil), List.flatten_singleton]
  · rw [run_of_forall₂ hp hne hdays, mergeByIdentity_flatten hseparate]
  · intro σ _ _ _ s t u each once hresults heach heachWrites heachRequests
    exact Transcript.saved_at_once hresults heach heachWrites heachRequests

section ThreeDays

/-- An export that is accepted although its only row is no line item. -/
def blankDay : List UInt8 := dayExport [",2016-04-05T00:00:00Z,1,0.5,a"]

def usageOn (day : UInt32) (usage cost : Float) : Report Float :=
  .derived ⟨.gcp, "", "a", ""⟩ "" ⟨day, 4, 2016⟩ "" ⟨usage, cost⟩

/-- Two days and an export without line items between them, saved to a state file day by day or at
once. -/
theorem run_eq_flatten_of_separate_threeDays :
    let c : Configuration := { reference := .sixthOfApril }
    let lookup : Lookup Float := fun _ ↦ .ok none
    run c lookup .gcp [firstDay, blankDay, secondDay] =
        .silent (.ok [usageOn 5 1.0 0.5, usageOn 6 3.0 1.5]) ∧
      ∃ t u : StateFile,
        Transcript twoDaysFile [(.save [usageOn 5 1.0 0.5], .saved (.ok ())),
          (.save [usageOn 6 3.0 1.5], .saved (.ok ()))] t ∧
        Transcript twoDaysFile
          [(.save [usageOn 5 1.0 0.5, usageOn 6 3.0 1.5], .saved (.ok ()))] u ∧
        t.history.reports = u.history.reports := by
  intro c lookup
  have hdays : List.Forall₂
      (fun bytes day ↦ (dialect c .gcp : Dialect Float).ofExport bytes = .ok day)
      [firstDay, blankDay, secondDay] [[usageOn 5 1.0 0.5], [], [usageOn 6 3.0 1.5]] := by
    refine .cons ?_ (.cons ?_ (.cons ?_ .nil)) <;> decide +kernel
  have hseparate : [[usageOn 5 1.0 0.5], [], [usageOn 6 3.0 1.5]].Pairwise SharesNoIdentity := by
    unfold SharesNoIdentity
    decide +kernel
  have hgcp : Provider.gcp ≠ .aws := by decide
  obtain ⟨results, halone, hrun, hstores⟩ := run_eq_flatten_of_separate c lookup hgcp
    (List.cons_ne_nil _ _) hdays hseparate
  -- no export lists a line twice, so that each yields its own reports as they are
  obtain rfl : results = [[usageOn 5 1.0 0.5], [], [usageOn 6 3.0 1.5]] := by
    have hone {bytes : List UInt8} {day result : List (Report Float)}
        (hday : (dialect c .gcp : Dialect Float).ofExport bytes = .ok day)
        (hresult : run c lookup .gcp [bytes] = .silent (.ok result)) :
        result = mergeByIdentity day := by
      rw [run_of_forall₂ hgcp (List.cons_ne_nil _ _) (.cons hday .nil),
        List.flatten_singleton] at hresult
      exact (Except.ok.inj (Traced.mk.inj hresult).2).symm
    obtain _ | ⟨h₁, _ | ⟨h₂, _ | ⟨h₃, _⟩⟩⟩ := hdays
    obtain _ | ⟨hrun₁, _ | ⟨hrun₂, _ | ⟨hrun₃, _ | _⟩⟩⟩ := halone
    rw [hone h₁ hrun₁, hone h₂ hrun₂, hone h₃ hrun₃]
    rfl
  have heach := Transcript.of_serveAll
    (saveRequests [[usageOn 5 1.0 0.5], [], [usageOn 6 3.0 1.5]]) twoDaysFile twoDaysDisk
  have honce := Transcript.of_serveAll [.save [usageOn 5 1.0 0.5, usageOn 6 3.0 1.5]] twoDaysFile
    twoDaysDisk
  have heachReplies : (Request.serveAll (twoDaysFile, twoDaysDisk)
      (saveRequests [[usageOn 5 1.0 0.5], [], [usageOn 6 3.0 1.5]])).1 =
      [(.save [usageOn 5 1.0 0.5], .saved (.ok ())),
        (.save [usageOn 6 3.0 1.5], .saved (.ok ()))] := by
    decide +kernel
  have honceReplies : (Request.serveAll (twoDaysFile, twoDaysDisk)
      [.save [usageOn 5 1.0 0.5, usageOn 6 3.0 1.5]]).1 =
      [(.save [usageOn 5 1.0 0.5, usageOn 6 3.0 1.5], .saved (.ok ()))] := by
    decide +kernel
  rw [heachReplies] at heach
  rw [honceReplies] at honce
  generalize (Request.serveAll (twoDaysFile, twoDaysDisk) _).2.1 = t at heach
  generalize (Request.serveAll (twoDaysFile, twoDaysDisk) _).2.1 = u at honce
  obtain ⟨-, -, hsame⟩ := hstores _ _ _ _ _ (List.cons_ne_nil _ _) heach
    (by simp [NoWriteFails]) rfl honce (by simp [NoWriteFails]) rfl
  exact ⟨hrun, t, u, heach, honce, hsame⟩

end ThreeDays

/-- Without exports there is nothing to be run alone, and yet running them all fails. -/
theorem not_run_eq_flatten_of_nil :
    ¬ ∀ (c : Configuration) (lookup : Lookup Float) (provider : Provider), provider ≠ .aws →
      ∀ (exports : List (List UInt8)) (days : List (List (Report Float))),
        List.Forall₂
          (fun bytes day ↦ (dialect c provider : Dialect Float).ofExport bytes = .ok day)
          exports days →
        days.Pairwise SharesNoIdentity →
        ∃ results,
          List.Forall₂ (fun bytes result ↦ run c lookup provider [bytes] = .silent (.ok result))
            exports results ∧
          run c lookup provider exports = .silent (.ok results.flatten) := by
  intro h
  obtain ⟨results, -, hrun⟩ :=
    h { reference := .sixthOfApril } (fun _ ↦ .ok none) .gcp (by decide) [] [] .nil .nil
  rw [run_nil] at hrun
  cases hrun

end Pipeline

end CloudLedger
