import CloudLedger.Proofs.Pipeline
import CloudLedger.Proofs.Sources
import CloudLedger.Proofs.Tasks
import Mathlib.Logic.Function.Basic

/-!
# Batches under a schedule

The pipelines of a batch run side by side: now one takes a turn, now another, and they come to their
outcomes in any order.  A turn fetches one source, asks for the recorded usage of one report, or
hands in an outcome.  Since nothing is saved before all outcomes are in, and since these are put in
the order of the providers, every schedule comes to the batch in which each provider runs alone.
-/

namespace CloudLedger

open Files

variable {σ : Type}

/-- A batch whose pipelines are under way: the tasks that run, and the outcomes that are in. -/
structure Progress (σ : Type) where
  store : σ
  disk : Disk
  running : Provider → Option Task
  finished : List Outcome := []

namespace Progress

variable [Store σ]

/-- Give a provider a turn; one that has nothing to do lets it pass. -/
def turn (b : Progress σ) (p : Provider) : Progress σ :=
  match b.running p with
  | none => b
  | some (.done result) =>
    { b with
      running := Function.update b.running p none
      finished := b.finished ++ [⟨p, result⟩] }
  | some (.fetch source next) =>
    { b with running := Function.update b.running p (some (next (source.contents b.disk))) }
  | some (.ask q next) =>
    { b with running := Function.update b.running p (some (next (Store.lookup b.store q))) }

/-- Give turns as a schedule says. -/
def after (b : Progress σ) (schedule : List Provider) : Progress σ := schedule.foldl turn b

/-- Whether all outcomes are in. -/
def IsOver (b : Progress σ) : Prop := ∀ p, b.running p = none

end Progress

namespace Plan

/-- The pipelines of a batch before any turn. -/
def start (plan : Plan) (store : σ) (disk : Disk) : Progress σ where
  store
  disk
  running p := if p ∈ plan.providers then some (plan.task p) else none

variable [Store σ]

/-- Store outcomes and archive what is left of them. -/
def conclude (plan : Plan) (outcomes : List Outcome) : StateM (σ × Disk) Summary := do
  let outcomes ← if plan.saves then outcomes.mapM storeOutcome else pure outcomes
  let archived ← plan.archiveReports (outcomes.flatMap Outcome.reports)
  return { outcomes, archived }

/-- The outcomes that are in after a schedule, in the order of the providers. -/
def outcomesUnder (plan : Plan) (schedule : List Provider) (store : σ) (disk : Disk) :
    List Outcome := settle ((plan.start store disk).after schedule).finished

/-- Run a batch, its pipelines under a schedule. -/
def runUnder (plan : Plan) (schedule : List Provider) : StateM (σ × Disk) Summary := do
  let (store, disk) ← get
  plan.conclude (plan.outcomesUnder schedule store disk)

theorem conclude_run (plan : Plan) (outcomes : σ → Disk → List Outcome) (store : σ) (disk : Disk) :
    StateT.run (m := Id) (do
        let (store, disk) ← get
        plan.conclude (outcomes store disk)) (store, disk) =
      (plan.conclude (outcomes store disk)).run (store, disk) := rfl

theorem run_eq_conclude (plan : Plan) (store : σ) (disk : Disk) :
    plan.run.run (store, disk) =
      (plan.conclude (plan.outcomes (Store.lookup store) disk)).run (store, disk) := by
  rw [← plan.conclude_run fun store disk ↦ plan.outcomes (Store.lookup store) disk, run]
  rfl

theorem runUnder_eq_conclude (plan : Plan) (schedule : List Provider) (store : σ) (disk : Disk) :
    (plan.runUnder schedule).run (store, disk) =
      (plan.conclude (plan.outcomesUnder schedule store disk)).run (store, disk) :=
  plan.conclude_run (plan.outcomesUnder schedule) store disk

/-- Only its outcomes depend on the sources of a batch. -/
theorem run_withSources {plan : Plan} {sources : List Source} {store : σ} {disk : Disk}
    (h : (plan.withSources sources).outcomes (Store.lookup store) disk =
      plan.outcomes (Store.lookup store) disk) :
    (plan.withSources sources).run.run (store, disk) = plan.run.run (store, disk) := by
  rw [run_eq_conclude, run_eq_conclude, h]
  rfl

end Plan

/-! ## Turns -/

namespace Progress

variable [Store σ] {plan : Plan} {store : σ} {disk : Disk} {b : Progress σ} {p q : Provider}

/-- What has come of a provider, and what will once its task is done. -/
def prospect (b : Progress σ) (p : Provider) : List Outcome :=
  (b.finished.filter fun o ↦ o.provider = p) ++
    (b.running p).toList.map fun task ↦ ⟨p, (task.alone (Store.lookup b.store) b.disk).outcome⟩

theorem turn_store (b : Progress σ) (p : Provider) :
    (b.turn p).store = b.store ∧ (b.turn p).disk = b.disk := by
  unfold turn
  split <;> exact ⟨rfl, rfl⟩

/-- A turn of one provider does not stop another. -/
theorem turn_running_of_ne (h : q ≠ p) : (b.turn p).running q = b.running q := by
  unfold turn
  split
  · rfl
  all_goals exact Function.update_of_ne h _ _

/-- A turn changes nothing of what comes of the providers. -/
theorem prospect_turn (b : Progress σ) (p q : Provider) : (b.turn p).prospect q = b.prospect q := by
  by_cases hqp : q = p
  · subst hqp
    unfold turn
    split
    · rfl
    · rename_i result htask
      simp [prospect, htask, Task.alone, Traced.silent]
    · rename_i source next htask
      simp [prospect, htask, Task.alone]
    · rename_i question next htask
      simp [prospect, htask, Task.alone, Traced.after]
  · have hfinished : ((b.turn p).finished.filter fun o ↦ o.provider = q) =
        b.finished.filter fun o ↦ o.provider = q := by
      have hpq : ¬ p = q := fun h ↦ hqp h.symm
      unfold turn
      split <;> simp [List.filter_append, hpq]
    rw [prospect, prospect, hfinished, turn_running_of_ne hqp, (turn_store b p).1,
      (turn_store b p).2]

theorem prospect_after (b : Progress σ) (schedule : List Provider) (q : Provider) :
    (b.after schedule).prospect q = b.prospect q := by
  induction schedule generalizing b with
  | nil => rfl
  | cons p rest ih => exact (ih (b.turn p)).trans (prospect_turn b p q)

/-- How many turns a provider still needs. -/
def need (b : Progress σ) (p : Provider) : Nat :=
  (b.running p).elim 0 (Task.turns (Store.lookup b.store) b.disk)

theorem need_eq_zero : b.need p = 0 ↔ b.running p = none := by
  unfold need
  cases b.running p with
  | none => simp
  | some task => cases task <;> simp [Task.turns]

/-- A turn serves the provider that has it and no other. -/
theorem need_turn (b : Progress σ) (p q : Provider) :
    (b.turn p).need q = if q = p then b.need q - 1 else b.need q := by
  split_ifs with hqp
  · subst hqp
    unfold turn
    split
    · rename_i htask
      simp [need, htask]
    all_goals
      rename_i htask
      simp [need, htask, Task.turns]
  · rw [need, need, turn_running_of_ne hqp, (turn_store b p).1, (turn_store b p).2]

theorem need_after (b : Progress σ) (schedule : List Provider) (q : Provider) :
    (b.after schedule).need q = b.need q - schedule.count q := by
  induction schedule generalizing b with
  | nil => rfl
  | cons p rest ih =>
    change ((b.turn p).after rest).need q = _
    rw [ih, need_turn, List.count_cons]
    by_cases hqp : q = p
    · simp only [hqp, if_true, beq_self_eq_true]
      omega
    · have hpq : ¬ p = q := fun h ↦ hqp h.symm
      simp [hqp, hpq]

/-- The pipelines are over exactly if every provider has had the turns that it needs. -/
theorem isOver_after_iff (b : Progress σ) (schedule : List Provider) :
    (b.after schedule).IsOver ↔ ∀ p, b.need p ≤ schedule.count p := by
  simp only [IsOver, ← need_eq_zero, need_after, Nat.sub_eq_zero_iff_le]

end Progress

/-! ## All schedules -/

namespace Plan

variable [Store σ] {plan : Plan} {schedule : List Provider} {store : σ} {disk : Disk}

theorem prospect_start (plan : Plan) (store : σ) (disk : Disk) (p : Provider) :
    (plan.start store disk).prospect p =
      if p ∈ plan.providers then [plan.outcome (Store.lookup store) disk p] else [] := by
  rw [Progress.prospect, start]
  dsimp only
  split_ifs
  · have halone := alone_task plan (Store.lookup store) disk p
    simp only [List.filter_nil, Option.toList_some, List.map_singleton, List.nil_append, halone]
    rfl
  · rfl

theorem isOver_start_iff (plan : Plan) (schedule : List Provider) (store : σ) (disk : Disk) :
    ((plan.start store disk).after schedule).IsOver ↔
      ∀ p ∈ plan.providers, (plan.task p).turns (Store.lookup store) disk ≤ schedule.count p := by
  rw [Progress.isOver_after_iff]
  apply forall_congr'
  intro p
  rw [Progress.need, start]
  dsimp only
  split_ifs with hp <;> simp [hp]

/-- When the pipelines are over, every provider has come to the outcome to which it comes alone. -/
theorem outcomesUnder_eq (h : ((plan.start store disk).after schedule).IsOver) :
    plan.outcomesUnder schedule store disk =
      plan.providers.map (plan.outcome (Store.lookup store) disk) := by
  apply settle_eq_map
  intro p
  rw [← prospect_start, ← Progress.prospect_after _ schedule, Progress.prospect, h p]
  simp

theorem runUnder_eq_run (h : ((plan.start store disk).after schedule).IsOver) :
    (plan.runUnder schedule).run (store, disk) = plan.run.run (store, disk) := by
  rw [runUnder_eq_conclude, run_eq_conclude, outcomesUnder_eq h, outcomes_eq_map]

/-- A batch comes to the same under every schedule that lets its pipelines end: each provider that
has a source comes to the outcome to which it comes alone, whichever way the sources of the
providers are interleaved, and whether its files come from one source or from several. -/
theorem same_under_every_schedule (plan : Plan) (store : σ) (disk : Disk) :
    (∀ p, p ∈ plan.providers ↔ plan.sourcesOf p ≠ []) ∧
    plan.providers.Sublist [.azure, .gcp, .aws] ∧
    (∀ schedule, ((plan.start store disk).after schedule).IsOver ↔
      ∀ p ∈ plan.providers, (plan.task p).turns (Store.lookup store) disk ≤ schedule.count p) ∧
    (∀ schedule, ((plan.start store disk).after schedule).IsOver →
      plan.outcomesUnder schedule store disk =
        plan.providers.map (plan.outcome (Store.lookup store) disk) ∧
      (plan.runUnder schedule).run (store, disk) = plan.run.run (store, disk)) ∧
    (∀ p ∈ plan.providers,
      (plan.only p).outcomes (Store.lookup store) disk =
        [plan.outcome (Store.lookup store) disk p]) ∧
    (∀ sources, (∀ p, sources.filter (fun s ↦ s.provider = p) = plan.sourcesOf p) →
      (plan.withSources sources).outcomes (Store.lookup store) disk =
        plan.outcomes (Store.lookup store) disk ∧
      (plan.withSources sources).run.run (store, disk) = plan.run.run (store, disk)) ∧
    ∀ before s pieces after parts, plan.sources = before ++ s :: after → pieces ≠ [] →
      (∀ piece ∈ pieces, piece.provider = s.provider) →
      pieces.mapM (Source.paths disk) = .ok parts → s.paths disk = .ok parts.flatten →
      (plan.withSources (before ++ pieces ++ after)).outcomes (Store.lookup store) disk =
        plan.outcomes (Store.lookup store) disk ∧
      (plan.withSources (before ++ pieces ++ after)).run.run (store, disk) =
        plan.run.run (store, disk) := by
  refine ⟨fun _ ↦ mem_providers, List.filter_sublist,
    fun schedule ↦ isOver_start_iff plan schedule store disk, ?_, ?_, ?_, ?_⟩
  · intro schedule hover
    exact ⟨outcomesUnder_eq hover, runUnder_eq_run hover⟩
  · intro p hp
    exact outcomes_only hp (Store.lookup store) disk
  · intro sources hsources
    have hsame := outcomes_interleaved hsources (Store.lookup store) disk
    exact ⟨hsame, run_withSources hsame⟩
  · intro before s pieces after parts hsources hne hprovider hpieces hs
    have hsame := outcomes_split hsources hne hprovider hpieces hs (Store.lookup store)
    exact ⟨hsame, run_withSources hsame⟩

section TwoProviders

/-- There is a bill of one provider, and two files of another one are missing. -/
def twoProviders : Plan where
  configuration := { reference := .sixthOfApril }
  sources := [⟨.aws, .files [⟨"bill.csv"⟩]⟩, ⟨.azure, .files [⟨"usage.csv"⟩, ⟨"more.csv"⟩]⟩]

def twoProvidersDisk : Disk where
  here := []
  entries := [(["bill.csv"], .file (itemExport "PayerLineItem,EC2,1,10,2"))]

def nothingRecorded : History Float := ⟨[], List.nodup_nil⟩

/-- Turn and turn about, in the other order of the sources, or with every file a source of its own:
the batch comes to the same. -/
theorem same_under_every_schedule_alternating :
    (twoProviders.runUnder [.aws, .azure, .aws, .azure, .aws]).run
        (nothingRecorded, twoProvidersDisk) =
      twoProviders.run.run (nothingRecorded, twoProvidersDisk) ∧
    (twoProviders.only .aws).outcomes nothingRecorded.lookup twoProvidersDisk =
      [twoProviders.outcome nothingRecorded.lookup twoProvidersDisk .aws] ∧
    (twoProviders.withSources twoProviders.sources.reverse).run.run
        (nothingRecorded, twoProvidersDisk) =
      twoProviders.run.run (nothingRecorded, twoProvidersDisk) ∧
    (twoProviders.withSources [⟨.aws, .files [⟨"bill.csv"⟩]⟩, ⟨.azure, .files [⟨"usage.csv"⟩]⟩,
        ⟨.azure, .files [⟨"more.csv"⟩]⟩]).run.run (nothingRecorded, twoProvidersDisk) =
      twoProviders.run.run (nothingRecorded, twoProvidersDisk) := by
  obtain ⟨-, -, hturns, hunder, halone, hinterleaved, hsplit⟩ :=
    same_under_every_schedule twoProviders nothingRecorded twoProvidersDisk
  have hover := (hturns [.aws, .azure, .aws, .azure, .aws]).mpr (by decide +kernel)
  have hreversed := hinterleaved twoProviders.sources.reverse (by intro p; cases p <;> rfl)
  have hpieces := hsplit [⟨.aws, .files [⟨"bill.csv"⟩]⟩]
    ⟨.azure, .files [⟨"usage.csv"⟩, ⟨"more.csv"⟩]⟩
    [⟨.azure, .files [⟨"usage.csv"⟩]⟩, ⟨.azure, .files [⟨"more.csv"⟩]⟩] []
    [[⟨"usage.csv"⟩], [⟨"more.csv"⟩]] rfl (by simp) (by simp) rfl rfl
  exact ⟨(hunder _ hover).2, halone .aws (by decide), hreversed.2, hpieces.2⟩

end TwoProviders

end Plan

end CloudLedger
