import CloudLedger.Batch
import CloudLedger.Proofs.Outcomes

/-!
# Pipelines as tasks

A task is the work of a pipeline cut where others can come in between: it fetches its sources one by
one, then asks for recorded usage one report at a time, and ends with reports or a fault.  A task
that is left alone does what the pipeline does and asks the same questions in the same order.
-/

namespace CloudLedger

open Files

/-- Work that fetches sources and asks for recorded usage, one thing at a time, until it is done. -/
inductive Task where
  | done (result : Except Fault (List (Report Float)))
  | fetch (source : Source) (next : Except Fault (List (List UInt8)) → Task)
  | ask (q : Query) (next : Except Fault (Option (Measures Float)) → Task)

namespace Traced

variable {β γ δ : Type}

theorem map_map (f : β → γ) (g : γ → δ) (t : Traced β) : (t.map f).map g = t.map (g ∘ f) := by
  obtain ⟨asked, outcome⟩ := t
  cases outcome <;> rfl

theorem map_after (f : β → γ) (q : Query) (t : Traced β) : (t.after q).map f = (t.map f).after q :=
  rfl

theorem map_id (t : Traced β) : t.map (fun b ↦ b) = t := by
  obtain ⟨asked, outcome⟩ := t
  cases outcome <;> rfl

end Traced

namespace Task

variable {c : Configuration} {lookup : Lookup Float} {disk : Disk} {lookupRule : LookupRule}
  {provider : Provider}

/-- What comes of a task that is left alone. -/
def alone (lookup : Lookup Float) (disk : Disk) : Task → Traced (List (Report Float))
  | done result => .silent result
  | fetch source next => (next (source.contents disk)).alone lookup disk
  | ask q next => ((next (lookup q)).alone lookup disk).after q

/-- How often a task that is left alone has to be given a turn. -/
def turns (lookup : Lookup Float) (disk : Disk) : Task → Nat
  | done _ => 1
  | fetch source next => (next (source.contents disk)).turns lookup disk + 1
  | ask q next => (next (lookup q)).turns lookup disk + 1

/-- Take off what has been recorded, behind what has been worked through already. -/
def reducing (lookupRule : LookupRule) (reduced : List (Report Float)) :
    List (Report Float) → Task
  | [] => done (.ok reduced)
  | r :: rest =>
    match Delta.query? lookupRule r with
    | .error fault => done (.error fault)
    | .ok none => reducing lookupRule (reduced ++ [r]) rest
    | .ok (some q) => ask q fun
      | .error fault => done (.error (.lookup q.identity fault))
      | .ok recorded => reducing lookupRule (reduced ++ [Delta.reduce r recorded]) rest

/-- Make the reports of exports. -/
def reporting (c : Configuration) (provider : Provider) (exports : List (List UInt8)) : Task :=
  match Pipeline.totals c provider exports with
  | .error fault => done (.error fault)
  | .ok reports =>
    if provider.givesTotals then reducing c.lookupRule [] reports else done (.ok reports)

/-- Fetch sources, behind what has been fetched already, and make the reports of it all. -/
def fetching (c : Configuration) (provider : Provider) (fetched : List (List UInt8)) :
    List Source → Task
  | [] => reporting c provider fetched
  | source :: rest => fetch source fun
    | .error fault => done (.error fault)
    | .ok exports => fetching c provider (fetched ++ exports) rest

/-! ## Left alone -/

theorem alone_reducing (reduced reports : List (Report Float)) :
    (reducing lookupRule reduced reports).alone lookup disk =
      (Delta.apply lookup lookupRule reports).map (reduced ++ ·) := by
  induction reports generalizing reduced with
  | nil => simp [reducing, alone, Delta.apply, Traced.silent, Traced.map]
  | cons r rest ih =>
    have hbehind (s : Report Float) :
        ((reduced ++ ·) ∘ (s :: ·)) = fun reports ↦ (reduced ++ [s]) ++ reports := by
      funext reports
      simp
    rw [reducing, Delta.apply]
    cases Delta.query? lookupRule r with
    | error fault => rfl
    | ok asked =>
      cases asked with
      | none =>
        dsimp only
        rw [ih, Traced.map_map, hbehind]
      | some q =>
        dsimp only
        rw [alone]
        cases lookup q with
        | error fault => rfl
        | ok recorded =>
          dsimp only
          rw [ih, Traced.map_after, Traced.map_map, hbehind]

theorem alone_reporting (exports : List (List UInt8)) :
    (reporting c provider exports).alone lookup disk = Pipeline.run c lookup provider exports := by
  rw [reporting, Pipeline.run]
  cases Pipeline.totals (α := Float) c provider exports with
  | error fault => rfl
  | ok reports =>
    dsimp only
    split_ifs
    · rw [alone_reducing]
      exact Traced.map_id _
    · rfl

theorem alone_fetching (fetched : List (List UInt8)) (sources : List Source) :
    (fetching c provider fetched sources).alone lookup disk =
      match sources.mapM (Source.contents disk) with
      | .error fault => .silent (.error fault)
      | .ok exports => Pipeline.run c lookup provider (fetched ++ exports.flatten) := by
  induction sources generalizing fetched with
  | nil => simp [fetching, alone_reporting, pure, Except.pure]
  | cons source rest ih =>
    rw [fetching, alone, List.mapM_cons]
    cases source.contents disk with
    | error fault => rfl
    | ok exports =>
      dsimp only
      rw [ih]
      cases rest.mapM (Source.contents disk) with
      | error fault => rfl
      | ok more => simp [bind, Except.bind, pure, Except.pure, List.append_assoc]

end Task

/-- The task of a provider in a batch. -/
def Plan.task (plan : Plan) (provider : Provider) : Task :=
  .fetching plan.configuration provider [] (plan.sourcesOf provider)

/-- A task that is left alone comes to the outcome of its provider. -/
theorem Plan.alone_task (plan : Plan) (lookup : Lookup Float) (disk : Disk) (provider : Provider) :
    ((plan.task provider).alone lookup disk).outcome =
      (plan.outcome lookup disk provider).result := by
  rw [task, Task.alone_fetching, outcome, exportsOf]
  cases (plan.sourcesOf provider).mapM (Source.contents disk) <;> rfl

end CloudLedger
