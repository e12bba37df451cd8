import CloudLedger.CommandLine
import CloudLedger.Proofs.Accounts
import CloudLedger.Proofs.Trees

/-!
# Runs keep the tree

A run makes folders, writes files and moves them, for the state file and for the archive, and an
obstacle may end it after any of these steps.  Each step leaves a tree of folders as a tree, whether
or not it succeeds, and so does what is put together from them, up to the whole run.
-/

namespace CloudLedger

open Files

/-! ## Computations that keep something -/

section Keeps

variable {ε σ α β : Type} {holds : σ → Prop} {op : EStateM ε σ α} {next : α → EStateM ε σ β}

/-- Whether what holds of the state before a computation holds after it, however it ends. -/
structure Keeps (holds : σ → Prop) (op : EStateM ε σ α) : Prop where
  of_ok : ∀ {s a t}, op.run s = .ok a t → holds s → holds t
  of_error : ∀ {s e t}, op.run s = .error e t → holds s → holds t

theorem Keeps.pure (a : α) : Keeps holds (pure a : EStateM ε σ α) where
  of_ok h hs := by
    cases h
    exact hs
  of_error h := by cases h

theorem Keeps.throw (e : ε) : Keeps holds (throw e : EStateM ε σ α) where
  of_ok h := by cases h
  of_error h hs := by
    cases h
    exact hs

theorem Keeps.get_bind {next : σ → EStateM ε σ β} (hnext : ∀ s, holds s → Keeps holds (next s)) :
    Keeps holds (get >>= next) where
  of_ok h hs := (hnext _ hs).of_ok h hs
  of_error h hs := (hnext _ hs).of_error h hs

theorem Keeps.set {t : σ} (ht : holds t) : Keeps holds (set t : EStateM ε σ PUnit) where
  of_ok h _ := by
    cases h
    exact ht
  of_error h := by cases h

theorem Keeps.modify {f : σ → σ} (hf : ∀ s, holds s → holds (f s)) :
    Keeps holds (modify f : EStateM ε σ PUnit) where
  of_ok h hs := by
    cases h
    exact hf _ hs
  of_error h := by cases h

theorem Keeps.bind (hop : Keeps holds op) (hnext : ∀ a, Keeps holds (next a)) :
    Keeps holds (op >>= next) where
  of_ok {s _ _} h hs := by
    rw [EStateM.run_bind] at h
    cases hrun : op.run s with
    | ok a t =>
      rw [hrun] at h
      exact (hnext a).of_ok h (hop.of_ok hrun hs)
    | error e t =>
      rw [hrun] at h
      cases h
  of_error {s _ _} h hs := by
    rw [EStateM.run_bind] at h
    cases hrun : op.run s with
    | ok a t =>
      rw [hrun] at h
      exact (hnext a).of_error h (hop.of_ok hrun hs)
    | error e t =>
      rw [hrun] at h
      cases h
      exact hop.of_error hrun hs

end Keeps

/-! ## Steps -/

namespace Files.DiskOp

open Disk

theorem keeps_makeFolders (p : FilePath) : Keeps IsTree (makeFolders p) where
  of_ok h hd := leaves_of_ok h ▸ isTree_makeFolders hd p
  of_error h hd := leaves_of_error h ▸ isTree_makeFolders hd p

theorem keeps_write (p : FilePath) (content : List UInt8) : Keeps IsTree (write p content) where
  of_ok h hd := isTree_of_write hd h
  of_error h hd := eq_of_write_error h ▸ hd

theorem keeps_move (p q : FilePath) : Keeps IsTree (move p q) where
  of_ok h hd := isTree_of_move hd h
  of_error h hd := eq_of_move_error h ▸ hd

end Files.DiskOp

section OnDisk

variable {σ α : Type} {op : DiskOp α}

/-- Whether the disk beside a store is a tree. -/
def OnTree (state : σ × Disk) : Prop := state.2.IsTree

theorem keeps_onDisk (hop : Keeps Disk.IsTree op) (fault : Obstacle → Fault) :
    Keeps (OnTree (σ := σ)) (onDisk fault op) where
  of_ok {state _ _} h hs := by
    obtain ⟨s, d⟩ := state
    rw [onDisk_run] at h
    cases hrun : op.run d with
    | ok a e =>
      rw [hrun] at h
      cases h
      exact hop.of_ok hrun hs
    | error o e =>
      rw [hrun] at h
      cases h
  of_error {state _ _} h hs := by
    obtain ⟨s, d⟩ := state
    rw [onDisk_run] at h
    cases hrun : op.run d with
    | ok a e =>
      rw [hrun] at h
      cases h
    | error o e =>
      rw [hrun] at h
      cases h
      exact hop.of_error hrun hs

end OnDisk

namespace StateFile

theorem keeps_makeParent (path : FilePath) : Keeps Disk.IsTree (makeParent path) := by
  rw [makeParent]
  cases path.parent? with
  | none => exact .pure ()
  | some folder => exact DiskOp.keeps_makeFolders folder

theorem keeps_replace (path : FilePath) (reports : List (Report Float)) :
    Keeps Disk.IsTree (replace path reports) :=
  (keeps_makeParent path).bind fun _ ↦
    (DiskOp.keeps_write _ _).bind fun _ ↦ DiskOp.keeps_move _ _

theorem keeps_save (reports : List (Report Float)) :
    Keeps (OnTree (σ := StateFile)) (Store.save reports) := by
  have hrefuse : Keeps OnTree (refuseEmpty reports : EStateM Fault (StateFile × Disk) Unit) := by
    rw [refuseEmpty]
    split_ifs
    · exact .throw _
    · exact .pure _
  refine hrefuse.bind fun _ ↦ Keeps.get_bind fun state _ ↦ ?_
  obtain ⟨s, d⟩ := state
  dsimp only
  split_ifs
  · exact (keeps_onDisk (keeps_replace _ _) _).bind fun _ ↦ .modify fun _ ↦ id
  · exact .modify fun _ ↦ id

end StateFile

theorem Archive.keeps_write {σ : Type} (folder : FilePath) (period : Period)
    (reports : List (Report Float)) :
    Keeps (OnTree (σ := σ)) (write folder period reports) :=
  (keeps_onDisk (DiskOp.keeps_makeFolders folder) _).bind fun _ ↦
    (keeps_onDisk (DiskOp.keeps_write _ _) _).bind fun _ ↦
      (keeps_onDisk (DiskOp.keeps_move _ _) _).bind fun _ ↦ .pure _

/-! ## Runs -/

namespace Plan

variable {σ : Type} {state : σ × Disk}

theorem onTree_archiveReports (plan : Plan) (reports : List (Report Float)) (h : OnTree state) :
    OnTree (plan.archiveReports reports state).2 := by
  unfold archiveReports
  split
  · rename_i folder first rest _
    have hwrite := Archive.keeps_write (σ := σ) folder plan.configuration.today (first :: rest)
    cases hrun : (Archive.write folder plan.configuration.today (first :: rest)).run state with
    | ok path after => exact hwrite.of_ok hrun h
    | error fault after => exact hwrite.of_error hrun h
  · exact h

variable [Store σ] (hsave : ∀ reports, Keeps (OnTree (σ := σ)) (Store.save reports))
include hsave

theorem onTree_storeOutcome (o : Outcome) (h : OnTree state) : OnTree (storeOutcome o state).2 := by
  by_cases hnone : o.reports = []
  · rwa [storeOutcome_of_nil hnone]
  · cases hrun : (Store.save o.reports).run state with
    | ok _ after =>
      rw [storeOutcome_of_ok hnone hrun]
      exact (hsave _).of_ok hrun h
    | error fault after =>
      rw [storeOutcome_of_error hnone hrun]
      exact (hsave _).of_error hrun h

theorem onTree_mapM (outcomes : List Outcome) (h : OnTree state) :
    OnTree (outcomes.mapM storeOutcome state).2 := by
  induction outcomes generalizing state with
  | nil => exact h
  | cons o rest ih =>
    rw [mapM_cons_run]
    exact ih (onTree_storeOutcome hsave o h)

theorem onTree_run (plan : Plan) (h : OnTree state) : OnTree (plan.run.run state).2 := by
  unfold run
  by_cases hsaves : plan.saves
  · simp only [if_pos hsaves]
    exact onTree_archiveReports plan _ (onTree_mapM hsave _ h)
  · simp only [if_neg hsaves]
    exact onTree_archiveReports plan _ h

end Plan

theorem keeps_makeStateFolder (path : FilePath) : Keeps Disk.IsTree (makeStateFolder path) where
  of_ok {d _ _} h hd := by
    dsimp only [makeStateFolder, EStateM.run] at h
    cases hrun : StateFile.makeParent path d with
    | ok _ e =>
      rw [hrun] at h
      cases h
      exact (StateFile.keeps_makeParent path).of_ok hrun hd
    | error o e =>
      rw [hrun] at h
      cases h
  of_error {d _ _} h hd := by
    dsimp only [makeStateFolder, EStateM.run] at h
    cases hrun : StateFile.makeParent path d with
    | ok _ e =>
      rw [hrun] at h
      cases h
    | error o e =>
      rw [hrun] at h
      cases h
      exact (StateFile.keeps_makeParent path).of_error hrun hd

theorem keeps_runWords (env : Environment) (words : List String) :
    Keeps Disk.IsTree (runWords env words) := by
  unfold runWords
  cases Settings.ofWords env.region words with
  | error fault => exact Keeps.throw (Refusal.usage fault)
  | ok settings =>
    dsimp only
    rw [pure_bind]
    cases settings.configuration env.instant env.zones with
    | error fault => exact Keeps.throw (Refusal.fault fault)
    | ok configuration =>
      dsimp only
      rw [pure_bind]
      refine (keeps_makeStateFolder _).bind fun _ ↦ Keeps.get_bind fun disk hdisk ↦ ?_
      cases StateFile.load (settings.statePath env.home) disk with
      | error fault => exact Keeps.throw (Refusal.stateFile (settings.statePath env.home) fault)
      | ok file =>
        dsimp only
        rw [pure_bind]
        have hafter : OnTree ((settings.plan configuration).run.run (file, disk)).2 :=
          Plan.onTree_run StateFile.keeps_save _ hdisk
        generalize (settings.plan configuration).run.run (file, disk) = result at hafter ⊢
        obtain ⟨summary, file, after⟩ := result
        exact Keeps.bind (Keeps.set hafter) fun _ ↦ .pure summary

/-- A run leaves a tree as a tree, whatever comes of it. -/
theorem isTree_execute (env : Environment) (words : List String) {d : Disk} (h : d.IsTree) :
    (execute env words d).2.IsTree := by
  have hruns := keeps_runWords env words
  unfold execute
  cases hrun : (runWords env words).run d with
  | ok summary after => exact hruns.of_ok hrun h
  | error refusal after => exact hruns.of_error hrun h

end CloudLedger
