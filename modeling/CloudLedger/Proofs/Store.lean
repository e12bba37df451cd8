import CloudLedger.Proofs.Disk
import CloudLedger.Proofs.History
import CloudLedger.StateFile

/-!
# Stores that keep a history

A history that lives in memory and one that is kept in a file are looked up and saved to in the same
way.  A state file writes to the disk only when something is new, and counts it only when the disk
has it.
-/

namespace CloudLedger

open Files

/-- Stores that amount to a history: it answers look-ups, saving adds to it, and saving what it
holds already changes nothing. -/
class KeepsHistory (σ : Type) [Store σ] where
  history : σ → History Float
  lookup_eq (s : σ) : Store.lookup s = (history s).lookup
  save_ok {reports : List (Report Float)} {s t : σ} {d e : Disk} :
    (Store.save reports).run (s, d) = .ok () (t, e) → history t = (history s).add reports
  save_known {reports : List (Report Float)} (s : σ) (d : Disk) :
    reports ≠ [] → (∀ r ∈ reports, r.id ∈ (history s).ids) →
    (Store.save reports).run (s, d) = .ok () (s, d)

theorem onDisk_run {σ α : Type} (fault : Obstacle → Fault) (op : DiskOp α) (s : σ) (d : Disk) :
    (onDisk fault op).run (s, d) = match op.run d with
      | .ok a e => .ok a (s, e)
      | .error o e => .error (fault o) (s, e) := rfl

instance : KeepsHistory (History Float) where
  history h := h
  lookup_eq _ := rfl
  save_ok {reports _ _ _ _} h := by
    cases reports with
    | nil => cases h
    | cons r rest =>
      cases h
      rfl
  save_known {reports} s d hne hknown := by
    cases reports with
    | nil => exact absurd rfl hne
    | cons r rest =>
      change EStateM.Result.ok () (s.add (r :: rest), d) = _
      rw [History.add_eq_self hknown]

namespace StateFile

variable {reports : List (Report Float)}

theorem save_run (hne : reports ≠ []) (s : StateFile) (d : Disk) :
    (Store.save reports).run (s, d) =
      if s.history.additions reports = [] then
        .ok () ({ s with history := s.history.add reports }, d)
      else match (replace s.path (s.history.add reports).reports).run d with
        | .ok _ e => .ok () ({ s with history := s.history.add reports }, e)
        | .error o e => .error (.save (.file s.path o)) (s, e) := by
  have hcount : 0 < (s.history.insertIgnore reports).2 ↔ s.history.additions reports ≠ [] := by
    rw [History.insertIgnore_count, List.length_pos_iff]
  simp only [Store.save, refuseEmpty, if_neg hne, pure_bind, EStateM.run_bind, EStateM.run_get,
    hcount]
  by_cases hnone : s.history.additions reports = []
  · rw [if_neg (not_not.mpr hnone), if_pos hnone]
    rfl
  · rw [if_pos hnone, if_neg hnone, EStateM.run_bind, onDisk_run, History.add]
    cases (replace s.path (s.history.insertIgnore reports).1.reports).run d <;> rfl

instance : KeepsHistory StateFile where
  history := StateFile.history
  lookup_eq _ := rfl
  save_ok {reports s t d e} h := by
    by_cases hne : reports = []
    · subst hne
      cases h
    · rw [save_run hne] at h
      split at h
      · cases h
        rfl
      · split at h
        · cases h
          rfl
        · cases h
  save_known {reports} s d hne hknown := by
    rw [save_run hne, if_pos (History.additions_eq_nil.mpr hknown), History.add_eq_self hknown]

end StateFile

end CloudLedger
