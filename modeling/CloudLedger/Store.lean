import CloudLedger.Files.Disk
import CloudLedger.History

/-!
# Stores

A batch looks recorded usage up in a store and saves its reports to it.  A store may live in memory
or write to the disk when it saves, and saving may fail.  A bare history is the simplest store; it
refuses nothing but an empty list.
-/

namespace CloudLedger

open Files

class Store (σ : Type) where
  /-- Look recorded usage up. -/
  lookup : σ → Lookup Float
  /-- Save reports to the store, which may write to the disk. -/
  save : List (Report Float) → EStateM Fault (σ × Disk) Unit

def refuseEmpty {σ : Type} (reports : List (Report Float)) : EStateM Fault σ Unit :=
  if reports = [] then throw (.save .nothingToSave) else pure ()

instance : Store (History Float) where
  lookup := History.lookup
  save reports := do
    refuseEmpty reports
    modify fun (h, disk) ↦ (h.add reports, disk)

/-- Run an operation on the disk as part of something larger that can fail in other ways. -/
def onDisk {σ α : Type} (fault : Obstacle → Fault) (op : DiskOp α) :
    EStateM Fault (σ × Disk) α := fun (s, disk) ↦
  match op.run disk with
  | .ok a disk => .ok a (s, disk)
  | .error o disk => .error (fault o) (s, disk)

end CloudLedger
