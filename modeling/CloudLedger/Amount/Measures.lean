import CloudLedger.Amount.Reading

/-!
# Usage and cost

Every report carries two amounts, the quantity used and its cost, and they are always added and
subtracted together.  The rest of the library asks no more of an amount than a zero, a sum, a
difference and a way to read one from a cell, so that its laws can be stated for exact numbers as
well as for the floating-point numbers of the files.
-/

namespace CloudLedger

/-- Numbers that measure usage and cost. -/
class Amount (α : Type) extends Zero α, Add α, Sub α where
  /-- The amount in a cell. -/
  ofCell : String → α

instance : Amount Float where
  ofCell := Amount.readMeasure

/-- The quantity used and what it cost. -/
structure Measures (α : Type) where
  usage : α
  cost : α
deriving DecidableEq

namespace Measures

variable {α : Type} [Amount α]

instance : Zero (Measures α) := ⟨⟨0, 0⟩⟩

instance : Add (Measures α) := ⟨fun m n ↦ ⟨m.usage + n.usage, m.cost + n.cost⟩⟩

instance : Sub (Measures α) := ⟨fun m n ↦ ⟨m.usage - n.usage, m.cost - n.cost⟩⟩

def ofCells (usage cost : String) : Measures α := ⟨Amount.ofCell usage, Amount.ofCell cost⟩

end Measures

end CloudLedger
