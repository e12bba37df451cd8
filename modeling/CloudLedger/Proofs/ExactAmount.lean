import CloudLedger.Amount.Measures
import Mathlib.Algebra.BigOperators.Group.List.Basic
import Mathlib.Data.Rat.Lemmas

/-!
# Exact amounts

Laws about sums and differences of figures hold as they stand only for amounts that are never
rounded.  An `ExactAmount` is an amount whose sums and differences are those of a commutative group;
then usage and cost together form such a group too.  Rational numbers are the exact amounts that
cells denote: every decimal is one of them.
-/

namespace CloudLedger

/-- Amounts that are added and subtracted exactly. -/
class ExactAmount (α : Type) extends AddCommGroup α, Amount α

namespace Measures

variable {α : Type}

@[ext]
theorem ext {m n : Measures α} (husage : m.usage = n.usage) (hcost : m.cost = n.cost) : m = n := by
  cases m
  cases n
  simp_all

section Parts

variable [Amount α] (m n : Measures α)

@[simp]
theorem zero_usage : (0 : Measures α).usage = 0 := rfl

@[simp]
theorem zero_cost : (0 : Measures α).cost = 0 := rfl

@[simp]
theorem add_usage : (m + n).usage = m.usage + n.usage := rfl

@[simp]
theorem add_cost : (m + n).cost = m.cost + n.cost := rfl

@[simp]
theorem sub_usage : (m - n).usage = m.usage - n.usage := rfl

@[simp]
theorem sub_cost : (m - n).cost = m.cost - n.cost := rfl

end Parts

variable [ExactAmount α]

instance : Neg (Measures α) := ⟨fun m ↦ ⟨-m.usage, -m.cost⟩⟩

@[simp]
theorem neg_usage (m : Measures α) : (-m).usage = -m.usage := rfl

@[simp]
theorem neg_cost (m : Measures α) : (-m).cost = -m.cost := rfl

instance : AddCommGroup (Measures α) where
  add_assoc m n k := by ext <;> simp [add_assoc]
  zero_add m := by ext <;> simp
  add_zero m := by ext <;> simp
  neg_add_cancel m := by ext <;> simp
  add_comm m n := by ext <;> simp [add_comm]
  sub_eq_add_neg m n := by ext <;> simp [sub_eq_add_neg]
  nsmul := nsmulRec
  zsmul := zsmulRec

/-- Adding figures one by one adds their sum. -/
theorem foldl_add_eq_sum {ι : Type} (f : ι → Measures α) (items : List ι) (start : Measures α) :
    items.foldl (fun total item ↦ total + f item) start = start + (items.map f).sum := by
  induction items generalizing start with
  | nil => simp
  | cons item rest ih => rw [List.foldl_cons, ih, List.map_cons, List.sum_cons, add_assoc]

end Measures

/-! ## Rational amounts -/

namespace Amount

/-- The value of a decimal. -/
def Written.value (w : Written) : ℚ :=
  if 0 ≤ w.exponent then w.significand * 10 ^ w.exponent.natAbs
  else w.significand / 10 ^ w.exponent.natAbs

/-- The exact number in a cell, or zero if it holds none. -/
def exactNumber (cell : String) : ℚ :=
  let (negative, rest) := splitSign (Text.trimChars cell.toList)
  let magnitude := ((readWritten? rest).map Written.value).getD 0
  if negative then -magnitude else magnitude

end Amount

instance : ExactAmount ℚ where
  ofCell := Amount.exactNumber

end CloudLedger
