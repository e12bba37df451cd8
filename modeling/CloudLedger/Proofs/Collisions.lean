import CloudLedger.Proofs.Identity
import CloudLedger.Proofs.Pipeline

/-!
# What two identities have in common

The bytes that an identity is digested from determine the provider, the day and the texts of the
line as they are joined, and nothing more: free texts with separators in them can be joined to the
same text.  The hexadecimal digits of a digest determine its bytes.  So reports of different
providers or days have one identity only if two different byte strings have one digest.
-/

namespace CloudLedger

namespace Digest.Sha256

variable {m n : Nat} {b c : UInt8} {bs cs message other : List UInt8}

theorem digitChar_injective (hm : m < 16) (hn : n < 16)
    (h : Nat.digitChar m = Nat.digitChar n) : m = n := by
  have hall : ∀ i j : Fin 16, Nat.digitChar i = Nat.digitChar j → i = j := by decide
  exact congrArg Fin.val (hall ⟨m, hm⟩ ⟨n, hn⟩ h)

theorem hexByte_injective (h : hexByte b = hexByte c) : b = c := by
  have hb := b.toNat_lt
  have hc := c.toNat_lt
  rw [hexByte, hexByte, List.cons.injEq, List.cons.injEq] at h
  have hhigh : b.toNat / 16 = c.toNat / 16 := digitChar_injective (by omega) (by omega) h.1
  have hlow : b.toNat % 16 = c.toNat % 16 := digitChar_injective (by omega) (by omega) h.2.1
  rw [← UInt8.toNat_inj]
  omega

theorem flatMap_hexByte_injective (h : bs.flatMap hexByte = cs.flatMap hexByte) : bs = cs := by
  induction bs generalizing cs with
  | nil => cases cs with
    | nil => rfl
    | cons c cs => simp [hexByte] at h
  | cons b bs ih => cases cs with
    | nil => simp [hexByte] at h
    | cons c cs =>
      rw [List.flatMap_cons, List.flatMap_cons] at h
      obtain ⟨hbyte, hrest⟩ := List.append_inj h rfl
      rw [hexByte_injective hbyte, ih hrest]

theorem digest_eq_of_hexDigest_eq (h : hexDigest message = hexDigest other) :
    digest message = digest other :=
  flatMap_hexByte_injective (String.ofList_injective h)

/-- Two different messages with one digest. -/
structure Collision (message other : List UInt8) : Prop where
  ne : message ≠ other
  digest_eq : digest message = digest other

end Digest.Sha256

namespace Identity

open Digest.Sha256

variable {α : Type} {r s : Report α}

/-- Reports with one identity are digested from the same bytes, or their bytes collide. -/
theorem preimage_eq_or_collision (hr : r.IsDerived) (hs : s.IsDerived) (hid : r.id = s.id) :
    preimage r.line r.period = preimage s.line s.period ∨
      Collision (preimage r.line r.period) (preimage s.line s.period) := by
  rw [hr, hs] at hid
  by_cases hbytes : preimage r.line r.period = preimage s.line s.period
  · exact .inl hbytes
  · exact .inr ⟨hbytes, digest_eq_of_hexDigest_eq (congrArg Identity.digest hid)⟩

/-- Two lines on two days are digested from the same bytes exactly if their providers, their days
and their joined texts are the same; texts without separators are then the same one by one.  Reports
of different providers or days have one identity only by a collision of digests. -/
theorem determined_by_preimage (line other : Line) (period day : Period) :
    (preimage line period = preimage other day ↔
      line.provider = other.provider ∧ period.year = day.year ∧ period.month = day.month ∧
        period.day = day.day ∧ line.joined = other.joined) ∧
    (preimage line period = preimage other day → line.IsPlain → other.IsPlain →
      line = other ∧ period = day) ∧
    ∀ {α : Type} (r s : Report α), r.IsDerived → s.IsDerived → r.id = s.id →
      r.line.provider ≠ s.line.provider ∨ r.period ≠ s.period →
      Collision (preimage r.line r.period) (preimage s.line s.period) := by
  have hperiod : period = day ↔
      period.year = day.year ∧ period.month = day.month ∧ period.day = day.day := by
    cases period
    cases day
    simp only [Period.mk.injEq]
    tauto
  refine ⟨?_, fun hbytes hline hother ↦ ?_, fun r s hr hs hid hdiffer ↦ ?_⟩
  · rw [preimage_eq_iff, hperiod, and_assoc, and_assoc]
  · obtain ⟨hprovider, hday, hjoined⟩ := preimage_eq_iff.mp hbytes
    exact ⟨Line.eq_of_joined hline hother hprovider hjoined, hday⟩
  · apply (preimage_eq_or_collision hr hs hid).resolve_left
    intro hbytes
    obtain ⟨hprovider, hday, -⟩ := preimage_eq_iff.mp hbytes
    exact hdiffer.elim (· hprovider) (· hday)

/-- A separator within the account or within the service leaves the bytes the same, but moving the
last digit of the year to the month does not. -/
theorem determined_by_preimage_separated :
    preimage ⟨.gcp, "a\x1Fb", "c", ""⟩ ⟨1, 2, -201⟩ =
        preimage ⟨.gcp, "a", "b\x1Fc", ""⟩ ⟨1, 2, -201⟩ ∧
      preimage ⟨.gcp, "a", "b", "-2\x1F01"⟩ ⟨1, 12, -20⟩ ≠
        preimage ⟨.gcp, "a", "b", "-2\x1F01"⟩ ⟨1, 2, -201⟩ := by
  refine ⟨(determined_by_preimage _ _ _ _).1.mpr (by decide), fun h ↦ ?_⟩
  have hyear := ((determined_by_preimage _ _ _ _).1.mp h).2.1
  revert hyear
  decide

end Identity

end CloudLedger
