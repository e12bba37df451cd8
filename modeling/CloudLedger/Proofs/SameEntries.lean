import CloudLedger.Proofs.Walking
import Mathlib.Data.List.Nodup

/-!
# Disks with the same entries

Where a path leads and what is read there is decided by what is found at each place, whatever order
a disk lists its entries in and whatever changes it has gone through.  Once a draft has been written
and moved into place, doing so again brings every place back to what it was; once the draft could
not be moved, it cannot be moved again.
-/

namespace CloudLedger.Files

/-- The places that a change is about. -/
def Change.places : Change → List Place
  | .madeFolder place | .wrote place _ | .removed place => [place]
  | .moved source target => [source, target]

namespace Disk

variable {d e f : Disk} {p : FilePath} {found : Place × Entry}

/-- On both disks the same is found at every place. -/
structure SameEntries (d e : Disk) : Prop where
  here_eq : e.here = d.here
  at?_eq : ∀ place, e.at? place = d.at? place

namespace SameEntries

theorem refl (d : Disk) : d.SameEntries d := ⟨rfl, fun _ ↦ rfl⟩

section

variable (h : d.SameEntries e)
include h

theorem locate_eq (p : FilePath) : e.locate p = d.locate p := by
  have henter : e.enter = d.enter := by
    funext place name
    exact enter_congr (h.at?_eq place) name
  exact locate_congr h.here_eq (by rw [henter])

theorem find_eq (p : FilePath) : e.find p = d.find p := by
  have hat : e.at? = d.at? := funext h.at?_eq
  rw [find, find, h.locate_eq, hat]

theorem read_eq (p : FilePath) : e.read p = d.read p := by
  rw [read, read, h.find_eq]

theorem isFolder_eq (p : FilePath) : e.isFolder p = d.isFolder p := by
  rw [isFolder, isFolder, h.find_eq]

theorem sameFolders : d.SameFolders e :=
  ⟨h.here_eq, fun place ↦ by rw [h.at?_eq]⟩

end

end SameEntries

/-- There is at most one entry for a place, so the order of the entries does not decide. -/
theorem find?_entries {place : Place} :
    (d.entries.find? fun entry ↦ entry.1 = place) = some found ↔
      found ∈ d.entries ∧ found.1 = place := by
  constructor
  · intro h
    exact ⟨List.mem_of_find?_eq_some h, by simpa using List.find?_some h⟩
  · rintro ⟨hmem, hplace⟩
    obtain ⟨other, hother⟩ : ∃ other, (d.entries.find? fun entry ↦ entry.1 = place) = some other :=
      Option.isSome_iff_exists.mp (List.find?_isSome.mpr ⟨found, hmem, by simpa using hplace⟩)
    have hsame : other.1 = place := by simpa using List.find?_some hother
    rw [hother, List.inj_on_of_nodup_map d.distinct (List.mem_of_find?_eq_some hother) hmem
      (hsame.trans hplace.symm)]

theorem sameEntries_of_perm (hhere : e.here = d.here) (hentries : e.entries.Perm d.entries) :
    d.SameEntries e := by
  refine ⟨hhere, fun place ↦ ?_⟩
  have hfind : (e.entries.find? fun entry ↦ entry.1 = place) =
      d.entries.find? fun entry ↦ entry.1 = place := by
    ext found
    rw [find?_entries, find?_entries, hentries.mem_iff]
  rw [at?, at?, hhere, hfind]

end Disk

namespace DiskOp

open Disk

variable {d e f : Disk} {p q : FilePath} {content : List UInt8} {o : Obstacle}

theorem at?_of_read {place : Place} (hplace : d.locate p = .ok place)
    (hread : d.read p = .ok content) : d.at? place = some (.file content) := by
  obtain ⟨other, ⟨hother, -⟩, hfile⟩ := accepts_of_read hread
  obtain rfl := Except.ok.inj (hplace.symm.trans hother)
  exact hfile

theorem journal_of_write_move (hwrite : (write p content).run d = .ok () e)
    (hmove : (move p q).run e = .ok () f) :
    ∃ source target, d.locate p = .ok source ∧ d.locate q = .ok target ∧
      f.journal = .moved source target :: .wrote source content :: d.journal := by
  obtain ⟨source, hsource, rfl⟩ := write_eq_ok.mp hwrite
  have hsame := (sameFolders_put content hsource.2.2).noting (.wrote source content)
  obtain ⟨source', content', target, hsource', -, htarget, rfl⟩ := move_eq_ok.mp hmove
  obtain rfl := Except.ok.inj ((locate_of_keepsFolders hsame.keepsFolders hsource.1).symm.trans
    hsource')
  exact ⟨source, target, hsource.1, (htarget.of_sameFolders hsame.symm).1, rfl⟩

/-- A draft that has been written and moved can be written and moved again, and then every place is
as it was. -/
theorem write_move_again (hwrite : (write p content).run d = .ok () e)
    (hmove : (move p q).run e = .ok () f) :
    ∃ g h, (write p content).run f = .ok () g ∧ (move p q).run g = .ok () h ∧ f.SameEntries h ∧
      ∃ source target, f.locate p = .ok source ∧ f.locate q = .ok target ∧
        h.journal = .moved source target :: .wrote source content :: f.journal := by
  have hread := (publishes hwrite hmove).read_eq
  obtain ⟨source, target, hsource, htarget, hsame, -, hgone⟩ := entries_of_write_move hwrite hmove
  have hsource := hsource.of_sameFolders hsame
  have htarget := htarget.of_sameFolders hsame
  obtain ⟨g, h, hwrite', hmove'⟩ := publishes_of_accepts content hsource htarget
  have hread' := (publishes hwrite' hmove').read_eq
  obtain ⟨source', target', hsource', htarget', hsame', hrest, hgone'⟩ :=
    entries_of_write_move hwrite' hmove'
  obtain rfl := Except.ok.inj (hsource.1.symm.trans hsource'.1)
  obtain rfl := Except.ok.inj (htarget.1.symm.trans htarget'.1)
  refine ⟨g, h, hwrite', hmove', ⟨hsame'.here_eq, fun place ↦ ?_⟩,
    journal_of_write_move hwrite' hmove'⟩
  by_cases hplace : place = target
  · rw [hplace, at?_of_read htarget.1 hread,
      at?_of_read (locate_of_keepsFolders hsame'.keepsFolders htarget.1) hread']
  · by_cases hplace' : place = source
    · rw [hplace', hgone' (hplace' ▸ hplace), hgone (hplace' ▸ hplace)]
    · exact hrest place hplace' hplace

/-- A file that cannot be moved on one disk cannot be moved on another one with the same entries. -/
theorem move_error_of_sameEntries (h : d.SameEntries e) (hmove : (move p q).run d = .error o f) :
    (move p q).run e = .error o e := by
  have hat : e.at? = d.at? := funext h.at?_eq
  rw [move_run] at hmove ⊢
  rw [h.locate_eq, h.read_eq, h.locate_eq, hat]
  split at hmove
  · cases hmove
    rfl
  · cases hmove
    rfl
  · cases hmove
    rfl
  · split_ifs at hmove ⊢
    · cases hmove
      rfl
    · cases hmove
      rfl

/-- A draft that has been written and could not be moved can be written and not be moved again, and
then every place is as it was. -/
theorem write_move_error_again (hwrite : (write p content).run d = .ok () e)
    (hmove : (move p q).run e = .error o e) :
    ∃ f, (write p content).run e = .ok () f ∧ (move p q).run f = .error o f ∧ e.SameEntries f ∧
      ∃ source, e.locate p = .ok source ∧ f.journal = .wrote source content :: e.journal := by
  obtain ⟨source, hsource, he⟩ := write_eq_ok.mp hwrite
  have hsame := (sameFolders_put content hsource.2.2).noting (.wrote source content)
  have hfile : e.at? source = some (.file content) := by
    rw [he, at?_noting, at?_put_of_accepts content hsource]
  have hsource : e.Accepts p source := hsource.of_sameFolders (he ▸ hsame)
  let f := (e.put source (.file content)).noting (.wrote source content)
  have hagain : (write p content).run e = .ok () f := write_eq_ok.mpr ⟨source, hsource, rfl⟩
  have hentries : e.SameEntries f := by
    refine ⟨rfl, fun place ↦ ?_⟩
    by_cases hplace : place = source
    · rw [hplace, hfile, at?_noting, at?_put_of_accepts content hsource]
    · rw [at?_noting, at?_put_of_ne hplace]
  exact ⟨f, hagain, move_error_of_sameEntries hentries hmove, hentries, source, hsource.1, rfl⟩

end DiskOp

end CloudLedger.Files
