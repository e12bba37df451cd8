import CloudLedger.Proofs.Trees
import CloudLedger.Proofs.Utf8
import Mathlib.Data.List.Lex
import Mathlib.Data.String.Basic

/-!
# The order of paths

Paths come in the order of their components, and names in the order of their bytes.  Within a folder
this is the order of the names on the way down, character by character.
-/

namespace CloudLedger

/-! ## Texts and their bytes -/

namespace Text.Utf8

/-- Of two numbers the first digit to base 64 that differs decides. -/
theorem digit_lt {m n : Nat} (h : m < n) :
    m / 2 ^ 6 < n / 2 ^ 6 ∨ m / 2 ^ 6 = n / 2 ^ 6 ∧ m % 2 ^ 6 < n % 2 ^ 6 := by
  omega

theorem digits_lt {m n : Nat} (h : m < n) : m / 2 ^ 18 < n / 2 ^ 18 ∨ m / 2 ^ 18 = n / 2 ^ 18 ∧
    (m / 2 ^ 12 % 2 ^ 6 < n / 2 ^ 12 % 2 ^ 6 ∨ m / 2 ^ 12 % 2 ^ 6 = n / 2 ^ 12 % 2 ^ 6 ∧
      (m / 2 ^ 6 % 2 ^ 6 < n / 2 ^ 6 % 2 ^ 6 ∨ m / 2 ^ 6 % 2 ^ 6 = n / 2 ^ 6 % 2 ^ 6 ∧
        m % 2 ^ 6 < n % 2 ^ 6)) := by
  have hdiv (k : Nat) :
      k / 2 ^ 12 = k / 2 ^ 6 / 2 ^ 6 ∧ k / 2 ^ 18 = k / 2 ^ 6 / 2 ^ 6 / 2 ^ 6 := by omega
  rw [(hdiv m).1, (hdiv m).2, (hdiv n).1, (hdiv n).2]
  rcases digit_lt h with hlt | ⟨heq, hlast⟩
  · rcases digit_lt hlt with hlt | ⟨heq, hthird⟩
    · rcases digit_lt hlt with hlt | ⟨heq, hsecond⟩
      · exact .inl hlt
      · exact .inr ⟨heq, .inl hsecond⟩
    · rw [heq]
      exact .inr ⟨rfl, .inr ⟨rfl, .inl hthird⟩⟩
  · rw [heq]
    exact .inr ⟨rfl, .inr ⟨rfl, .inr ⟨rfl, hlast⟩⟩⟩

/-- The bytes of a lower character come first, whatever follows them. -/
theorem utf8EncodeChar_lex {c d : Char} (h : c < d) (rest more : List UInt8) :
    List.Lex (· < ·) (String.utf8EncodeChar c ++ rest) (String.utf8EncodeChar d ++ more) := by
  have hlt : c.val.toNat < d.val.toNat := h
  have hvalid : d.val.toNat < 0xD800 ∨ 0xDFFF < d.val.toNat ∧ d.val.toNat < 0x110000 := d.valid
  have hdigits := digits_lt hlt
  unfold String.utf8EncodeChar
  dsimp only
  generalize c.val.toNat = m at *
  generalize d.val.toNat = n at *
  have hm : m / 2 ^ 18 % 2 ^ 3 = m / 2 ^ 18 := Nat.mod_eq_of_lt (by omega)
  have hn : n / 2 ^ 18 % 2 ^ 3 = n / 2 ^ 18 := Nat.mod_eq_of_lt (by omega)
  split_ifs <;>
    simp (disch := omega) only [List.cons_append, List.nil_append, List.cons_lex_cons_iff,
      UInt8.lt_iff_toNat_lt, ← UInt8.toNat_inj, toNat_ofNat] <;>
    omega

/-- Texts come in the order of their bytes. -/
theorem encode_lex {s t : String} (h : s < t) : List.Lex (· < ·) (encode s) (encode t) := by
  have hlex : List.Lex (· < ·) s.toList t.toList := String.lt_iff_toList_lt.mp h
  rw [encode, encode]
  generalize s.toList = cs at hlex
  generalize t.toList = ds at hlex
  induction hlex with
  | @nil d ds =>
    obtain ⟨b, bs, hbytes⟩ := List.exists_cons_of_ne_nil (String.utf8EncodeChar_ne_nil (c := d))
    rw [List.flatMap_cons, hbytes]
    exact .nil
  | rel hcd => exact utf8EncodeChar_lex hcd _ _
  | cons _ ih => exact List.Lex.append_left _ ih _

end Text.Utf8

/-! ## The components of a path -/

namespace Files

/-- What a path consists of: perhaps the root or a dot at its start, steps up, and names. -/
inductive Component where
  | root
  | here
  | up
  | name (name : String)

namespace Component

/-- The component that a piece stands for; a dot stands for one only at the start of a path. -/
def ofPiece (piece : String) : Component := if piece = ".." then .up else .name piece

/-- The kinds of components are in order. -/
def rank : Component → Nat
  | .root => 0
  | .here => 1
  | .up => 2
  | .name _ => 3

def bytes : Component → List UInt8
  | .name text => Text.Utf8.encode text
  | _ => []

/-- Whether a component comes before another one: by its kind, or as a name by its bytes. -/
def Before (a b : Component) : Prop :=
  a.rank < b.rank ∨ a.rank = b.rank ∧ List.Lex (· < ·) a.bytes b.bytes

theorem Before.irrefl (a : Component) : ¬ a.Before a := by
  rintro (hrank | ⟨-, hbytes⟩)
  · exact absurd hrank (Nat.lt_irrefl _)
  · exact List.lex_irrefl UInt8.lt_irrefl _ hbytes

end Component

namespace FilePath

variable {p : FilePath} {name : String}

/-- The components of a path: empty pieces say nothing, and a dot only at the start. -/
def components (p : FilePath) : List Component :=
  (if p.isAbsolute then [.root] else if p.names.head? = some "." then [.here] else []) ++
    (further p.names).map .ofPiece

/-- Whether a path comes before another one: the first components that differ decide, and an end
comes before any component. -/
def Before (p q : FilePath) : Prop := List.Lex Component.Before p.components q.components

theorem Before.irrefl (p : FilePath) : ¬ p.Before p :=
  List.lex_irrefl Component.Before.irrefl _

theorem components_join (hname : IsName name) :
    (p.join name).components = p.components ++ [Component.name name] := by
  have hhead : (p.names ++ [name]).head? = some "." ↔ p.names.head? = some "." := by
    cases p.names with
    | nil => simpa using hname.ne_dot
    | cons first rest => rfl
  have hpiece : (further [name]).map Component.ofPiece = [Component.name name] := by
    simp [further, hname.ne_dot, Component.ofPiece, hname.ne_up]
  simp only [components, isAbsolute_join hname.plain, names_join hname.plain hname.ne_empty, hhead,
    further_append, List.map_append, hpiece, List.append_assoc]

end FilePath

end Files

/-! ## The order of the ways down -/

namespace Source

open Files

section ComesFirst

variable {β : Type} [DecidableEq β] [LinearOrder β] {before : β → β → Bool}

/-- If elements that differ are put in order, so are lists. -/
theorem comesFirst_iff (hbefore : ∀ a b, a ≠ b → (before a b ↔ a < b)) {as bs : List β} :
    comesFirst before as bs ↔ as ≤ bs := by
  induction as generalizing bs with
  | nil => cases bs <;> simp [comesFirst, le_iff_lt_or_eq]
  | cons a as ih =>
    cases bs with
    | nil => simp [comesFirst, le_iff_lt_or_eq]
    | cons b bs =>
      rw [comesFirst, le_iff_lt_or_eq, List.cons_lt_cons_iff, List.cons.injEq]
      split_ifs with hab
      · simp [hab, ih, le_iff_lt_or_eq]
      · simp [hab, hbefore a b hab]

end ComesFirst

theorem nameLe_iff {a b : String} : nameLe a b ↔ a ≤ b := by
  rw [nameLe, comesFirst_iff, String.le_iff_toList_le]
  intro c d _
  exact decide_eq_true_iff

theorem wayLe_iff {as bs : List String} : wayLe as bs ↔ as ≤ bs := by
  rw [wayLe, comesFirst_iff]
  intro a b hab
  rw [nameLe_iff, lt_iff_le_and_ne]
  exact ⟨fun hle ↦ ⟨hle, hab⟩, And.left⟩

variable {top : FilePath} {ways more : List String}

theorem components_pathBelow (hways : ∀ name ∈ ways, IsName name) :
    (pathBelow top ways).components = top.components ++ ways.map .name := by
  refine pathBelow_induction (motive := fun ways p ↦
    p.components = top.components ++ ways.map .name) (List.append_nil _).symm ?_ hways
  intro ways name p hname ih
  rw [FilePath.components_join hname, ih, List.append_assoc, List.map_append, List.map_singleton]

/-- The paths of ordered ways down are in order. -/
theorem before_pathBelow (h : ways < more) (hways : ∀ name ∈ ways, IsName name)
    (hmore : ∀ name ∈ more, IsName name) : (pathBelow top ways).Before (pathBelow top more) := by
  rw [FilePath.Before, components_pathBelow hways, components_pathBelow hmore]
  refine List.Lex.append_left _ ?_ _
  clear hways hmore
  have hlex : List.Lex (· < ·) ways more := h
  induction hlex with
  | nil => exact .nil
  | rel hlt => exact .rel (.inr ⟨rfl, Text.Utf8.encode_lex hlt⟩)
  | cons _ ih => exact .cons (ih ‹_›)

end Source

end CloudLedger
