import CloudLedger.Proofs.Utf8
import CloudLedger.StateFile.Render

/-!
# Strings of a state file are read back

Between the quotes of a string every character is written as bytes that the scanner turns into the
UTF-8 bytes of that character and that do not end the string.
-/

namespace CloudLedger.StateFile
open Text

variable {matters : Bool} {read bs rest : List UInt8}

theorem stringBytes_step {spot next : Spot} {b : UInt8} {more : List UInt8}
    (hends : spot.endsAt b = false) (hstep : stringStep matters spot b = .ok (next, more)) :
    stringBytes matters spot read (b :: bs) =
      stringBytes matters next (more.reverse ++ read) bs := by
  rw [stringBytes, hends, hstep]
  rfl

/-- A byte that is neither a quote, a backslash nor a control character stands for itself. -/
theorem stringBytes_plain {b : UInt8} (hquote : b ≠ quote) (hbackslash : b ≠ backslash)
    (hcontrol : ¬ b < 0x20) :
    stringBytes matters .plain read (b :: bs) = stringBytes matters .plain (b :: read) bs := by
  have hends : Spot.plain.endsAt b = false := by simpa [Spot.endsAt] using hquote
  have hstep : stringStep matters .plain b = .ok (.plain, [b]) := by
    rw [stringStep, if_neg hbackslash, if_neg hcontrol]
  exact stringBytes_step hends hstep

theorem stringBytes_allPlain {plain : List UInt8}
    (h : ∀ b ∈ plain, b ≠ quote ∧ b ≠ backslash ∧ ¬ b < 0x20) :
    stringBytes matters .plain read (plain ++ bs) =
      stringBytes matters .plain (plain.reverse ++ read) bs := by
  induction plain generalizing read with
  | nil => rfl
  | cons b rest ih =>
    obtain ⟨hquote, hbackslash, hcontrol⟩ := h b List.mem_cons_self
    rw [List.cons_append, stringBytes_plain hquote hbackslash hcontrol,
      ih fun c hc ↦ h c (List.mem_cons_of_mem b hc), List.reverse_cons, List.append_assoc]
    rfl

theorem stringBytes_letter {b meant : UInt8} (hb : b ≠ byteOf 'u')
    (hmeant : letterEscapes.lookup b = some meant) :
    stringBytes matters .plain read (backslash :: b :: bs) =
      stringBytes matters .plain (meant :: read) bs := by
  have hescape : stringStep matters .escape b = .ok (.plain, [meant]) := by
    simp only [stringStep, if_neg hb, hmeant]
  rw [stringBytes_step rfl rfl, stringBytes_step rfl hescape]
  rfl

theorem stringBytes_control {n : Nat} (h : n < 0x20) :
    stringBytes true .plain read
        (backslash :: byteOf 'u' :: byteOf '0' :: byteOf '0' :: (hexDigits n ++ bs)) =
      stringBytes true .plain ((String.utf8EncodeChar (Char.ofNat n)).reverse ++ read) bs := by
  have hdigits : ∀ n < 0x20, hexNumber? [byteOf '0', byteOf '0', byteOf (Nat.digitChar (n / 16)),
      byteOf (Nat.digitChar (n % 16))] = some n := by
    decide
  have hfirst : isFirstHalf n = false := by simp [isFirstHalf]; omega
  have hsecond : isSecondHalf n = false := by simp [isSecondHalf]; omega
  have hlast : stringStep true
      (.hex none [byteOf (Nat.digitChar (n / 16)), byteOf '0', byteOf '0'])
      (byteOf (Nat.digitChar (n % 16))) =
        .ok (.plain, String.utf8EncodeChar (Char.ofNat n)) := by
    simp [stringStep, hdigits n h, finishHex, hfirst, hsecond]
  rw [stringBytes_step rfl rfl, stringBytes_step rfl rfl, stringBytes_step rfl rfl,
    stringBytes_step rfl rfl, hexDigits, List.cons_append, stringBytes_step rfl rfl,
    List.singleton_append, stringBytes_step rfl hlast]
  rfl

/-- The bytes of a character beyond ASCII, or of a printable one, stand for themselves. -/
theorem plain_of_mem_utf8EncodeChar {c : Char} (hcontrol : ¬ c.toNat < 0x20) (hquote : c ≠ '"')
    (hbackslash : c ≠ '\\') :
    ∀ b ∈ String.utf8EncodeChar c, b ≠ quote ∧ b ≠ backslash ∧ ¬ b < 0x20 := by
  have hplain : ∀ n < 256, ¬ n < 0x20 → n ≠ 0x22 → n ≠ 0x5C →
      UInt8.ofNat n ≠ quote ∧ UInt8.ofNat n ≠ backslash ∧ ¬ UInt8.ofNat n < 0x20 := by
    intro n hn hcontrol hquote hbackslash
    have htoNat := Utf8.toNat_ofNat hn
    refine ⟨fun heq ↦ hquote ?_, fun heq ↦ hbackslash ?_, fun hlt ↦ hcontrol ?_⟩
    · rw [← htoNat, heq]
      rfl
    · rw [← htoNat, heq]
      rfl
    · rw [UInt8.lt_iff_toNat_lt, htoNat] at hlt
      exact hlt
  have hquote' : c.val.toNat ≠ 0x22 := fun h ↦ hquote (Char.ext (UInt32.toNat_inj.mp h))
  have hbackslash' : c.val.toNat ≠ 0x5C := fun h ↦ hbackslash (Char.ext (UInt32.toNat_inj.mp h))
  have hcontrol' : ¬ c.val.toNat < 0x20 := hcontrol
  have hmax : c.val.toNat < 0x110000 := by
    rcases c.valid with h | h
    · exact Nat.lt_trans h (by decide)
    · exact h.2
  unfold String.utf8EncodeChar
  dsimp only
  generalize c.val.toNat = n at *
  intro b hb
  split_ifs at hb with h1 h2 h3
  · rw [List.mem_singleton] at hb
    rw [hb]
    exact hplain n (by omega) hcontrol' hquote' hbackslash'
  · simp only [List.mem_cons, List.not_mem_nil, or_false] at hb
    rcases hb with rfl | rfl
    all_goals exact hplain _ (by omega) (by omega) (by omega) (by omega)
  · simp only [List.mem_cons, List.not_mem_nil, or_false] at hb
    rcases hb with rfl | rfl | rfl
    all_goals exact hplain _ (by omega) (by omega) (by omega) (by omega)
  · simp only [List.mem_cons, List.not_mem_nil, or_false] at hb
    rcases hb with rfl | rfl | rfl | rfl
    all_goals exact hplain _ (by omega) (by omega) (by omega) (by omega)

theorem stringBytes_escaped (c : Char) :
    stringBytes true .plain read (escaped c ++ bs) =
      stringBytes true .plain ((String.utf8EncodeChar c).reverse ++ read) bs := by
  unfold escaped
  split_ifs with h1 h2 h3 h4 h5 h6 h7 h8
  · subst h1
    exact stringBytes_letter (by decide) rfl
  · subst h2
    exact stringBytes_letter (by decide) rfl
  · subst h3
    exact stringBytes_letter (by decide) rfl
  · subst h4
    exact stringBytes_letter (by decide) rfl
  · subst h5
    exact stringBytes_letter (by decide) rfl
  · subst h6
    exact stringBytes_letter (by decide) rfl
  · subst h7
    exact stringBytes_letter (by decide) rfl
  · rw [List.append_assoc]
    have hcontrol := @stringBytes_control read bs c.toNat h8
    rwa [Char.ofNat_toNat] at hcontrol
  · exact stringBytes_allPlain (plain_of_mem_utf8EncodeChar h8 h1 h2)

/-- A string that is written is read back, whatever follows it. -/
theorem string_renderString (s : String) (rest : List UInt8) :
    string (s.toList.flatMap escaped ++ quote :: rest) = .ok (s, rest) := by
  have hbytes : ∀ (cs : List Char) (read : List UInt8),
      stringBytes true .plain read (cs.flatMap escaped ++ quote :: rest) =
        .ok ((read.reverse ++ cs.flatMap String.utf8EncodeChar), rest) := by
    intro cs
    induction cs with
    | nil => intro read; simp [stringBytes, Spot.endsAt]
    | cons c cs ih =>
      intro read
      rw [List.flatMap_cons, List.append_assoc, stringBytes_escaped, ih]
      simp
  have hdecode : Utf8.decode? ([] ++ s.toList.flatMap String.utf8EncodeChar) = some s :=
    Utf8.decode?_encode s
  rw [string, hbytes]
  dsimp only [bind, Except.bind, List.reverse_nil]
  rw [hdecode]

end CloudLedger.StateFile
