import Mathlib.Tactic.SplitIfs
import TermStructure.Json.Reader

/-!
# Texts are read back

Each character is read back from its escaped form, so a text is read back from what is written for it, whatever its
characters are.
-/

namespace TermStructure.Json

open Text (escapeChar hexChar quoted)

namespace Reader

theorem hexValue?_hexChar : ∀ d < 16, hexValue? (hexChar d) = some d := by decide

/-- A control character is read back from its two digits. -/
theorem escapedPoint_hexChar {c : Char} (hc : c.toNat < 32) (rest : List Char) :
    escapedPoint ('0' :: '0' :: hexChar (c.toNat / 16) :: hexChar (c.toNat % 16) :: rest) = some (some c, rest) := by
  have hhigh := hexValue?_hexChar (c.toNat / 16) (by omega)
  have hlow := hexValue?_hexChar (c.toNat % 16) (by omega)
  have hzero : hexValue? '0' = some 0 := rfl
  have hpoint : 4096 * 0 + 256 * 0 + 16 * (c.toNat / 16) + c.toNat % 16 = c.toNat := by omega
  have hhex : hex4 ('0' :: '0' :: hexChar (c.toNat / 16) :: hexChar (c.toNat % 16) :: rest) = some (c.toNat, rest) := by
    simp only [hex4, hzero, hhigh, hlow, Option.bind_eq_bind, Option.bind_some, hpoint, Option.pure_def]
  unfold escapedPoint
  simp only [hhex, Option.bind_eq_bind, Option.bind_some]
  rw [if_neg (by omega), if_neg (by omega), Char.ofNat_toNat]
  rfl

variable (fuel : Nat) (seen : Option (List Char)) (rest : List Char)

/-- A character is read back from its escaped form. -/
theorem textEnd_escapeChar (c : Char) :
    textEnd (fuel + 1) seen (escapeChar c ++ rest) = textEnd fuel (seen.map (c :: ·)) rest := by
  unfold escapeChar
  split_ifs with hquote hslash hline hreturn htab hback hfeed hcontrol
  · rw [hquote]; rfl
  · rw [hslash]; rfl
  · rw [hline]; rfl
  · rw [hreturn]; rfl
  · rw [htab]; rfl
  · rw [hback]; rfl
  · rw [hfeed]; rfl
  · have hpoint := escapedPoint_hexChar hcontrol rest
    simp only [List.cons_append, List.nil_append]
    rw [textEnd]
    simp [hpoint]
  · rw [List.singleton_append, textEnd.eq_def]
    simp only [beq_iff_eq, hquote, hslash, hcontrol, if_false]

theorem textEnd_flatMap {cs : List Char} (hfuel : cs.length < fuel) (seen : List Char) :
    textEnd fuel (some seen) (cs.flatMap escapeChar ++ '"' :: rest)
      = some (some (String.ofList (seen.reverse ++ cs)), rest) := by
  induction cs generalizing fuel seen with
  | nil =>
    obtain ⟨fuel, rfl⟩ := Nat.exists_eq_succ_of_ne_zero (Nat.ne_of_gt hfuel)
    rw [List.append_nil]
    rfl
  | cons c cs ih =>
    obtain ⟨fuel, rfl⟩ := Nat.exists_eq_succ_of_ne_zero (Nat.ne_of_gt (Nat.zero_lt_of_lt hfuel))
    have hrest := ih fuel (Nat.lt_of_succ_lt_succ hfuel) (c :: seen)
    rw [List.reverse_cons, List.append_assoc] at hrest
    rw [List.flatMap_cons, List.append_assoc, textEnd_escapeChar]
    exact hrest

end Reader

theorem length_escapeChar_pos (c : Char) : 0 < (escapeChar c).length := by
  unfold escapeChar
  split_ifs <;> exact Nat.succ_pos _

theorem length_le_flatMap (cs : List Char) : cs.length ≤ (cs.flatMap escapeChar).length := by
  induction cs with
  | nil => exact Nat.le_refl _
  | cons c cs ih =>
    have hpos := length_escapeChar_pos c
    rw [List.flatMap_cons, List.length_append, List.length_cons]
    omega

/-- A text is read back from what is written for it. -/
theorem read?_write_string (s : String) : read? (write (.string s)) = some (.string s) := by
  have hwritten : (write (.string s)).toList = '"' :: (s.toList.flatMap escapeChar ++ ['"']) := by
    simp [write, writeTo, quoted]
  have hfuel : s.toList.length < (s.toList.flatMap escapeChar ++ ['"']).length := by
    have hle := length_le_flatMap s.toList
    rw [List.length_append, List.length_singleton]
    omega
  have htext := Reader.textEnd_flatMap _ [] hfuel []
  rw [List.reverse_nil, List.nil_append, String.ofList_toList] at htext
  have hvalue (fuel : Nat) : Reader.value (fuel + 1) (write (.string s)).toList = some (.string s, []) := by
    rw [hwritten, Reader.value]
    change (Reader.textEnd _ _ _).map _ = _
    rw [htext]
    rfl
  unfold read?
  dsimp only
  rw [hvalue]
  rfl

end TermStructure.Json
