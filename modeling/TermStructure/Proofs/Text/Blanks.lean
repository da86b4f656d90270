import Mathlib.Data.List.TakeWhile
import TermStructure.Text.Blank

/-!
# Blanks around a text

Blanks are passed over up to the first character that is none. Trimming takes away the blanks at both ends and nothing
else.
-/

namespace TermStructure.Text

/-- No character that `p` holds of stands in front. -/
def Stops (p : Char → Bool) (cs : List Char) : Prop := ∀ c ∈ cs.head?, p c = false

section
variable {p : Char → Bool} {cs : List Char}

theorem stops_nil : Stops p [] := nofun

theorem stops_cons {c : Char} (hc : p c = false) (rest : List Char) : Stops p (c :: rest) := by
  intro d hd
  cases hd
  exact hc

theorem Stops.append (h : Stops p cs) (hne : cs ≠ []) (rest : List Char) : Stops p (cs ++ rest) := by
  cases cs with
  | nil => exact absurd rfl hne
  | cons c cs => exact stops_cons (h c rfl) _

theorem Stops.append_stops {rest : List Char} (h : Stops p cs) (hrest : Stops p rest) : Stops p (cs ++ rest) := by
  cases cs with
  | nil => exact hrest
  | cons c cs => exact stops_cons (h c rfl) _

theorem Stops.take (h : Stops p cs) (n : Nat) : Stops p (cs.take n) := by
  intro c hc
  rw [List.head?_take] at hc
  split at hc
  · cases hc
  · exact h c hc

theorem Stops.takeWhile (h : Stops p cs) : cs.takeWhile p = [] := by
  cases cs with
  | nil => rfl
  | cons c rest => exact List.takeWhile_cons_of_neg (Bool.not_eq_true _ ▸ h c rfl)

theorem Stops.dropWhile (h : Stops p cs) : cs.dropWhile p = cs := by
  cases cs with
  | nil => rfl
  | cons c rest => exact List.dropWhile_cons_of_neg (Bool.not_eq_true _ ▸ h c rfl)

end

/-- A row of blanks. -/
def Blanks : Type := { cs : List Char // ∀ c ∈ cs, isBlank c = true }

namespace Blanks

def none : Blanks := ⟨[], nofun⟩

def append (a b : Blanks) : Blanks := ⟨a.1 ++ b.1, fun c hc => (List.mem_append.mp hc).elim (a.2 c) (b.2 c)⟩

def reverse (b : Blanks) : Blanks := ⟨b.1.reverse, fun c hc => b.2 c (List.mem_reverse.mp hc)⟩

/-- The blanks that stand in front. -/
def leading (cs : List Char) : Blanks := ⟨cs.takeWhile isBlank, fun _ => List.mem_takeWhile_imp⟩

theorem leading_append (cs : List Char) : (leading cs).1 ++ skipBlanks cs = cs := List.takeWhile_append_dropWhile

theorem skipBlanks_append (b : Blanks) {rest : List Char} (h : Stops isBlank rest) :
    skipBlanks (b.1 ++ rest) = rest := by
  unfold skipBlanks
  rw [List.dropWhile_append_of_pos b.2, h.dropWhile]

theorem skipBlanks_eq_nil (b : Blanks) : skipBlanks b.1 = [] := by
  have h := b.skipBlanks_append stops_nil
  rwa [List.append_nil] at h

end Blanks

/-- Trimming takes away blanks at both ends, -/
theorem exists_trim (cs : List Char) : ∃ before after : Blanks, before.1 ++ (trim cs ++ after.1) = cs := by
  refine ⟨.leading cs, (Blanks.leading (skipBlanks cs).reverse).reverse, ?_⟩
  unfold trim Blanks.reverse
  rw [← List.reverse_append, Blanks.leading_append, List.reverse_reverse, Blanks.leading_append]

/-- and all of them. -/
theorem trim_append (before after : Blanks) {cs : List Char} (hne : cs ≠ []) (hfirst : Stops isBlank cs)
    (hlast : Stops isBlank cs.reverse) : trim (before.1 ++ (cs ++ after.1)) = cs := by
  have hend : skipBlanks (after.1.reverse ++ cs.reverse) = cs.reverse := after.reverse.skipBlanks_append hlast
  unfold trim
  rw [before.skipBlanks_append (hfirst.append hne _), List.reverse_append, hend, List.reverse_reverse]

end TermStructure.Text
