import TermStructure.Proofs.Decimal.Digits
import TermStructure.Toml.Reader

/-!
# Numbers on a line

A number ends with its line at the latest: whatever comes on later lines, it is read as if it stood alone. So
the readers of its parts are followed one by one. A natural number is read back from its digits.
-/

namespace TermStructure.Toml.Reader
open Decimal (isDigit isDigit_digits ofDigits ofDigits_digits digits digits_eq)

/-! ### What later lines do not change -/

/-- What was read, with more lines after the characters left. -/
def followed {β : Type} (tail : List Char) (r : β × List Char) : β × List Char := (r.1, r.2 ++ '\n' :: tail)

theorem map_bind_eq {β γ : Type} {r : Option β} {q : β → β} {k : γ → γ} {f g : β → Option γ}
    (h : ∀ b, g (q b) = (f b).map k) : (r.map q >>= g) = (r >>= f).map k := by
  cases r with
  | none => rfl
  | some b => exact h b

variable (cs tail : List Char)

theorem digitRun_cons_of_not {allowed : Char → Bool} {c : Char} (h : allowed c = false) (rest : List Char) :
    digitRun allowed (c :: rest) = none := by
  unfold digitRun
  split
  · rfl
  · rename_i heq
    cases heq
    exact if_neg (by simp [h])
  · rename_i heq
    cases heq
    exact if_neg (by simp [h])

theorem digitRun_append {allowed : Char → Bool} (h : allowed '\n' = false) :
    digitRun allowed (cs ++ '\n' :: tail) = (digitRun allowed cs).map (followed tail) := by
  fun_induction digitRun allowed cs with
  | case1 => exact digitRun_cons_of_not h tail
  | case2 c more hc ih =>
    rw [List.cons_append, List.cons_append, digitRun, if_pos hc, ih]
    cases digitRun allowed more <;> rfl
  | case3 c more hc =>
    rw [List.cons_append]
    exact digitRun_cons_of_not (by simpa using hc) _
  | case4 c rest hplain hc ds rest' hrest ih =>
    rw [List.cons_append, digitRun, if_pos hc, ih, hrest]
    · rfl
    · intro more hmore
      cases rest with
      | nil => cases hmore
      | cons d rest =>
        cases hmore
        exact hplain _ rfl
  | case5 c rest hplain hc hrest ih =>
    rw [List.cons_append, digitRun, if_pos hc, ih, hrest]
    · rfl
    · intro more hmore
      cases rest with
      | nil => cases hmore
      | cons d rest =>
        cases hmore
        exact hplain _ rfl
  | case6 c rest hplain hc =>
    rw [List.cons_append]
    exact digitRun_cons_of_not (by simpa using hc) _

theorem sign_append : sign (cs ++ '\n' :: tail) = followed tail (sign cs) := by
  unfold sign
  cases cs with
  | nil => rfl
  | cons c rest =>
    rw [List.cons_append]
    split <;> simp_all [followed]

theorem wholeDigits_of_ne {c : Char} (h : c ≠ '0') (rest : List Char) :
    wholeDigits (c :: rest) = digitRun isDigit (c :: rest) := by
  unfold wholeDigits
  split
  · rename_i heq
    exact absurd (List.cons.inj heq).1 h
  · rfl

theorem wholeDigits_append : wholeDigits (cs ++ '\n' :: tail) = (wholeDigits cs).map (followed tail) := by
  have hrun : digitRun isDigit (cs ++ '\n' :: tail) = _ := digitRun_append cs tail rfl
  rcases cs with _ | ⟨c, rest⟩
  · exact hrun
  by_cases hc : c = '0'
  · subst hc
    rfl
  · rw [List.cons_append, wholeDigits_of_ne hc, wholeDigits_of_ne hc]
    exact hrun

theorem exponent_append : exponent (cs ++ '\n' :: tail) = (exponent cs).map (followed tail) := by
  cases cs with
  | nil => rfl
  | cons c rest =>
    unfold exponent
    rw [List.cons_append]
    dsimp only
    split
    · rw [sign_append]
      dsimp only [followed]
      rw [digitRun_append _ _ rfl]
      cases digitRun isDigit (sign rest).2 <;> rfl
    · rfl

theorem takeWhile_line {p : Char → Bool} (h : p '\n' = false) : (cs ++ '\n' :: tail).takeWhile p = cs.takeWhile p := by
  induction cs with
  | nil => simp [h]
  | cons c rest ih => simp only [List.cons_append, List.takeWhile_cons, ih]

theorem fixedDigits_append (width : Nat) :
    fixedDigits width (cs ++ '\n' :: tail) = (fixedDigits width cs).map (followed tail) := by
  unfold fixedDigits
  dsimp only
  rcases Nat.lt_or_ge cs.length width with hlt | hle
  · have hshort : (cs.takeWhile isDigit).length < width :=
      Nat.lt_of_le_of_lt (List.takeWhile_prefix _).length_le hlt
    obtain ⟨n, hn⟩ := Nat.exists_eq_add_of_lt hlt
    rw [List.take_append, List.take_of_length_le (Nat.le_of_lt hlt), hn, Nat.add_assoc, Nat.add_sub_cancel_left,
      List.take_succ_cons, takeWhile_line _ _ rfl]
    rw [if_neg (by omega), if_neg (by omega)]
    rfl
  · rw [List.take_append_of_le_length hle, List.drop_append_of_le_length hle]
    split <;> rfl

theorem expect_append {c : Char} (h : ('\n' == c) = false) :
    expect c (cs ++ '\n' :: tail) = (expect c cs).map (· ++ '\n' :: tail) := by
  cases cs with
  | nil => simp [expect, h]
  | cons d rest =>
    rw [List.cons_append]
    unfold expect
    dsimp only
    split <;> rfl

theorem hoursAndMinutes_append :
    hoursAndMinutes (cs ++ '\n' :: tail) = (hoursAndMinutes cs).map (· ++ '\n' :: tail) := by
  unfold hoursAndMinutes
  rw [fixedDigits_append]
  refine map_bind_eq fun (hours, cs) => ?_
  dsimp only [followed]
  rw [expect_append _ _ rfl]
  refine map_bind_eq fun cs => ?_
  rw [fixedDigits_append]
  refine map_bind_eq fun (minutes, cs) => ?_
  dsimp only [followed]
  rw [apply_ite (Option.map (· ++ '\n' :: tail))]
  rfl

theorem timeOfDay_append : timeOfDay (cs ++ '\n' :: tail) = (timeOfDay cs).map (· ++ '\n' :: tail) := by
  unfold timeOfDay
  rw [hoursAndMinutes_append]
  refine map_bind_eq fun cs => ?_
  rw [expect_append _ _ rfl]
  refine map_bind_eq fun cs => ?_
  rw [fixedDigits_append]
  refine map_bind_eq fun (seconds, cs) => ?_
  dsimp only [followed]
  split
  · rfl
  rcases cs with _ | ⟨c, rest⟩
  · rfl
  rw [List.cons_append]
  split
  · rename_i heq
    cases heq
    rw [takeWhile_line _ _ rfl]
    have hlength : (rest.takeWhile isDigit).length ≤ rest.length := (List.takeWhile_prefix _).length_le
    rw [List.drop_append_of_le_length hlength]
    cases he : (rest.takeWhile isDigit).isEmpty <;> simp [he]
  · split
    · rename_i hplain _ _ heq
      cases heq
      exact absurd rfl (hplain _)
    · rfl

theorem offset_append : offset (cs ++ '\n' :: tail) = offset cs ++ '\n' :: tail := by
  rcases cs with _ | ⟨c, rest⟩
  · rfl
  have hclock : (hoursAndMinutes (rest ++ '\n' :: tail)).getD (c :: rest ++ '\n' :: tail)
      = (hoursAndMinutes rest).getD (c :: rest) ++ '\n' :: tail := by
    rw [hoursAndMinutes_append]
    cases hoursAndMinutes rest <;> rfl
  rw [List.cons_append] at hclock ⊢
  unfold offset
  split
  · rename_i heq
    cases heq
    rfl
  · rename_i heq
    cases heq
    rfl
  · rename_i heq
    cases heq
    exact hclock
  · rename_i heq
    cases heq
    exact hclock
  · rename_i hZ hz hplus hminus
    split
    · rename_i heq
      cases heq
      exact absurd rfl (hZ _)
    · rename_i heq
      cases heq
      exact absurd rfl (hz _)
    · rename_i heq
      cases heq
      exact absurd rfl (hplus _)
    · rename_i heq
      cases heq
      exact absurd rfl (hminus _)
    · rfl

theorem date_append : date (cs ++ '\n' :: tail) = (date cs).map (· ++ '\n' :: tail) := by
  unfold date
  rw [fixedDigits_append]
  refine map_bind_eq fun (year, cs) => ?_
  dsimp only [followed]
  rw [expect_append _ _ rfl]
  refine map_bind_eq fun cs => ?_
  rw [fixedDigits_append]
  refine map_bind_eq fun (month, cs) => ?_
  dsimp only [followed]
  rw [expect_append _ _ rfl]
  refine map_bind_eq fun cs => ?_
  rw [fixedDigits_append]
  refine map_bind_eq fun (day, cs) => ?_
  dsimp only [followed]
  rw [apply_ite (Option.map (· ++ '\n' :: tail))]
  rfl

theorem moment_append : moment (cs ++ '\n' :: tail) = (moment cs).map (followed tail) := by
  unfold moment
  rw [date_append]
  rcases date cs with _ | rest
  · dsimp only [Option.map_none]
    rw [timeOfDay_append]
    cases timeOfDay cs <;> rfl
  dsimp only [Option.map_some]
  rcases rest with _ | ⟨c, more⟩
  · rfl
  rw [List.cons_append]
  dsimp only
  rw [timeOfDay_append]
  split
  · rcases timeOfDay more with _ | rest
    · rfl
    · dsimp only [Option.map_some]
      rw [offset_append]
      rfl
  · rfl

theorem inBase_append (base : Nat) : inBase base (cs ++ '\n' :: tail) = (inBase base cs).map (followed tail) := by
  have hbreak : ((isDigit '\n' || ('a' ≤ '\n' && '\n' ≤ 'f') || ('A' ≤ '\n' && '\n' ≤ 'F'))
      && decide (digitValue '\n' < base)) = false := by
    have hnot : (isDigit '\n' || ('a' ≤ '\n' && '\n' ≤ 'f') || ('A' ≤ '\n' && '\n' ≤ 'F')) = false := by decide
    rw [hnot, Bool.false_and]
  unfold inBase
  dsimp only
  generalize integer? = toValue
  rw [digitRun_append cs tail hbreak]
  refine map_bind_eq fun (ds, rest) => ?_
  dsimp only [followed]
  cases toValue (List.foldl (fun n c => base * n + digitValue c) 0 ds : Nat) <;> rfl

/-- What a text starts with stands on its first line if it has no end of line in it. -/
theorem eq_append_of_append (word : List Char) (hword : '\n' ∉ word) {cs tail rest : List Char}
    (h : cs ++ '\n' :: tail = word ++ rest) : ∃ left, cs = word ++ left ∧ rest = left ++ '\n' :: tail := by
  induction word generalizing cs with
  | nil => exact ⟨cs, rfl, h.symm⟩
  | cons c word ih =>
    rw [List.mem_cons, not_or] at hword
    cases cs with
    | nil => exact absurd (List.cons.inj h).1 hword.1
    | cons d cs =>
      obtain ⟨rfl, hrest⟩ := List.cons.inj h
      obtain ⟨left, rfl, hleft⟩ := ih hword.2 hrest
      exact ⟨left, rfl, hleft⟩

/-- Reads what follows the sign of a decimal: `infinite` is what the word for infinity stands for, and digits are made
    a float or a whole number of. -/
def unsigned (infinite : Float) (toFloat : (whole fraction : List Char) → (exponent : Int) → Option Value)
    (toWhole : List Char → Option Value) (cs : List Char) : Option (Value × List Char) :=
  match cs with
  | 'i' :: 'n' :: 'f' :: rest => some (.float infinite, rest)
  | 'n' :: 'a' :: 'n' :: rest => some (.float (0.0 / 0.0), rest)
  | _ => do
    let (w, cs) ← wholeDigits cs
    match cs with
    | '.' :: rest =>
      let (f, cs) ← digitRun isDigit rest
      let (e, cs) ← exponent cs
      return (← toFloat w f (e.getD 0), cs)
    | _ =>
      match ← exponent cs with
      | (some e, cs) => return (← toFloat w [] e, cs)
      | (none, cs) => return (← toWhole w, cs)

theorem decimal_eq (cs : List Char) :
    decimal cs =
      let negative := (sign cs).1 == some '-'
      unsigned (if negative then -(1.0 / 0.0) else 1.0 / 0.0) (fun w f e => float? ⟨negative, w, f, e, false⟩)
        (fun w => integer? (if negative then -(ofDigits w : Int) else ofDigits w)) (sign cs).2 := rfl

theorem unsigned_append (infinite : Float) (toFloat : (whole fraction : List Char) → (exponent : Int) → Option Value)
    (toWhole : List Char → Option Value) (cs tail : List Char) :
    unsigned infinite toFloat toWhole (cs ++ '\n' :: tail)
      = (unsigned infinite toFloat toWhole cs).map (followed tail) := by
  unfold unsigned
  split
  · rename_i rest heq
    obtain ⟨left, rfl, rfl⟩ := eq_append_of_append ['i', 'n', 'f'] (by decide) heq
    rfl
  · rename_i rest heq
    obtain ⟨left, rfl, rfl⟩ := eq_append_of_append ['n', 'a', 'n'] (by decide) heq
    rfl
  · rename_i hinf hnan
    -- A word that is not there with the end of the line is not there without it.
    split
    · exact absurd rfl (hinf _)
    · exact absurd rfl (hnan _)
    rw [wholeDigits_append]
    refine map_bind_eq fun (w, cs) => ?_
    dsimp only [followed]
    split
    · rename_i rest heq
      obtain ⟨left, rfl, rfl⟩ := eq_append_of_append ['.'] (by decide) heq
      dsimp only [List.singleton_append]
      rw [digitRun_append _ _ rfl]
      refine map_bind_eq fun (f, cs) => ?_
      dsimp only [followed]
      rw [exponent_append]
      refine map_bind_eq fun (e, cs) => ?_
      dsimp only [followed]
      cases toFloat w f (e.getD 0) <;> rfl
    · rename_i hplain
      split
      · exact absurd rfl (hplain _)
      rw [exponent_append]
      refine map_bind_eq fun (e, cs) => ?_
      dsimp only [followed]
      cases e with
      | none => cases toWhole w <;> rfl
      | some e =>
        dsimp only
        cases toFloat w [] e <;> rfl

theorem decimal_append : decimal (cs ++ '\n' :: tail) = (decimal cs).map (followed tail) := by
  rw [decimal_eq, decimal_eq, sign_append]
  exact unsigned_append _ _ _ _ _

theorem number_append : number (cs ++ '\n' :: tail) = (number cs).map (followed tail) := by
  unfold number
  rw [moment_append]
  cases moment cs with
  | some r => rfl
  | none =>
    dsimp only [Option.map_none]
    split
    · rename_i rest heq
      obtain ⟨left, rfl, rfl⟩ := eq_append_of_append ['0', 'x'] (by decide) heq
      exact inBase_append left tail 16
    · rename_i rest heq
      obtain ⟨left, rfl, rfl⟩ := eq_append_of_append ['0', 'o'] (by decide) heq
      exact inBase_append left tail 8
    · rename_i rest heq
      obtain ⟨left, rfl, rfl⟩ := eq_append_of_append ['0', 'b'] (by decide) heq
      exact inBase_append left tail 2
    · rename_i hx ho hb
      split
      · exact absurd rfl (hx _)
      · exact absurd rfl (ho _)
      · exact absurd rfl (hb _)
      · exact decimal_append cs tail

/-! ### Digits -/

theorem digitRun_digits {c : Char} {rest : List Char} (h : ∀ d ∈ c :: rest, isDigit d = true) :
    digitRun isDigit (c :: rest) = some (c :: rest, []) := by
  induction rest generalizing c with
  | nil =>
    rw [digitRun, if_pos (h c List.mem_cons_self)]
    · rfl
    · exact nofun
  | cons d rest ih =>
    have hd := ih fun x hx => h x (List.mem_cons_of_mem c hx)
    rw [digitRun, if_pos (h c List.mem_cons_self), hd]
    intro more hmore
    cases hmore
    exact absurd (h '_' (List.mem_cons_of_mem c List.mem_cons_self)) (by decide)

section
variable {cs : List Char} (h : ∀ c ∈ cs, isDigit c = true)
include h

theorem expect_digits {c : Char} (hc : isDigit c = false) : expect c cs = none := by
  cases cs with
  | nil => rfl
  | cons d rest =>
    have hd := h d List.mem_cons_self
    refine if_neg fun heq => ?_
    rw [beq_iff_eq.mp heq, hc] at hd
    cases hd

theorem isDigit_of_fixedDigits {width n : Nat} {rest : List Char} (hn : fixedDigits width cs = some (n, rest)) :
    ∀ c ∈ rest, isDigit c = true := by
  unfold fixedDigits at hn
  dsimp only at hn
  split at hn
  · cases hn
    exact fun c hc => h c (List.mem_of_mem_drop hc)
  · cases hn

/-- Digits alone are neither a date nor a time. -/
theorem moment_digits : moment cs = none := by
  have hdate : date cs = none := by
    unfold date
    cases hn : fixedDigits 4 cs with
    | none => rfl
    | some r => exact congrArg (· >>= _) (expect_digits (isDigit_of_fixedDigits h hn) rfl)
  have hclock : hoursAndMinutes cs = none := by
    unfold hoursAndMinutes
    cases hn : fixedDigits 2 cs with
    | none => rfl
    | some r => exact congrArg (· >>= _) (expect_digits (isDigit_of_fixedDigits h hn) rfl)
  have htime : timeOfDay cs = none := by
    unfold timeOfDay
    rw [hclock]
    rfl
  unfold moment
  rw [hdate, htime]
  rfl

end

theorem wholeDigits_digits (n : Nat) : wholeDigits (digits n) = some (digits n, []) := by
  have hall := isDigit_digits n
  rcases digits_eq n with rfl | ⟨c, rest, hdigits, hc⟩
  · rw [digits]
    rfl
  · rw [hdigits] at hall ⊢
    rw [wholeDigits_of_ne hc, digitRun_digits hall]

/-- Digits alone are a whole number. -/
theorem unsigned_digits {infinite : Float} {toFloat : (whole fraction : List Char) → (exponent : Int) → Option Value}
    {toWhole : List Char → Option Value} (n : Nat) :
    unsigned infinite toFloat toWhole (digits n) = (toWhole (digits n)).map (·, []) := by
  have hall := isDigit_digits n
  unfold unsigned
  split
  · rename_i heq
    exact absurd (hall 'i' (heq ▸ List.mem_cons_self)) (by decide)
  · rename_i heq
    exact absurd (hall 'n' (heq ▸ List.mem_cons_self)) (by decide)
  · rw [wholeDigits_digits]
    change ((do return (← toWhole (digits n), [])) : Option (Value × List Char)) = _
    cases toWhole (digits n) <;> rfl

theorem sign_digits (n : Nat) : sign (digits n) = (none, digits n) := by
  have hall := isDigit_digits n
  unfold sign
  split
  · rename_i heq
    exact absurd (hall '-' (heq ▸ List.mem_cons_self)) (by decide)
  · rename_i heq
    exact absurd (hall '+' (heq ▸ List.mem_cons_self)) (by decide)
  · rfl

/-- A natural number that 64 bits hold is read back from its digits. -/
theorem number_digits {n : Nat} (hn : n < 9223372036854775808) : number (digits n) = some (.integer n, []) := by
  have hall := isDigit_digits n
  have hletter {c d : Char} {rest : List Char} (heq : digits n = d :: c :: rest) : isDigit c = true :=
    hall c (heq ▸ List.mem_cons_of_mem d List.mem_cons_self)
  have hinteger : integer? (ofDigits (digits n)) = some (.integer n) := by
    rw [ofDigits_digits]
    exact if_pos ⟨by omega, by omega⟩
  unfold number
  rw [moment_digits hall]
  dsimp only
  -- The letter of a base is not a digit.
  split
  · exact absurd (hletter (by assumption)) (by decide)
  · exact absurd (hletter (by assumption)) (by decide)
  · exact absurd (hletter (by assumption)) (by decide)
  · rw [decimal_eq, sign_digits, unsigned_digits]
    change (integer? (ofDigits (digits n))).map (·, []) = _
    rw [hinteger]
    rfl

end TermStructure.Toml.Reader
