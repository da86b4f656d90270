import TermStructure.Calendar.Data
import TermStructure.Proofs.Calendar.Months
import TermStructure.Proofs.Decimal.Digits
import TermStructure.Proofs.Json.Texts
import TermStructure.Proofs.Text.Blanks

/-!
# How dates are spelled

A text that is read as a date is a spelling of it: rows of digits with hyphens between, perhaps a sign in front, and
blanks. Every spelling is read as the date whose numbers its rows write, and as no other. The usual form of a date is
one of its spellings, so whatever blanks stand around it, it is read back.
-/

namespace TermStructure

open Decimal (isDigit ofDigits padded)
open Text (Blanks Stops isBlank skipBlanks trim)

/-! ### Digits -/

namespace Decimal

/-- A row of digits as it stands in a text. -/
structure Row where
  digits : List Char
  isDigit : ∀ c ∈ digits, isDigit c = true
  ne_nil : digits ≠ []

def Row.value (r : Row) : Nat := ofDigits r.digits

def Row.padded (width n : Nat) : Row := ⟨Decimal.padded width n, isDigit_padded width n, padded_ne_nil width n⟩

theorem Row.value_padded (width n : Nat) : (Row.padded width n).value = n := ofDigits_padded width n

theorem isBlank_of_isDigit {c : Char} (hc : Decimal.isDigit c = true) : isBlank c = false := by
  simp only [Decimal.isDigit, Bool.and_eq_true, decide_eq_true_iff, Char.le_def, UInt32.le_iff_toNat_le] at hc
  have hlow : 48 ≤ c.toNat := hc.1
  have hhigh : c.toNat ≤ 57 := hc.2
  simp only [isBlank, Text.blankRanges, List.any_cons, List.any_nil, Bool.or_eq_false_iff, Bool.and_eq_false_iff,
    decide_eq_false_iff_not, and_true]
  omega

theorem stops_isDigit (b : Blanks) : Stops isDigit b.1 := fun c hc => by
  by_contra hdigit
  have hblank := b.2 c (List.mem_of_mem_head? hc)
  rw [isBlank_of_isDigit (Bool.not_eq_false _ ▸ hdigit)] at hblank
  cases hblank

theorem stops_isDigit_gap (b : Blanks) (rest : List Char) : Stops isDigit (b.1 ++ '-' :: rest) :=
  (stops_isDigit b).append_stops (Text.stops_cons rfl rest)

theorem Row.stops_isBlank (r : Row) : Stops isBlank r.digits := fun c hc =>
  isBlank_of_isDigit (r.isDigit c (List.mem_of_mem_head? hc))

theorem Row.stops_isBlank_reverse (r : Row) : Stops isBlank r.digits.reverse := fun c hc =>
  isBlank_of_isDigit (r.isDigit c (List.mem_reverse.mp (List.mem_of_mem_head? hc)))

end Decimal

namespace Date
open Decimal (Row)

variable {most : Nat} {loose : Bool}

theorem readDigits_append (r : Row) (hlen : r.digits.length ≤ most) {rest : List Char} (h : Stops isDigit rest) :
    readDigits most (r.digits ++ rest) = some (r.value, rest) := by
  have htake : ((r.digits ++ rest).take most).takeWhile isDigit = r.digits := by
    rw [List.take_append, List.take_of_length_le hlen, List.takeWhile_append_of_pos r.isDigit, (h.take _).takeWhile,
      List.append_nil]
  have hne : r.digits.isEmpty = false := List.isEmpty_eq_false_iff.mpr r.ne_nil
  unfold readDigits
  dsimp only
  rw [htake, hne, List.drop_left]
  rfl

theorem exists_of_readDigits {cs rest : List Char} {n : Nat} (h : readDigits most cs = some (n, rest)) :
    ∃ r : Row, r.digits.length ≤ most ∧ r.digits ++ rest = cs ∧ r.value = n := by
  unfold readDigits at h
  dsimp only at h
  split at h
  · cases h
  · rename_i hne
    cases h
    have hprefix : (cs.take most).takeWhile isDigit <+: cs := (List.takeWhile_prefix _).trans (List.take_prefix _ _)
    refine ⟨⟨_, fun _ => List.mem_takeWhile_imp, fun hnil => hne (List.isEmpty_iff.mpr hnil)⟩, ?_, ?_, rfl⟩
    · exact (List.takeWhile_prefix _).length_le.trans (List.length_take_le _ _)
    · exact (List.prefix_iff_eq_append.mp hprefix)

theorem readHyphen_append (gap : Blanks) (htight : loose = false → gap.1 = []) (rest : List Char) :
    readHyphen loose (gap.1 ++ '-' :: rest) = some rest := by
  unfold readHyphen
  cases loose with
  | false => rw [htight rfl]; rfl
  | true =>
    rw [if_pos rfl, gap.skipBlanks_append (Text.stops_cons rfl rest)]
    rfl

theorem exists_of_readHyphen {cs rest : List Char} (h : readHyphen loose cs = some rest) :
    ∃ gap : Blanks, (loose = false → gap.1 = []) ∧ gap.1 ++ '-' :: rest = cs := by
  unfold readHyphen at h
  split at h
  · rename_i heq
    cases h
    cases loose with
    | false => exact ⟨.none, fun _ => rfl, heq.symm⟩
    | true =>
      refine ⟨.leading cs, nofun, ?_⟩
      rw [← heq]
      exact Blanks.leading_append cs
  · cases h

theorem readPart_append (b : Blanks) (r : Row) (hlen : r.digits.length ≤ 2) {rest : List Char}
    (h : Stops isDigit rest) : readPart (b.1 ++ (r.digits ++ rest)) = some (r.value, rest) := by
  unfold readPart
  rw [b.skipBlanks_append (r.stops_isBlank.append r.ne_nil rest), readDigits_append r hlen h]

theorem exists_of_readPart {cs rest : List Char} {n : Nat} (h : readPart cs = some (n, rest)) :
    ∃ (b : Blanks) (r : Row), r.digits.length ≤ 2 ∧ b.1 ++ (r.digits ++ rest) = cs ∧ r.value = n := by
  obtain ⟨r, hlen, hrow, hvalue⟩ := exists_of_readDigits h
  refine ⟨.leading cs, r, hlen, ?_, hvalue⟩
  rw [hrow, Blanks.leading_append]

/-! ### Years -/

/-- A sign before a year, if there is one: a minus or a plus. -/
def signText : Option Bool → List Char
  | none => []
  | some true => ['-']
  | some false => ['+']

def signedYear (sign : Option Bool) (n : Nat) : Int := if sign = some true then -(n : Int) else n

/-- Reads the digits of a year after its sign. -/
def readUnsigned (sign : Option Bool) (ds : List Char) : Option (Int × List Char) :=
  match readDigits (if sign.isSome then ds.length else 4) ds with
  | none => none
  | some (n, rest) => if fitsCount (signedYear sign n) then some (signedYear sign n, rest) else none

theorem exists_sign (cs : List Char) :
    ∃ sign ds, signText sign ++ ds = skipBlanks cs ∧ readYear cs = readUnsigned sign ds := by
  unfold readYear
  split
  rename_i heq
  split at heq
  · rename_i hcs
    cases heq
    exact ⟨some true, _, hcs.symm, rfl⟩
  · rename_i hcs
    cases heq
    exact ⟨some false, _, hcs.symm, rfl⟩
  · cases heq
    exact ⟨none, _, rfl, rfl⟩

theorem readYear_eq {cs : List Char} {sign : Option Bool} {r : Row} {rest : List Char}
    (h : skipBlanks cs = signText sign ++ (r.digits ++ rest)) : readYear cs = readUnsigned sign (r.digits ++ rest) := by
  unfold readYear
  rw [h]
  rcases sign with _ | _ | _
  · -- A digit is no sign.
    obtain ⟨ds, hds, hne⟩ := r
    rcases ds with _ | ⟨c, ds⟩
    · exact absurd rfl hne
    have hc := hds c List.mem_cons_self
    split
    rename_i heq
    split at heq
    · rename_i hminus
      cases hminus
      cases hc
    · rename_i hplus
      cases hplus
      cases hc
    · cases heq
      rfl
  · rfl
  · rfl

theorem readYear_append (b : Blanks) (sign : Option Bool) (r : Row) (hlen : sign = none → r.digits.length ≤ 4)
    {rest : List Char} (h : Stops isDigit rest) :
    readYear (b.1 ++ (signText sign ++ (r.digits ++ rest)))
      = if fitsCount (signedYear sign r.value) then some (signedYear sign r.value, rest) else none := by
  have hstart : Stops isBlank (signText sign ++ (r.digits ++ rest)) := by
    rcases sign with _ | _ | _
    · exact r.stops_isBlank.append r.ne_nil rest
    · exact Text.stops_cons rfl _
    · exact Text.stops_cons rfl _
  have hmost : r.digits.length ≤ if sign.isSome then (r.digits ++ rest).length else 4 := by
    rcases sign with _ | _
    · exact hlen rfl
    · exact (List.prefix_append _ _).length_le
  rw [readYear_eq (b.skipBlanks_append hstart)]
  unfold readUnsigned
  rw [readDigits_append r hmost h]

theorem exists_of_readYear {cs rest : List Char} {year : Int} (h : readYear cs = some (year, rest)) :
    ∃ (b : Blanks) (sign : Option Bool) (r : Row), (sign = none → r.digits.length ≤ 4) ∧
      b.1 ++ (signText sign ++ (r.digits ++ rest)) = cs := by
  obtain ⟨sign, ds, hcs, hread⟩ := exists_sign cs
  rw [hread] at h
  unfold readUnsigned at h
  split at h
  · cases h
  · rename_i n left hdigits
    split at h
    · cases h
      obtain ⟨r, hlen, hrow, -⟩ := exists_of_readDigits hdigits
      refine ⟨.leading cs, sign, r, ?_, ?_⟩
      · rintro rfl
        exact hlen
      · rw [hrow, hcs, Blanks.leading_append]
    · cases h

/-! ### Spellings -/

/-- The parts of a text that spells a date. Blanks may stand before each number and at the end, and where reading is
    loose also before the hyphens. -/
structure Spelling (loose : Bool) where
  before : Blanks
  sign : Option Bool
  year : Row
  afterYear : Blanks
  beforeMonth : Blanks
  month : Row
  afterMonth : Blanks
  beforeDay : Blanks
  day : Row
  after : Blanks
  year_length : sign = none → year.digits.length ≤ 4
  month_length : month.digits.length ≤ 2
  day_length : day.digits.length ≤ 2
  afterYear_tight : loose = false → afterYear.1 = []
  afterMonth_tight : loose = false → afterMonth.1 = []

namespace Spelling

variable (w : Spelling loose)

/-- The characters before the day. -/
def front : List Char :=
  signText w.sign ++ (w.year.digits ++ (w.afterYear.1 ++ '-' ::
    (w.beforeMonth.1 ++ (w.month.digits ++ (w.afterMonth.1 ++ '-' :: w.beforeDay.1)))))

/-- The characters without the blanks at both ends. -/
def core : List Char := w.front ++ w.day.digits

def toList : List Char := w.before.1 ++ (w.core ++ w.after.1)

/-- The same with other blanks at both ends. -/
def within (before after : Blanks) : Spelling loose := { w with before := before, after := after }

theorem toList_within (before after : Blanks) : (w.within before after).toList = before.1 ++ (w.core ++ after.1) := rfl

/-- The numbers that are written are those of the date. -/
def Spells (d : Date) : Prop :=
  signedYear w.sign w.year.value = d.year ∧ w.month.value = d.month ∧ w.day.value = d.day

/-- The date whose numbers are written, if there is one. -/
def date? : Option Date := ofParts? (signedYear w.sign w.year.value) w.month.value w.day.value

end Spelling

theorem ofParts?_eq_some_iff {year : Int} {month day : Nat} {d : Date} :
    ofParts? year month day = some d ↔ year = d.year ∧ month = d.month ∧ day = d.day := by
  unfold ofParts?
  constructor
  · intro h
    split at h
    · cases h
      exact ⟨rfl, rfl, rfl⟩
    · cases h
  · rintro ⟨rfl, rfl, rfl⟩
    exact dif_pos d.isDay

theorem fitsCount_of_isYear {year : Int} (h : IsYear year) : fitsCount year = true := by
  obtain ⟨hfirst, hlast⟩ := h
  unfold firstYear at hfirst
  unfold lastYear at hlast
  exact fitsCount_iff.mpr (by omega)

namespace Spelling

variable (w : Spelling loose)

theorem date?_eq_some_iff {d : Date} : w.date? = some d ↔ w.Spells d := ofParts?_eq_some_iff

theorem toList_eq : w.toList =
    w.before.1 ++ (signText w.sign ++ (w.year.digits ++ (w.afterYear.1 ++ '-' ::
      (w.beforeMonth.1 ++ (w.month.digits ++ (w.afterMonth.1 ++ '-' ::
        (w.beforeDay.1 ++ (w.day.digits ++ w.after.1)))))))) := by
  simp only [toList, core, front, List.append_assoc, List.cons_append]

/-- A spelling is read as the date whose numbers are written. -/
theorem read?_toList (h : loose = false → w.after.1 = []) : read? loose w.toList = w.date? := by
  have hrest : (if loose then skipBlanks w.after.1 else w.after.1).isEmpty = true := by
    cases loose with
    | false => rw [h rfl]; rfl
    | true => rw [if_pos rfl, w.after.skipBlanks_eq_nil]; rfl
  unfold read? date?
  rw [toList_eq, readYear_append _ _ _ w.year_length (Decimal.stops_isDigit_gap _ _)]
  split
  · simp only [Option.bind_eq_bind, Option.bind_some, readHyphen_append _ w.afterYear_tight,
      readPart_append _ _ w.month_length (Decimal.stops_isDigit_gap _ _), readHyphen_append _ w.afterMonth_tight,
      readPart_append _ _ w.day_length (Decimal.stops_isDigit _), hrest, if_true]
  · rename_i hfits
    have hnone : ofParts? (signedYear w.sign w.year.value) w.month.value w.day.value = none :=
      dif_neg fun hday => hfits (fitsCount_of_isYear hday.1)
    exact hnone.symm

/-- Whatever is read as a date is spelled. -/
theorem exists_of_read? {cs : List Char} {d : Date} (h : read? loose cs = some d) :
    ∃ w : Spelling loose, (loose = false → w.after.1 = []) ∧ w.toList = cs := by
  unfold read? at h
  obtain ⟨⟨year, cs₁⟩, hyear, h⟩ := Option.bind_eq_some_iff.mp h
  obtain ⟨cs₂, hfirst, h⟩ := Option.bind_eq_some_iff.mp h
  obtain ⟨⟨month, cs₃⟩, hmonth, h⟩ := Option.bind_eq_some_iff.mp h
  obtain ⟨cs₄, hsecond, h⟩ := Option.bind_eq_some_iff.mp h
  obtain ⟨⟨day, cs₅⟩, hday, hrest⟩ := Option.bind_eq_some_iff.mp h
  clear h
  obtain ⟨before, sign, yearRow, yearLength, rfl⟩ := exists_of_readYear hyear
  obtain ⟨afterYear, tight, rfl⟩ := exists_of_readHyphen hfirst
  obtain ⟨beforeMonth, monthRow, monthLength, rfl, -⟩ := exists_of_readPart hmonth
  obtain ⟨afterMonth, tight', rfl⟩ := exists_of_readHyphen hsecond
  obtain ⟨beforeDay, dayRow, dayLength, rfl, -⟩ := exists_of_readPart hday
  have hblanks : ∃ after : Blanks, (loose = false → after.1 = []) ∧ after.1 = cs₅ := by
    dsimp only at hrest
    have hend : (if loose then skipBlanks cs₅ else cs₅).isEmpty = true := by
      by_contra hne
      rw [if_neg hne] at hrest
      cases hrest
    rw [List.isEmpty_iff] at hend
    cases loose with
    | false => exact ⟨.none, fun _ => rfl, hend.symm⟩
    | true =>
      rw [if_pos rfl] at hend
      refine ⟨.leading cs₅, nofun, ?_⟩
      have hall := Blanks.leading_append cs₅
      rwa [hend, List.append_nil] at hall
  obtain ⟨after, hafter, rfl⟩ := hblanks
  exact ⟨⟨before, sign, yearRow, afterYear, beforeMonth, monthRow, afterMonth, beforeDay, dayRow, after, yearLength,
    monthLength, dayLength, tight, tight'⟩, hafter, toList_eq _⟩

theorem stops_isBlank_core : Stops isBlank w.core := by
  unfold core front
  rw [List.append_assoc]
  rcases w.sign with _ | _ | _
  · rw [List.append_assoc]
    exact w.year.stops_isBlank.append w.year.ne_nil _
  · exact Text.stops_cons rfl _
  · exact Text.stops_cons rfl _

theorem trim_toList : trim w.toList = w.core := by
  have hlast : Stops isBlank w.core.reverse := by
    unfold core
    rw [List.reverse_append]
    exact w.day.stops_isBlank_reverse.append (List.reverse_ne_nil_iff.mpr w.day.ne_nil) _
  exact Text.trim_append _ _ (List.append_ne_nil_of_right_ne_nil _ w.day.ne_nil) w.stops_isBlank_core hlast

end Spelling

theorem parse_eq_ok_iff {s : String} {d : Date} : parse s = .ok d ↔ read? false (trim s.toList) = some d := by
  unfold parse
  constructor
  · intro h
    split at h
    · rename_i heq
      cases h
      exact heq
    · cases h
  · intro h
    rw [h]

/-- A spelling is read as the date that it spells, and as no other. -/
theorem parse_toList_iff (w : Spelling false) {d : Date} : parse (String.ofList w.toList) = .ok d ↔ w.Spells d := by
  have hcore : (w.within .none .none).toList = w.core := List.append_nil _
  have hread := (w.within .none .none).read?_toList fun _ => rfl
  rw [hcore] at hread
  rw [parse_eq_ok_iff, String.toList_ofList, w.trim_toList, hread]
  exact w.date?_eq_some_iff

/-- A text that is read as a date spells it. -/
theorem exists_of_parse {s : String} {d : Date} (h : parse s = .ok d) :
    ∃ w : Spelling false, w.toList = s.toList := by
  obtain ⟨before, after, hs⟩ := Text.exists_trim s.toList
  obtain ⟨w, hafter, hw⟩ := Spelling.exists_of_read? (parse_eq_ok_iff.mp h)
  refine ⟨w.within (before.append w.before) after, ?_⟩
  rw [← hs, ← hw, Spelling.toList_within]
  simp only [Spelling.toList, hafter rfl, List.append_nil, Blanks.append, List.append_assoc]

/-! ### The usual form -/

theorem month_lt (d : Date) : d.month < 10 ^ (1 + 1) := by
  obtain ⟨-, hmonth, -, -⟩ := d.month_bounds
  omega

theorem monthLength_le (year : Int) (month : Nat) : monthLength year month ≤ 31 := by
  unfold monthLength
  split <;> try omega
  split <;> omega

theorem day_lt (d : Date) : d.day < 10 ^ (1 + 1) := by
  obtain ⟨-, -, -, hday⟩ := d.month_bounds
  have hle := monthLength_le d.year d.month
  omega

/-- The sign of a year that four digits do not write. -/
def yearSign (year : Int) : Option Bool := if year < 0 then some true else if year > 9999 then some false else none

/-- How a date is spelled by default: without blanks, in digits of full width. -/
def spelling (loose : Bool) (d : Date) : Spelling loose where
  before := .none
  sign := yearSign d.year
  year := .padded 4 d.year.natAbs
  afterYear := .none
  beforeMonth := .none
  month := .padded 2 d.month
  afterMonth := .none
  beforeDay := .none
  day := .padded 2 d.day
  after := .none
  year_length h := by
    have hlt : d.year.natAbs < 10 ^ (3 + 1) := by
      unfold yearSign at h
      split_ifs at h
      omega
    exact (Decimal.length_padded 4 d.year.natAbs (Decimal.length_digits_le hlt)).le
  month_length := (Decimal.length_padded 2 d.month (Decimal.length_digits_le d.month_lt)).le
  day_length := (Decimal.length_padded 2 d.day (Decimal.length_digits_le d.day_lt)).le
  afterYear_tight _ := rfl
  afterMonth_tight _ := rfl

theorem toList_spelling (d : Date) : (d.spelling loose).toList = d.characters := by
  have hyear : signText (yearSign d.year) ++ padded 4 d.year.natAbs
      = if d.year < 0 then '-' :: padded 4 d.year.natAbs
        else if d.year > 9999 then '+' :: padded 4 d.year.natAbs else padded 4 d.year.natAbs := by
    unfold yearSign
    split_ifs <;> rfl
  unfold characters
  rw [← hyear, Spelling.toList_eq, List.append_assoc]
  simp only [spelling, Blanks.none, Row.padded, List.nil_append, List.append_nil]

theorem spells_spelling (d : Date) : (d.spelling loose).Spells d := by
  refine ⟨?_, Row.value_padded 2 d.month, Row.value_padded 2 d.day⟩
  change signedYear (yearSign d.year) (Row.padded 4 d.year.natAbs).value = d.year
  rw [Row.value_padded]
  unfold yearSign
  split_ifs with hneg hlarge
  · change -(d.year.natAbs : Int) = d.year
    omega
  · change (d.year.natAbs : Int) = d.year
    omega
  · change (d.year.natAbs : Int) = d.year
    omega

theorem parse_append_text (before after : Blanks) (d : Date) :
    parse (String.ofList (before.1 ++ (d.text.toList ++ after.1))) = .ok d := by
  have hcore : (d.spelling false).core = d.text.toList := by
    have hlist : (d.spelling false).toList = d.characters := d.toList_spelling
    rw [text, String.toList_ofList, ← hlist]
    exact (List.append_nil _).symm
  have hspells : (d.spelling false).Spells d := d.spells_spelling
  rw [← hcore, ← Spelling.toList_within, parse_toList_iff]
  exact hspells

theorem parse_text (d : Date) : parse d.text = .ok d := by
  have h := parse_append_text .none .none d
  rwa [Blanks.none, List.nil_append, List.append_nil, String.ofList_toList] at h

/-- A date is read back from the data text written for it. -/
theorem ofJson?_write_json (d : Date) : ofJson? d.json.write = some d := by
  have hread : read? true d.text.toList = some d := by
    rw [text, String.toList_ofList, ← toList_spelling]
    rw [(d.spelling true).read?_toList nofun, Spelling.date?_eq_some_iff]
    exact d.spells_spelling
  unfold ofJson? json
  rw [Json.read?_write_string]
  simpa only [Json.toText?, Option.bind_eq_bind, Option.bind_some] using hread

/-- A date is read back from its text, whatever blanks stand around it, and from the data text written for it. The
    other way round, a text is read as a date if it is a spelling of that date, and only then: however the text is taken
    apart, its parts are the numbers of that date. -/
theorem text_round_trip (d : Date) :
    (∀ before after : Blanks, parse (String.ofList (before.1 ++ (d.text.toList ++ after.1))) = .ok d) ∧
      parse d.text = .ok d ∧
      ofJson? d.json.write = some d ∧
      ∀ s, parse s = .ok d ↔
        (∃ w : Spelling false, w.toList = s.toList) ∧ ∀ w : Spelling false, w.toList = s.toList → w.Spells d := by
  refine ⟨fun before after => parse_append_text before after d, parse_text d, ofJson?_write_json d, fun s => ⟨?_, ?_⟩⟩
  · intro h
    refine ⟨exists_of_parse h, fun w hw => ?_⟩
    rwa [← parse_toList_iff, hw, String.ofList_toList]
  · rintro ⟨⟨w, hw⟩, hspells⟩
    rw [← String.ofList_toList (s := s), ← hw, parse_toList_iff]
    exact hspells w hw

/-- The fifteenth of March in the year -44, spelled without zeros and with blanks. -/
def ides : Spelling false where
  before := ⟨['\u3000'], List.all_eq_true.mp rfl⟩
  sign := some true
  year := ⟨['4', '4'], List.all_eq_true.mp rfl, List.cons_ne_nil _ _⟩
  afterYear := .none
  beforeMonth := ⟨[' '], List.all_eq_true.mp rfl⟩
  month := ⟨['3'], List.all_eq_true.mp rfl, List.cons_ne_nil _ _⟩
  afterMonth := .none
  beforeDay := ⟨['\t'], List.all_eq_true.mp rfl⟩
  day := ⟨['1', '5'], List.all_eq_true.mp rfl, List.cons_ne_nil _ _⟩
  after := .none
  year_length := nofun
  month_length := by decide
  day_length := by decide
  afterYear_tight _ := rfl
  afterMonth_tight _ := rfl

theorem text_round_trip_ides :
    let d : Date := ⟨-44, 3, 15, by decide⟩
    d.text = "-0044-03-15" ∧ parse "\u3000-0044-03-15\u2003" = .ok d ∧ parse "\u3000-44- 3-\t15" = .ok d ∧
      ides.toList = "\u3000-44- 3-\t15".toList ∧ ides.Spells d := by
  intro d
  obtain ⟨hblanks, -, -, hspelled⟩ := text_round_trip d
  have htext : d.text = "-0044-03-15" := by decide +kernel
  have hread : parse "\u3000-44- 3-\t15" = .ok d := rfl
  have haround := hblanks ⟨['\u3000'], List.all_eq_true.mp rfl⟩ ⟨['\u2003'], List.all_eq_true.mp rfl⟩
  rw [htext] at haround
  exact ⟨htext, haround, hread, rfl, ((hspelled _).mp hread).2 ides rfl⟩

end Date

end TermStructure
