import TermStructure.Proofs.Toml.Numbers

/-!
# Lines

A document that is written line by line is read line by line: a blank line says nothing, a header and a key with a
value say what they say, and none of them is bothered by the lines after it.
-/

namespace TermStructure.Toml.Reader
open Decimal (isDigit digits)

/-! ### Values -/

/-- A number starts with a digit, a sign or one of two words. -/
theorem number_eq_none {c : Char} (hc : isDigit c = false) (hother : c ∉ ['-', '+', 'i', 'n']) (rest : List Char) :
    number (c :: rest) = none := by
  simp only [List.mem_cons, List.not_mem_nil, or_false, not_or] at hother
  obtain ⟨hminus, hplus, hi, hn⟩ := hother
  have hzero : c ≠ '0' := by
    rintro rfl
    cases hc
  have hfixed (width : Nat) : fixedDigits (width + 1) (c :: rest) = none := by
    unfold fixedDigits
    rw [List.take_succ_cons, List.takeWhile_cons, hc]
    rfl
  have hmoment : moment (c :: rest) = none := by
    unfold moment date timeOfDay hoursAndMinutes
    rw [hfixed, hfixed]
    rfl
  have hsign : sign (c :: rest) = (none, c :: rest) := by
    unfold sign
    split
    · rename_i heq
      exact absurd (List.cons.inj heq).1 hminus
    · rename_i heq
      exact absurd (List.cons.inj heq).1 hplus
    · rfl
  have hunsigned : decimal (c :: rest) = none := by
    rw [decimal_eq, hsign]
    unfold unsigned
    split
    · rename_i heq
      exact absurd (List.cons.inj heq).1 hi
    · rename_i heq
      exact absurd (List.cons.inj heq).1 hn
    · rw [wholeDigits_of_ne hzero, digitRun_cons_of_not hc]
      rfl
  unfold number
  rw [hmoment]
  dsimp only
  split
  · rename_i heq
    exact absurd (List.cons.inj heq).1 hzero
  · rename_i heq
    exact absurd (List.cons.inj heq).1 hzero
  · rename_i heq
    exact absurd (List.cons.inj heq).1 hzero
  · exact hunsigned

/-- Where a number stands the value is that number. -/
theorem value_of_number {depth : Nat} {cs : List Char} {r : Value × List Char} (h : number cs = some r) :
    value depth cs = some r := by
  have hnone {c : Char} {rest : List Char} (hc : isDigit c = false) (hother : c ∉ ['-', '+', 'i', 'n'])
      (hcs : number (c :: rest) = some r) : False := by
    rw [number_eq_none hc hother] at hcs
    cases hcs
  unfold value
  split
  · exact (hnone (by decide) (by decide) h).elim
  · exact (hnone (by decide) (by decide) h).elim
  · exact (hnone (by decide) (by decide) h).elim
  · exact (hnone (by decide) (by decide) h).elim
  · exact (hnone (by decide) (by decide) h).elim
  · exact (hnone (by decide) (by decide) h).elim
  · exact h

/-- A character that stands for itself between double quotes. -/
def isPlain (c : Char) : Bool := isLineChar c && c != '"' && c != '\\'

theorem basicEnd_plain {s : List Char} (hs : ∀ c ∈ s, isPlain c = true) {fuel : Nat} (hfuel : s.length < fuel)
    (seen rest : List Char) : basicEnd fuel seen (s ++ '"' :: rest) = some (String.ofList (seen.reverse ++ s), rest) := by
  induction s generalizing fuel seen with
  | nil =>
    obtain ⟨fuel, rfl⟩ := Nat.exists_eq_succ_of_ne_zero (Nat.ne_of_gt hfuel)
    rw [List.append_nil]
    rfl
  | cons c s ih =>
    obtain ⟨fuel, rfl⟩ := Nat.exists_eq_succ_of_ne_zero (Nat.ne_of_gt (Nat.zero_lt_of_lt hfuel))
    have hc := hs c List.mem_cons_self
    unfold isPlain at hc
    simp only [Bool.and_eq_true, bne_iff_ne] at hc
    obtain ⟨⟨hline, hquote⟩, hescape⟩ := hc
    have hrest := ih (fun d hd => hs d (List.mem_cons_of_mem c hd)) (Nat.lt_of_succ_lt_succ hfuel) (c :: seen)
    rw [List.reverse_cons, List.append_assoc] at hrest
    rw [List.cons_append]
    unfold basicEnd
    split
    · rename_i heq
      cases heq
    · rename_i heq
      exact absurd (List.cons.inj heq).1 hquote
    · rename_i heq
      exact absurd (List.cons.inj heq).1 hescape
    · rename_i heq
      obtain ⟨rfl, rfl⟩ := List.cons.inj heq
      rw [if_pos hline]
      exact hrest

/-- A text of plain characters is read back from between its quotes. -/
theorem value_quoted {depth : Nat} {s : List Char} (hs : ∀ c ∈ s, isPlain c = true) (tail : List Char) :
    value depth ('"' :: s ++ '"' :: '\n' :: tail) = some (.string (String.ofList s), '\n' :: tail) := by
  have hshort : shortText ('"' :: s ++ '"' :: '\n' :: tail) = some (String.ofList s, '\n' :: tail) := by
    refine basicEnd_plain hs ?_ [] _
    exact Nat.lt_succ_of_le (List.IsPrefix.length_le ⟨_, rfl⟩)
  have htext : text ('"' :: s ++ '"' :: '\n' :: tail) = some (String.ofList s, '\n' :: tail) := by
    rw [← hshort]
    unfold text
    split
    · -- A text that is not empty has no quote after the first one, and an empty one has just two.
      rename_i heq
      rcases s with _ | ⟨c, s⟩
      · cases heq
      · obtain ⟨rfl, -⟩ := List.cons.inj (List.cons.inj heq).2
        exact absurd (hs '"' List.mem_cons_self) (by decide)
    · rename_i heq
      cases heq
    · rfl
  unfold value
  rw [List.cons_append] at htext ⊢
  dsimp only
  rw [htext]
  rfl

/-! ### Keys -/

/-- The characters of a key that needs no quotes. -/
structure IsBare (name : List Char) : Prop where
  ne_nil : name ≠ []
  bare : ∀ c ∈ name, isBareChar c = true

instance (name : List Char) : Decidable (IsBare name) :=
  decidable_of_iff (name ≠ [] ∧ name.all isBareChar = true)
    ⟨fun h => ⟨h.1, List.all_eq_true.mp h.2⟩, fun h => ⟨h.ne_nil, List.all_eq_true.mpr h.bare⟩⟩

theorem takeWhile_append_cons {p : Char → Bool} {cs : List Char} (h : ∀ c ∈ cs, p c = true) {c : Char}
    (hc : p c = false) (rest : List Char) : (cs ++ c :: rest).takeWhile p = cs := by
  rw [List.takeWhile_append_of_pos h, List.takeWhile_cons, hc]
  simp

namespace IsBare
variable {name : List Char} (h : IsBare name) {c : Char} (hc : isBareChar c = false) (rest : List Char)
include h

theorem exists_cons : ∃ c cs, name = c :: cs ∧ isBareChar c = true := by
  obtain ⟨c, cs, rfl⟩ := List.exists_cons_of_ne_nil h.ne_nil
  exact ⟨c, cs, rfl, h.bare c List.mem_cons_self⟩

theorem skipSpaces_append (rest : List Char) : skipSpaces (name ++ rest) = name ++ rest := by
  obtain ⟨c, cs, rfl, hbare⟩ := h.exists_cons
  unfold skipSpaces
  rw [List.cons_append, List.dropWhile_cons, if_neg]
  intro hspace
  rcases Bool.or_eq_true_iff.mp hspace with heq | heq
  all_goals
    rw [beq_iff_eq.mp heq] at hbare
    exact absurd hbare (by decide)

include hc in
/-- A key is read up to a character that no key has, if there is no dot after it. -/
theorem key_append {fuel : Nat} (hdot : ∀ rest', skipSpaces (c :: rest) ≠ '.' :: rest') :
    key (fuel + 1) (name ++ c :: rest) = some ([String.ofList name], skipSpaces (c :: rest)) := by
  have hpart : keyPart (skipSpaces (name ++ c :: rest)) = some (String.ofList name, c :: rest) := by
    rw [h.skipSpaces_append]
    unfold keyPart
    rw [takeWhile_append_cons h.bare hc]
    have hempty : name.isEmpty = false := List.isEmpty_eq_false_iff.mpr h.ne_nil
    simp [hempty]
  unfold key
  rw [hpart]
  dsimp only [Option.bind_eq_bind, Option.bind_some]
  split
  · rename_i heq
    exact absurd heq (hdot _)
  · rfl

end IsBare

/-! ### Statements -/

/-- A key and a value make a line. -/
theorem statement_pair {name : List Char} (hname : IsBare name) {v tail : List Char} {w : Value}
    (hvalue : value (depthLimit - 1) (v ++ '\n' :: tail) = some (w, '\n' :: tail)) :
    statement (name ++ ' ' :: '=' :: ' ' :: v ++ '\n' :: tail) = some (.pair [String.ofList name] w, tail) := by
  -- Where a blank stands there is no value.
  have hspaces : skipSpaces (v ++ '\n' :: tail) = v ++ '\n' :: tail := by
    cases v with
    | nil => rfl
    | cons c v =>
      unfold skipSpaces
      rw [List.cons_append, List.dropWhile_cons, if_neg]
      intro hblank
      rcases Bool.or_eq_true_iff.mp hblank with heq | heq
      all_goals
        rw [beq_iff_eq.mp heq] at hvalue
        have hnone := hvalue.symm.trans (number_eq_none (by decide) (by decide) _)
        cases hnone
  have hkey (fuel : Nat) : key (fuel + 1) (name ++ ' ' :: '=' :: ' ' :: v ++ '\n' :: tail)
      = some ([String.ofList name], '=' :: ' ' :: v ++ '\n' :: tail) := by
    rw [List.append_assoc]
    exact hname.key_append rfl _ nofun
  have hpair : pair (value (depthLimit - 1)) (name ++ ' ' :: '=' :: ' ' :: v ++ '\n' :: tail)
      = some (([String.ofList name], w), '\n' :: tail) := by
    unfold pair
    rw [hkey]
    change (value (depthLimit - 1) (skipSpaces (v ++ '\n' :: tail)) >>= fun r => some (([String.ofList name], r.1), r.2))
      = _
    rw [hspaces, hvalue]
    rfl
  obtain ⟨c, cs, hc, hbare⟩ := hname.exists_cons
  unfold statement
  split
  · rename_i heq
    rw [hc] at heq
    obtain ⟨rfl, -⟩ := List.cons.inj heq
    exact absurd hbare (by decide)
  · rename_i heq
    rw [hc] at heq
    obtain ⟨rfl, -⟩ := List.cons.inj heq
    exact absurd hbare (by decide)
  · rw [hpair]
    rfl

/-- A key in brackets makes a line. -/
theorem statement_header {name : List Char} (hname : IsBare name) (tail : List Char) :
    statement ('[' :: name ++ ']' :: '\n' :: tail) = some (.header [String.ofList name], tail) := by
  have hpath : headerPath [']'] (name ++ ']' :: '\n' :: tail) = some ([String.ofList name], '\n' :: tail) := by
    have hdot (rest : List Char) : skipSpaces (']' :: '\n' :: tail) ≠ '.' :: rest := by
      intro h
      have h : ']' :: '\n' :: tail = '.' :: rest := h
      exact absurd (List.cons.inj h).1 (by decide)
    have hkey (fuel : Nat) : key (fuel + 1) (name ++ ']' :: '\n' :: tail) = some ([String.ofList name], ']' :: '\n' :: tail) :=
      hname.key_append rfl _ hdot
    unfold headerPath
    rw [hkey]
    rfl
  obtain ⟨c, cs, hc, hbare⟩ := hname.exists_cons
  unfold statement
  split
  · rename_i heq
    rw [hc] at heq
    obtain ⟨rfl, -⟩ := List.cons.inj (List.cons.inj heq).2
    exact absurd hbare (by decide)
  · rename_i heq
    obtain ⟨-, rfl⟩ := List.cons.inj heq
    change ((headerPath [']'] (name ++ ']' :: '\n' :: tail)).map fun r => (Statement.header r.1, r.2)) >>= _ = _
    rw [hpath]
    rfl
  · rename_i hplain
    exact absurd rfl (hplain _)

/-! ### Documents -/

/-- A line says one thing or nothing, whatever comes after it, and it does not start with a byte order mark. -/
structure Says (line : List Char) (s : Option Statement) : Prop where
  starts : ∃ c rest, line = c :: rest ∧ c ≠ '\uFEFF'
  statements (fuel : Nat) (tail : List Char) :
    statements (fuel + 1) (line ++ tail) = (statements fuel tail).map (s.toList ++ ·)

theorem says_blank : Says ['\n'] none where
  starts := ⟨_, _, rfl, by decide⟩
  statements _ _ := Option.map_id'.symm

theorem says_of_statement {c : Char} {line : List Char} {s : Statement}
    (hc : c ∉ [' ', '\t', '\n', '\r', '#', '\uFEFF']) (h : ∀ tail, statement (c :: line ++ tail) = some (s, tail)) :
    Says (c :: line) (some s) where
  starts := ⟨c, line, rfl, fun hmark => hc (by simp [hmark])⟩
  statements fuel tail := by
    simp only [List.mem_cons, List.not_mem_nil, or_false, not_or] at hc
    obtain ⟨hspace, htab, hnewline, hreturn, hcomment, -⟩ := hc
    have hspaces : skipSpaces (c :: line ++ tail) = c :: line ++ tail := by
      unfold skipSpaces
      rw [List.cons_append, List.dropWhile_cons, if_neg]
      simp [hspace, htab]
    have hend : lineEnd (c :: line ++ tail) = none := by
      have hplain : comment (c :: line ++ tail) = c :: line ++ tail := by
        unfold comment
        split
        · rename_i heq
          exact absurd (List.cons.inj heq).1 hcomment
        · rfl
      unfold lineEnd
      rw [hspaces, hplain]
      dsimp only [List.cons_append]
      unfold newline?
      split
      · rename_i heq
        exact absurd (List.cons.inj heq).1 hnewline
      · rename_i heq
        exact absurd (List.cons.inj heq).1 hreturn
      · rfl
    rw [Reader.statements, hspaces]
    dsimp only [List.cons_append] at hend ⊢
    rw [hend]
    have hs := h tail
    rw [List.cons_append] at hs
    rw [hs]
    change (Reader.statements fuel tail >>= fun later => some (s :: later)) = _
    cases Reader.statements fuel tail <;> rfl

/-- A document says what its lines say. -/
theorem statements_lines {lines : List (List Char × Option Statement)} (h : ∀ l ∈ lines, Says l.1 l.2) {fuel : Nat}
    (hfuel : (lines.flatMap (·.1)).length < fuel) :
    statements fuel (lines.flatMap (·.1)) = some (lines.flatMap (·.2.toList)) := by
  induction lines generalizing fuel with
  | nil =>
    obtain ⟨fuel, rfl⟩ := Nat.exists_eq_succ_of_ne_zero (Nat.ne_of_gt hfuel)
    rfl
  | cons l lines ih =>
    obtain ⟨fuel, rfl⟩ := Nat.exists_eq_succ_of_ne_zero (Nat.ne_of_gt (Nat.zero_lt_of_lt hfuel))
    have hl := h l List.mem_cons_self
    obtain ⟨c, line, hline, -⟩ := hl.starts
    have hpositive : 0 < l.1.length := by
      rw [hline]
      exact Nat.succ_pos _
    rw [List.flatMap_cons, List.length_append] at hfuel
    rw [List.flatMap_cons, hl.statements, ih (fun l' hl' => h l' (List.mem_cons_of_mem l hl')) (by omega)]
    rfl

/-- A key with a value, on a line of its own. -/
theorem says_pair {name v : List Char} {w : Value} (hname : IsBare name)
    (hvalue : ∀ tail, value (depthLimit - 1) (v ++ '\n' :: tail) = some (w, '\n' :: tail)) :
    Says (name ++ ' ' :: '=' :: ' ' :: v ++ ['\n']) (some (.pair [String.ofList name] w)) := by
  obtain ⟨c, cs, rfl, hbare⟩ := hname.exists_cons
  refine says_of_statement (fun hc => ?_) fun tail => ?_
  · simp only [List.mem_cons, List.not_mem_nil, or_false] at hc
    rcases hc with rfl | rfl | rfl | rfl | rfl | rfl <;> exact absurd hbare (by decide)
  · have hpair := statement_pair hname (hvalue tail)
    simpa using hpair

theorem says_header {name : List Char} (hname : IsBare name) :
    Says ('[' :: name ++ [']', '\n']) (some (.header [String.ofList name])) := by
  refine says_of_statement (by decide) fun tail => ?_
  have hheader := statement_header hname tail
  simpa using hheader

/-! ### Tables -/

/-- Keys with values, as statements. -/
def pairs (entries : List (String × Value)) : List Statement := entries.map fun e => .pair [e.1] e.2

/-- Keys with values, as they are collected. -/
def valued (entries : List (String × Value)) : Entries := entries.map fun e => (e.1, .value e.2)

theorem addPair_append {inner : Entries} {name : String} (h : inner.lookup name = none) (v : Value) :
    addPair [name] v inner = some (inner ++ [(name, .value v)]) := by
  have hadd : addPair [name] v inner
      = if false || (inner.lookup name).isSome then none else some (inner ++ [(name, .value v)]) := rfl
  rw [hadd, h]
  rfl

theorem lookup_append_of_ne {inner : Entries} {name other : String} (h : inner.lookup name = none) (hne : name ≠ other)
    (e : Entry) : (inner ++ [(other, e)]).lookup name = none := by
  have hkey : (name == other) = false := beq_false_of_ne hne
  rw [List.lookup_append, h, Option.none_or, List.lookup_cons, hkey]
  rfl

/-- The statements of a table without further tables, when `current` is it, add its values one by one. -/
theorem collectAll_pairs (place : Entries → Entries) {current : List String}
    (hplace : ∀ inner name v, inner.lookup name = none →
      collect (place inner) current (.pair [name] v) = some (place (inner ++ [(name, .value v)]), current))
    {entries : List (String × Value)} (hnodup : (entries.map (·.1)).Nodup) {inner : Entries}
    (hnew : ∀ e ∈ entries, inner.lookup e.1 = none) (rest : List Statement) :
    collectAll (place inner) current (pairs entries ++ rest) = collectAll (place (inner ++ valued entries)) current rest := by
  induction entries generalizing inner with
  | nil =>
    rw [valued, List.map_nil, List.append_nil]
    rfl
  | cons e entries ih =>
    obtain ⟨hfresh, hnodup⟩ := List.nodup_cons.mp hnodup
    have hcollect := hplace inner e.1 e.2 (hnew e List.mem_cons_self)
    have hlater : ∀ e' ∈ entries, (inner ++ [(e.1, Entry.value e.2)]).lookup e'.1 = none := by
      intro e' he'
      refine lookup_append_of_ne (hnew e' (List.mem_cons_of_mem e he')) ?_ _
      intro heq
      exact hfresh (List.mem_map.mpr ⟨e', he', heq⟩)
    have hrest := ih hnodup hlater
    rw [pairs, List.map_cons, List.cons_append, collectAll, hcollect]
    change collectAll _ current (pairs entries ++ rest) = _
    rw [hrest, List.append_assoc]
    rfl

theorem collect_root {inner : Entries} {name : String} (h : inner.lookup name = none) (v : Value) :
    collect inner [] (.pair [name] v) = some (inner ++ [(name, .value v)], []) := by
  change (addPair [name] v inner >>= fun entries => some (entries, [])) = _
  rw [addPair_append h]
  rfl

theorem replace_append {top : Entries} {table : String} (h : top.lookup table = none) (e e' : Entry) :
    Entries.replace table e (top ++ [(table, e')]) = top ++ [(table, e)] := by
  have hkeep : ∀ p ∈ top, (if p.1 == table then (p.1, e) else p) = p := by
    intro p hp
    have hne := List.lookup_eq_none_iff.mp h p hp
    rw [if_neg]
    intro heq
    rw [beq_iff_eq.mp heq] at hne
    simp at hne
  unfold Entries.replace
  rw [List.map_append, List.map_congr_left hkeep, List.map_id']
  simp

theorem collect_table {top inner : Entries} {table name : String} (htop : top.lookup table = none)
    (h : inner.lookup name = none) (v : Value) :
    collect (top ++ [(table, .table true false inner)]) [table] (.pair [name] v)
      = some (top ++ [(table, .table true false (inner ++ [(name, .value v)]))], [table]) := by
  have hlookup : (top ++ [(table, Entry.table true false inner)]).lookup table = some (.table true false inner) := by
    rw [List.lookup_append, htop, Option.none_or, List.lookup_cons, beq_self_eq_true]
  have hmodify : Entries.modify false (fun _ inner => addPair [name] v inner) [table] false
      (top ++ [(table, .table true false inner)])
      = (addPair [name] v inner).map fun inner' =>
        Entries.replace table (.table true false inner') (top ++ [(table, .table true false inner)]) := by
    rw [Entries.modify, hlookup]
    rfl
  change (Entries.modify false (fun _ inner => addPair [name] v inner) [table] false _ >>= fun entries =>
    some (entries, [table])) = _
  rw [hmodify, addPair_append h, Option.map_some, replace_append htop]
  rfl

theorem collect_header {entries : Entries} {current : List String} {table : String} (h : entries.lookup table = none) :
    collect entries current (.header [table]) = some (entries ++ [(table, .table true false [])], [table]) := by
  have hopen : Entries.openTable [] table entries = some (entries ++ [(table, .table true false [])]) := by
    unfold Entries.openTable Entries.modify
    rw [h]
  change (Entries.openTable [] table entries >>= fun entries => some (entries, [table])) = _
  rw [hopen]
  rfl

theorem finishEntries_valued (entries : List (String × Value)) (later : Entries) :
    finishEntries (valued entries ++ later) = entries ++ finishEntries later := by
  induction entries with
  | nil => rfl
  | cons e entries ih =>
    rw [List.cons_append, ← ih]
    rfl

theorem lookup_valued {entries : List (String × Value)} {name : String} (h : name ∉ entries.map (·.1)) :
    (valued entries).lookup name = none := by
  refine List.lookup_eq_none_iff.mpr fun p hp => ?_
  obtain ⟨e, he, rfl⟩ := List.mem_map.mp hp
  rw [bne_iff_ne]
  rintro rfl
  exact h (List.mem_map_of_mem he)

/-- Values and a table of values are collected as those. -/
theorem collectAll_table {top sub : List (String × Value)} {table : String} (htop : (top.map (·.1)).Nodup)
    (htable : table ∉ top.map (·.1)) (hsub : (sub.map (·.1)).Nodup) :
    collectAll [] [] (pairs top ++ .header [table] :: pairs sub)
      = some (valued top ++ [(table, .table true false (valued sub))]) := by
  have hfree := lookup_valued htable
  have hroot : collectAll [] [] (pairs top ++ .header [table] :: pairs sub)
      = collectAll (valued top) [] (.header [table] :: pairs sub) :=
    collectAll_pairs id (fun _ _ v h => collect_root h v) htop (fun _ _ => rfl) _
  have hinside : collectAll (valued top ++ [(table, .table true false [])]) [table] (pairs sub ++ [])
      = some (valued top ++ [(table, .table true false (valued sub))]) :=
    collectAll_pairs (fun inner => valued top ++ [(table, .table true false inner)])
      (fun _ _ v h => collect_table hfree h v) hsub (fun _ _ => rfl) []
  rw [List.append_nil] at hinside
  rw [hroot, collectAll, collect_header hfree]
  exact hinside

end Reader

open Reader

/-- A document of lines that say values, a header and the values of its table is read as those. -/
theorem read?_lines {s : String} (lines : List (List Char × Option Statement)) (hlines : ∀ l ∈ lines, Says l.1 l.2)
    (hs : s.toList = lines.flatMap (·.1)) {top sub : List (String × Value)} {table : String}
    (hstatements : lines.flatMap (·.2.toList) = pairs top ++ .header [table] :: pairs sub)
    (htop : (top.map (·.1)).Nodup) (htable : table ∉ top.map (·.1)) (hsub : (sub.map (·.1)).Nodup) :
    read? s = some (top ++ [(table, .table sub)]) := by
  have hunmarked : ∀ rest, s.toList ≠ '\uFEFF' :: rest := by
    intro rest hmark
    rw [hs] at hmark
    cases lines with
    | nil => cases hmark
    | cons l lines =>
      obtain ⟨c, line, hline, hc⟩ := (hlines l List.mem_cons_self).starts
      rw [List.flatMap_cons, hline] at hmark
      exact hc (List.cons.inj hmark).1
  have hread := statements_lines hlines (Nat.lt_succ_self _)
  rw [← hs, hstatements] at hread
  unfold read?
  dsimp only
  split
  · rename_i hmark
    exact absurd hmark (hunmarked _)
  · rw [hread]
    change (collectAll [] [] _ >>= fun entries => some (finishEntries entries)) = _
    rw [collectAll_table htop htable hsub]
    have hsub : finishEntries (valued sub) = sub := by
      have hvalued := finishEntries_valued sub []
      rwa [List.append_nil, finishEntries, List.append_nil] at hvalued
    have htable : finishEntries [(table, .table true false (valued sub))] = [(table, .table sub)] := by
      rw [finishEntries, Entry.finish, hsub, finishEntries]
    change some (finishEntries _) = _
    rw [finishEntries_valued, htable]

end TermStructure.Toml
