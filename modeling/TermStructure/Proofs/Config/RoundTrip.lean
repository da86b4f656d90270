import TermStructure.Config.Text
import TermStructure.Proofs.Scalar.Comparisons
import TermStructure.Proofs.Toml.Lines

/-!
# Configurations read back

A configuration is read back from the text it is written as, provided its two numbers are read back from theirs.
Lines with keys may be deleted from the text: then the fields they were for are at their defaults. Whether what was
read is a configuration that can be used is for the check to say, since a default may not go with what was kept.
-/

namespace TermStructure

open Toml Toml.Reader

/-! ### Items -/

/-- A setting with its key: how it is written, and as what it is read. -/
structure Item where
  key : String
  text : String
  value : Toml.Value

namespace Item

def line (i : Item) : String := CurveConfig.line i.key i.text

def entry (i : Item) : String × Toml.Value := (i.key, i.value)

/-- The value is read from the text, at the end of a line. -/
structure Reads (i : Item) : Prop where
  bare : IsBare i.key.toList
  value : ∀ tail, Reader.value (depthLimit - 1) (i.text.toList ++ '\n' :: tail) = some (i.value, '\n' :: tail)

theorem reads {key text : String} {value : Toml.Value} (hkey : IsBare key.toList)
    (hvalue : ∀ tail, Reader.value (depthLimit - 1) (text.toList ++ '\n' :: tail) = some (value, '\n' :: tail)) :
    Reads ⟨key, text, value⟩ := ⟨hkey, hvalue⟩

theorem toList_line (i : Item) : i.line.toList = i.key.toList ++ ' ' :: '=' :: ' ' :: i.text.toList ++ ['\n'] := by
  simp [line, CurveConfig.line]

theorem Reads.says_line {i : Item} (h : i.Reads) : Says i.line.toList (some (.pair [i.key] i.value)) := by
  have hline := says_pair h.bare h.value
  rw [String.ofList_toList] at hline
  rw [toList_line]
  exact hline

end Item

/-- A number is read back from its text. -/
def ReadsBack (x : Float) : Prop := Reader.number (CurveConfig.numberText x).toList = some (.float x, [])

/-- A number is all that was read. -/
def isOnly (x : Float) : Toml.Value × List Char → Bool
  | (.float y, []) => Scalar.same y x
  | _ => false

theorem eq_of_isOnly {x : Float} {r : Toml.Value × List Char} (h : isOnly x r = true) : r = (.float x, []) := by
  unfold isOnly at h
  split at h
  · rw [LawfulSame.eq_of_same h]
  · cases h

theorem isOnly_self (x : Float) : isOnly x (.float x, []) = true := beq_self_eq_true x.toBits

instance (x : Float) : Decidable (ReadsBack x) :=
  decidable_of_iff ((Reader.number (CurveConfig.numberText x).toList).any (isOnly x) = true)
    ⟨fun h => by
      obtain ⟨r, hread, hr⟩ := (Option.any_eq_true _ _).mp h
      rw [eq_of_isOnly hr] at hread
      exact hread,
    fun h => (Option.any_eq_true _ _).mpr ⟨_, h, isOnly_self x⟩⟩

/-- What is not finite has a name, by which it is read back. -/
theorem readsBack_of_not_isFinite {x : Float} (h : x.isFinite = false) : ReadsBack x := by
  rcases Binary64.eq_of_not_isFinite h with rfl | rfl | rfl
  · have htext : CurveConfig.numberText (0.0 / 0.0) = "nan" := by decide +kernel
    unfold ReadsBack
    rw [htext]
    rfl
  · have htext : CurveConfig.numberText (1.0 / 0.0) = "inf" := by decide +kernel
    unfold ReadsBack
    rw [htext]
    rfl
  · have htext : CurveConfig.numberText (-(1.0 / 0.0)) = "-inf" := by decide +kernel
    unfold ReadsBack
    rw [htext]
    rfl

section
variable (tail : List Char)

theorem reads_number {x : Float} (h : ReadsBack x) :
    value (depthLimit - 1) ((CurveConfig.numberText x).toList ++ '\n' :: tail) = some (.float x, '\n' :: tail) := by
  have hnumber : Reader.number (CurveConfig.numberText x).toList = _ := h
  refine value_of_number ?_
  rw [number_append, hnumber]
  rfl

theorem reads_count (n : UInt32) :
    value (depthLimit - 1) ((Decimal.text n.toNat).toList ++ '\n' :: tail) = some (.integer n.toNat, '\n' :: tail) := by
  have hn := n.toNat_lt
  refine value_of_number ?_
  rw [Decimal.text, String.toList_ofList, number_append, number_digits (by omega)]
  rfl

theorem reads_flag (b : Bool) :
    value (depthLimit - 1) ((CurveConfig.flagText b).toList ++ '\n' :: tail) = some (.boolean b, '\n' :: tail) := by
  cases b <;> rfl

theorem reads_name {s : String} (hs : ∀ c ∈ s.toList, isPlain c = true) :
    value (depthLimit - 1) ((CurveConfig.nameText s).toList ++ '\n' :: tail) = some (.string s, '\n' :: tail) := by
  have htext : (CurveConfig.nameText s).toList ++ '\n' :: tail = '"' :: s.toList ++ '"' :: '\n' :: tail := by
    simp [CurveConfig.nameText]
  rw [htext, value_quoted hs, String.ofList_toList]

end

namespace BootstrapConfig

/-- The settings of a bootstrap in the order in which they are written. -/
def items (c : BootstrapConfig Float) : List Item :=
  [⟨"accuracy", CurveConfig.numberText c.accuracy, .float c.accuracy⟩,
   ⟨"max_evaluations", Decimal.text c.maxEvaluations.toNat, .integer c.maxEvaluations.toNat⟩,
   ⟨"bracket_widening", CurveConfig.numberText c.bracketWidening, .float c.bracketWidening⟩,
   ⟨"global_check", CurveConfig.flagText c.globalCheck, .boolean c.globalCheck⟩,
   ⟨"global_retry", CurveConfig.flagText c.globalRetry, .boolean c.globalRetry⟩]

theorem nodup_items (c : BootstrapConfig Float) : (c.items.map (·.key)).Nodup :=
  (by decide : ["accuracy", "max_evaluations", "bracket_widening", "global_check", "global_retry"].Nodup)

theorem reads_items {c : BootstrapConfig Float} (haccuracy : ReadsBack c.accuracy)
    (hwidening : ReadsBack c.bracketWidening) : ∀ i ∈ c.items, i.Reads := by
  simp only [items, List.forall_mem_cons, List.not_mem_nil, false_implies, implies_true, and_true]
  exact ⟨Item.reads (by decide) (reads_number · haccuracy), Item.reads (by decide) (reads_count · _),
    Item.reads (by decide) (reads_number · hwidening), Item.reads (by decide) (reads_flag · _),
    Item.reads (by decide) (reads_flag · _)⟩

end BootstrapConfig

namespace CurveConfig

/-- The settings of a curve in the order in which they are written, without those of its bootstrap. -/
def items (c : CurveConfig Float) : List Item :=
  [⟨"kind", nameText c.kind.identifier, .string c.kind.identifier⟩,
   ⟨"interpolation", nameText c.interpolation.identifier, .string c.interpolation.identifier⟩,
   ⟨"day_count", nameText c.dayCount.identifier, .string c.dayCount.identifier⟩,
   ⟨"allow_extrapolation", flagText c.allowExtrapolation, .boolean c.allowExtrapolation⟩]

theorem nodup_items (c : CurveConfig Float) : (c.items.map (·.key)).Nodup :=
  (by decide : ["kind", "interpolation", "day_count", "allow_extrapolation"].Nodup)

theorem reads_items (c : CurveConfig Float) : ∀ i ∈ c.items, i.Reads := by
  have hkind (k : CurveKind) : ∀ c ∈ k.identifier.toList, isPlain c = true :=
    List.all_eq_true.mp (by cases k <;> decide)
  have hmethod (m : Method) : ∀ c ∈ m.identifier.toList, isPlain c = true :=
    List.all_eq_true.mp (by cases m <;> decide)
  have hdays (d : DayCount) : ∀ c ∈ d.identifier.toList, isPlain c = true :=
    List.all_eq_true.mp (by cases d <;> decide)
  simp only [items, List.forall_mem_cons, List.not_mem_nil, false_implies, implies_true, and_true]
  exact ⟨Item.reads (by decide) (reads_name · (hkind _)), Item.reads (by decide) (reads_name · (hmethod _)),
    Item.reads (by decide) (reads_name · (hdays _)), Item.reads (by decide) (reads_flag · _)⟩

/-! ### Lines -/

/-- The key of a line. -/
def lineKey (line : String) : String := String.ofList (line.toList.takeWhile isBareChar)

/-- The text with only some of the lines that have keys. -/
def toTomlKeeping (keep : String → Bool) (c : CurveConfig Float) : String :=
  String.join (c.curveLines.filter (keep ∘ lineKey) ++
    "\n[bootstrap]\n" :: (bootstrapLines c.bootstrap).filter (keep ∘ lineKey))

theorem toTomlKeeping_all (c : CurveConfig Float) : c.toTomlKeeping (fun _ => true) = c.toToml := by
  have hall (lines : List String) : lines.filter ((fun _ => true) ∘ lineKey) = lines :=
    List.filter_eq_self.mpr fun _ _ => rfl
  unfold toTomlKeeping toToml
  rw [hall, hall]

theorem lineKey_line {i : Item} (h : IsBare i.key.toList) : lineKey i.line = i.key := by
  unfold lineKey
  rw [Item.toList_line, List.append_assoc, List.cons_append, takeWhile_append_cons h.bare rfl, String.ofList_toList]

theorem filter_lines {items : List Item} (h : ∀ i ∈ items, i.Reads) (keep : String → Bool) :
    (items.map (·.line)).filter (keep ∘ lineKey) = (items.filter (keep ·.key)).map (·.line) := by
  rw [List.filter_map]
  refine congrArg _ (List.filter_congr fun i hi => ?_)
  exact congrArg keep (lineKey_line (h i hi).bare)

/-- The lines of items, with what they say. -/
def said (items : List Item) : List (List Char × Option Statement) :=
  items.map fun i => (i.line.toList, some (.pair [i.key] i.value))

theorem says_of_mem_said {items : List Item} (h : ∀ i ∈ items, i.Reads) : ∀ l ∈ said items, Says l.1 l.2 := by
  intro l hl
  obtain ⟨i, hi, rfl⟩ := List.mem_map.mp hl
  exact (h i hi).says_line

theorem flatMap_said (items : List Item) :
    (said items).flatMap (·.1) = (items.map (·.line)).flatMap String.toList ∧
      (said items).flatMap (·.2.toList) = pairs (items.map (·.entry)) := by
  induction items with
  | nil => exact ⟨rfl, rfl⟩
  | cons i items ih => exact ⟨congrArg (i.line.toList ++ ·) ih.1, congrArg (Statement.pair [i.key] i.value :: ·) ih.2⟩

theorem nodup_keys {items : List Item} (h : (items.map (·.key)).Nodup) (p : Item → Bool) :
    (((items.filter p).map (·.entry)).map (·.1)).Nodup := by
  rw [List.map_map]
  exact h.sublist (List.filter_sublist.map _)

/-- What is read from the text that is left. -/
theorem read?_toTomlKeeping {c : CurveConfig Float} (hbootstrap : ∀ i ∈ c.bootstrap.items, i.Reads)
    (keep : String → Bool) :
    Toml.read? (c.toTomlKeeping keep) = some ((c.items.filter (keep ·.key)).map (·.entry) ++
      [("bootstrap", .table ((c.bootstrap.items.filter (keep ·.key)).map (·.entry)))]) := by
  have hcurve := reads_items c
  let top := c.items.filter (keep ·.key)
  let sub := c.bootstrap.items.filter (keep ·.key)
  have htext : c.toTomlKeeping keep
      = String.join (top.map (·.line) ++ "\n[bootstrap]\n" :: sub.map (·.line)) := by
    have htop : c.curveLines = c.items.map (·.line) := rfl
    have hsub : bootstrapLines c.bootstrap = c.bootstrap.items.map (·.line) := rfl
    unfold toTomlKeeping
    rw [htop, hsub, filter_lines hcurve, filter_lines hbootstrap]
  have hheader : Says "[bootstrap]\n".toList (some (.header ["bootstrap"])) := by
    have hline := says_header (by decide : IsBare "bootstrap".toList)
    rw [String.ofList_toList] at hline
    exact hline
  obtain ⟨htopText, htopSays⟩ := flatMap_said top
  obtain ⟨hsubText, hsubSays⟩ := flatMap_said sub
  refine read?_lines (said top ++ (['\n'], none) :: ("[bootstrap]\n".toList, some (.header ["bootstrap"])) :: said sub)
    (fun l hl => ?_) ?_ ?_ (nodup_keys c.nodup_items _) (fun hmem => ?_) (nodup_keys c.bootstrap.nodup_items _)
  · -- A line is that of an item of the curve, blank, the header, or that of an item of the bootstrap.
    rcases List.mem_append.mp hl with hl | hl
    · exact says_of_mem_said (fun i hi => hcurve i ((List.mem_filter.mp hi).1)) l hl
    · rcases List.mem_cons.mp hl with rfl | hl
      · exact says_blank
      · rcases List.mem_cons.mp hl with rfl | hl
        · exact hheader
        · exact says_of_mem_said (fun i hi => hbootstrap i ((List.mem_filter.mp hi).1)) l hl
  · rw [htext, String.toList_join, List.flatMap_append, List.flatMap_append, htopText]
    refine congrArg (_ ++ ·) ?_
    rw [List.flatMap_cons, List.flatMap_cons, List.flatMap_cons, hsubText]
    rfl
  · rw [List.flatMap_append, htopSays, List.flatMap_cons, List.flatMap_cons, hsubSays]
    rfl
  · rw [List.map_map] at hmem
    have hall : "bootstrap" ∈ c.items.map (·.key) := (List.filter_sublist.map _).subset hmem
    exact absurd hall (by decide : "bootstrap" ∉ ["kind", "interpolation", "day_count", "allow_extrapolation"])

end CurveConfig

/-! ### Fields -/

namespace Setting

/-- The one setting of a list of entries with the same name, if there is any. -/
def only? : List (String × Setting) → Option (Option Setting)
  | [] => some none
  | [(_, s)] => some (some s)
  | _ => none

theorem fields?_table (style : SettingStyle) (names : List String) (entries : List (String × Setting)) :
    (table entries).fields? style names = names.mapM fun name => only? (entries.filter (·.1 == name)) := rfl

theorem ofTomlEntries_eq (entries : List (String × Toml.Value)) :
    ofTomlEntries entries = entries.map fun e => (e.1, ofToml e.2) := by
  induction entries with
  | nil => rfl
  | cons e entries ih => rw [ofTomlEntries, ih, List.map_cons]

/-- The setting that is read for an item. -/
def ofItem (i : Item) : String × Setting := (i.key, ofToml i.value)

theorem ofTomlEntries_items (items : List Item) : ofTomlEntries (items.map (·.entry)) = items.map ofItem := by
  rw [ofTomlEntries_eq, List.map_map]
  rfl

theorem filter_key {items : List Item} (hkeys : (items.map (·.key)).Nodup) {i : Item} (hi : i ∈ items) :
    items.filter (·.key == i.key) = [i] := by
  induction items with
  | nil => cases hi
  | cons j items ih =>
    obtain ⟨hfresh, hkeys⟩ := List.nodup_cons.mp hkeys
    rcases List.mem_cons.mp hi with rfl | hi
    · have hnone : items.filter (·.key == i.key) = [] := by
        refine List.filter_eq_nil_iff.mpr fun k hk heq => hfresh ?_
        exact List.mem_map.mpr ⟨k, hk, beq_iff_eq.mp heq⟩
      rw [List.filter_cons, if_pos (beq_self_eq_true _), hnone]
    · rw [List.filter_cons, if_neg, ih hkeys hi]
      intro heq
      exact hfresh (List.mem_map.mpr ⟨i, hi, (beq_iff_eq.mp heq).symm⟩)

/-- Under the key of an item that is kept its setting is found, under one that is not nothing is. -/
theorem only?_kept {items : List Item} (hkeys : (items.map (·.key)).Nodup) (keep : String → Bool) {i : Item}
    (hi : i ∈ items) :
    only? (((items.filter (keep ·.key)).map ofItem).filter (·.1 == i.key))
      = some (if keep i.key = true then some (ofToml i.value) else none) := by
  have hcomm : (items.filter (keep ·.key)).filter (·.key == i.key) = [i].filter (keep ·.key) := by
    rw [← filter_key hkeys hi, List.filter_filter, List.filter_filter]
    exact List.filter_congr fun j _ => Bool.and_comm _ _
  rw [List.filter_map]
  change only? (((items.filter (keep ·.key)).filter (·.key == i.key)).map ofItem) = _
  rw [hcomm]
  cases hk : keep i.key <;> simp [hk, only?, ofItem]

theorem mapM_eq_some {β γ : Type} {f : β → Option γ} {g : β → γ} {xs : List β} (h : ∀ x ∈ xs, f x = some (g x)) :
    xs.mapM f = some (xs.map g) := by
  induction xs with
  | nil => rfl
  | cons x xs ih =>
    rw [List.mapM_cons, h x List.mem_cons_self, ih fun y hy => h y (List.mem_cons_of_mem x hy)]
    rfl

/-- The fields of items of which some are kept. -/
theorem fields?_kept {items : List Item} (hkeys : (items.map (·.key)).Nodup) (keep : String → Bool) (style : SettingStyle) :
    (table ((items.filter (keep ·.key)).map ofItem)).fields? style (items.map (·.key))
      = some (items.map fun i => if keep i.key = true then some (ofToml i.value) else none) := by
  rw [fields?_table, List.mapM_map]
  exact mapM_eq_some fun i hi => only?_kept hkeys keep hi

theorem field?_kept {β : Type} {fallback x : β} {read : Setting → Option β} {s : Setting} (h : read s = some x) (b : Bool) :
    field? fallback read (if b = true then some s else none) = some (if b = true then x else fallback) := by
  cases b with
  | false => rfl
  | true => exact h

theorem toCount?_integer (n : UInt32) : toCount? (ofToml (.integer n.toNat)) = some n := by
  have hn := n.toNat_lt
  change (if (0 : Int) ≤ n.toNat ∧ (n.toNat : Int) < 4294967296 then some (UInt32.ofNat (n.toNat : Int).toNat) else none)
    = some n
  rw [if_pos ⟨by omega, by omega⟩, Int.toNat_natCast, UInt32.ofNat_toNat]

end Setting

namespace BootstrapConfig

/-- The configuration with the fields that are not kept at their defaults. -/
def keeping (keep : String → Bool) (c : BootstrapConfig Float) : BootstrapConfig Float :=
  let base : BootstrapConfig Float := default
  { accuracy := if keep "accuracy" then c.accuracy else base.accuracy
    maxEvaluations := if keep "max_evaluations" then c.maxEvaluations else base.maxEvaluations
    bracketWidening := if keep "bracket_widening" then c.bracketWidening else base.bracketWidening
    globalCheck := if keep "global_check" then c.globalCheck else base.globalCheck
    globalRetry := if keep "global_retry" then c.globalRetry else base.globalRetry }

open Setting in
theorem toBootstrap?_kept (c : BootstrapConfig Float) (keep : String → Bool) :
    (table ((c.items.filter (keep ·.key)).map ofItem)).toBootstrap? tomlStyle = some (c.keeping keep) := by
  have hfields := fields?_kept c.nodup_items keep tomlStyle
  change fields? _ ["accuracy", "max_evaluations", "bracket_widening", "global_check", "global_retry"] _ = some [_, _, _, _, _]
    at hfields
  unfold toBootstrap?
  rw [hfields]
  dsimp only [Option.bind_eq_bind, Option.bind_some]
  rw [field?_kept (x := c.accuracy) rfl, field?_kept (toCount?_integer _), field?_kept (x := c.bracketWidening) rfl,
    field?_kept (x := c.globalCheck) rfl, field?_kept (x := c.globalRetry) rfl]
  rfl

end BootstrapConfig

namespace CurveConfig

/-- The configuration with the fields that are not kept at their defaults. -/
def keeping (keep : String → Bool) (c : CurveConfig Float) : CurveConfig Float :=
  let base : CurveConfig Float := default
  { kind := if keep "kind" then c.kind else base.kind
    interpolation := if keep "interpolation" then c.interpolation else base.interpolation
    dayCount := if keep "day_count" then c.dayCount else base.dayCount
    allowExtrapolation := if keep "allow_extrapolation" then c.allowExtrapolation else base.allowExtrapolation
    bootstrap := c.bootstrap.keeping keep }

open Setting in
theorem toConfig?_kept (c : CurveConfig Float) (keep : String → Bool) :
    (Setting.ofToml (.table ((c.items.filter (keep ·.key)).map (·.entry) ++
      [("bootstrap", .table ((c.bootstrap.items.filter (keep ·.key)).map (·.entry)))]))).toConfig? tomlStyle
      = some (c.keeping keep) := by
  -- The table of the bootstrap counts as one more item, which is always kept.
  let bootstrap : Item := ⟨"bootstrap", "", .table ((c.bootstrap.items.filter (keep ·.key)).map (·.entry))⟩
  let keepAlso (key : String) : Bool := keep key || key == "bootstrap"
  have hkeys : ((c.items ++ [bootstrap]).map (·.key)).Nodup :=
    (by decide : ["kind", "interpolation", "day_count", "allow_extrapolation", "bootstrap"].Nodup)
  have hother {key : String} (h : key ≠ "bootstrap") : keepAlso key = keep key :=
    (congrArg (keep key || ·) (beq_eq_false_iff_ne.mpr h)).trans (Bool.or_false _)
  have hitems : c.items.filter (keepAlso ·.key) = c.items.filter (keep ·.key) := by
    refine List.filter_congr fun i hi => hother ?_
    have hkey : i.key ∈ ["kind", "interpolation", "day_count", "allow_extrapolation"] := List.mem_map_of_mem hi
    exact ne_of_mem_of_not_mem hkey (by decide)
  have hentries : ((c.items ++ [bootstrap]).filter (keepAlso ·.key)).map (·.entry)
      = (c.items.filter (keep ·.key)).map (·.entry) ++
        [("bootstrap", .table ((c.bootstrap.items.filter (keep ·.key)).map (·.entry)))] := by
    have hone : [bootstrap].filter (keepAlso ·.key) = [bootstrap] :=
      List.filter_eq_self.mpr fun i hi => by
        rw [List.mem_singleton.mp hi]
        exact Bool.or_true _
    rw [List.filter_append, hitems, hone, List.map_append]
    rfl
  have hfields := fields?_kept hkeys keepAlso tomlStyle
  rw [← ofTomlEntries_items, hentries] at hfields
  change fields? _ ["kind", "interpolation", "day_count", "allow_extrapolation", "bootstrap"] _ = some [_, _, _, _, _]
    at hfields
  have hkind : toName? tomlStyle CurveKind.ofIdentifier? (Setting.ofToml (.string c.kind.identifier)) = some c.kind := by
    cases c.kind <;> rfl
  have hmethod : toName? tomlStyle Method.ofIdentifier? (Setting.ofToml (.string c.interpolation.identifier))
      = some c.interpolation := by
    cases c.interpolation <;> rfl
  have hdays : toName? tomlStyle DayCount.ofIdentifier? (Setting.ofToml (.string c.dayCount.identifier)) = some c.dayCount := by
    cases c.dayCount <;> rfl
  have hbootstrap : toBootstrap? tomlStyle (Setting.ofToml bootstrap.value) = some (c.bootstrap.keeping keep) := by
    rw [← c.bootstrap.toBootstrap?_kept keep, ← ofTomlEntries_items]
    rfl
  unfold toConfig?
  rw [Setting.ofToml, hfields]
  dsimp only [Option.bind_eq_bind, Option.bind_some]
  rw [field?_kept hkind, field?_kept hmethod, field?_kept hdays, field?_kept (x := c.allowExtrapolation) rfl,
    field?_kept hbootstrap, hother (by decide), hother (by decide), hother (by decide), hother (by decide)]
  have halways : keepAlso bootstrap.key = true := Bool.or_true _
  rw [if_pos halways]
  rfl

/-- What a text is read as: the configuration if the check accepts it, and no configuration if it does not. -/
def IsReadAs (text : String) (c : CurveConfig Float) : Prop :=
  (c.validate = .ok () → ofToml text = .ok c) ∧
    (c.validate ≠ .ok () → ∃ issue, ofToml text = .error (.invalidConfig issue))

theorem invalidConfig_of_validate_error {c : CurveConfig Float} {e : CurveError Float} (h : c.validate = .error e) :
    ∃ issue, e = .invalidConfig issue := by
  unfold validate at h
  cases hbootstrap : c.bootstrap.validate with
  | error e' =>
    rw [hbootstrap] at h
    cases h
    unfold BootstrapConfig.validate at hbootstrap
    split at hbootstrap
    · exact ⟨_, (Except.error.inj hbootstrap).symm⟩
    · split at hbootstrap
      · exact ⟨_, (Except.error.inj hbootstrap).symm⟩
      · split at hbootstrap
        · exact ⟨_, (Except.error.inj hbootstrap).symm⟩
        · cases hbootstrap
  | ok _ =>
    rw [hbootstrap] at h
    change c.validateInterpolation = _ at h
    unfold validateInterpolation at h
    split at h
    · cases h
    · exact ⟨_, (Except.error.inj h).symm⟩

theorem isReadAs_of_validated {text : String} {c : CurveConfig Float} (h : ofToml text = c.validated) : IsReadAs text c := by
  unfold validated at h
  refine ⟨fun hvalid => ?_, fun hinvalid => ?_⟩
  · rw [h, hvalid]
    rfl
  · cases he : c.validate with
    | ok u => exact absurd he hinvalid
    | error e =>
      obtain ⟨issue, rfl⟩ := invalidConfig_of_validate_error he
      refine ⟨issue, ?_⟩
      rw [h, he]
      rfl

/-- A configuration is read back from its own text, as long as finite numbers are read back from theirs. If lines with
    keys are deleted, what is left is read as the configuration with just those fields at their defaults. In both cases
    this is so if the check accepts that configuration, and it is an error of the configuration otherwise. -/
theorem toml_round_trip (c : CurveConfig Float)
    (haccuracy : c.bootstrap.accuracy.isFinite = true → ReadsBack c.bootstrap.accuracy)
    (hwidening : c.bootstrap.bracketWidening.isFinite = true → ReadsBack c.bootstrap.bracketWidening) :
    IsReadAs c.toToml c ∧ ∀ keep, IsReadAs (c.toTomlKeeping keep) (c.keeping keep) := by
  have hreads {x : Float} (h : x.isFinite = true → ReadsBack x) : ReadsBack x := by
    cases hx : x.isFinite with
    | false => exact readsBack_of_not_isFinite hx
    | true => exact h hx
  have hitems := BootstrapConfig.reads_items (hreads haccuracy) (hreads hwidening)
  have hkept (keep : String → Bool) : IsReadAs (c.toTomlKeeping keep) (c.keeping keep) := by
    refine isReadAs_of_validated ?_
    unfold ofToml
    rw [read?_toTomlKeeping hitems keep, Option.bind_some, toConfig?_kept]
  refine ⟨?_, hkept⟩
  have hall := hkept fun _ => true
  rw [toTomlKeeping_all] at hall
  exact hall

/-- A curve of hazard rates, which the default interpolation does not go with. -/
def hazard : CurveConfig Float := { (default : CurveConfig Float) with kind := .hazardRate, interpolation := .linear }

/-- It is read back, and without the line for its interpolation it is refused. -/
theorem toml_round_trip_hazard :
    ofToml hazard.toToml = .ok hazard ∧
      ∃ issue, ofToml (hazard.toTomlKeeping (· != "interpolation")) = .error (.invalidConfig issue) := by
  obtain ⟨hwhole, hpart⟩ := toml_round_trip hazard
    (fun _ => by decide +kernel : _ → ReadsBack 1e-12) (fun _ => by decide +kernel : _ → ReadsBack 10.0)
  have haccepted : hazard.validate.toOption = some () := by decide +kernel
  have hrefused : (hazard.keeping (· != "interpolation")).validate.toOption = none := by decide +kernel
  refine ⟨hwhole.1 ?_, (hpart _).2 fun h => ?_⟩
  · cases hvalid : hazard.validate with
    | ok _ => rfl
    | error e =>
      rw [hvalid] at haccepted
      cases haccepted
  · rw [h] at hrefused
    cases hrefused

end CurveConfig

end TermStructure
