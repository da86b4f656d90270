import TermStructure.Proofs.Market.Registration

/-!
# Who is told of a quote

News pass from what belongs to a curve to observers that belong to none, and never back: a curve is told
by the quotes of its helpers alone. So a quote that changes tells the controller and the relay of each
curve that is registered with it exactly once, and a quote that is given the value it has tells nobody.
-/

namespace TermStructure.Market

section
variable {α : Type} {m : Market α} {s : Subject} {o p : Observer} {i k : Nat} {id : QuoteId}

/-- The observers that are told when those of a subject are, in the order in which they are told. -/
def told (m : Market α) (s : Subject) : List Observer :=
  let n := m.enrol s (·.prune m.alive)
  (m.audience s).flatMap (n.chain n.depth)

theorem notify_eq (m : Market α) (s : Subject) :
    m.notify s = (m.told s).foldl deliver (m.enrol s (·.prune m.alive)) := rfl

theorem owner?_of_mem_audience (hm : m.Wired) (hs : ∀ id, .quote id ≠ s) (h : p ∈ m.audience s) :
    p.owner? = none := by
  rw [audience_eq] at h
  exact hm.free s hs p (List.mem_of_mem_filter h)

/-- Whoever passes news on tells nobody that belongs to a curve. -/
theorem owner?_of_mem_successors (hm : m.Wired) (h : p ∈ m.successors o) : p.owner? = none := by
  cases o with
  | counter j => cases h
  | relay x => exact owner?_of_mem_audience hm (s := .controller x) nofun h
  | controller x =>
    unfold successors at h
    dsimp only at h
    split at h
    · split at h
      · cases h
      · exact owner?_of_mem_audience hm (s := .controller x) nofun h
    · cases h

theorem owner?_of_mem_chain (hm : m.Wired) (ho : o.owner? = none) (h : p ∈ m.chain k o) : p.owner? = none := by
  induction k generalizing o with
  | zero => cases h
  | succ k ih =>
    rcases List.mem_cons.mp h with rfl | h
    · exact ho
    · obtain ⟨o', ho', h⟩ := List.mem_flatMap.mp h
      exact ih (owner?_of_mem_successors hm ho') h

/-- What belongs to a curve is in a chain only as its first. -/
theorem count_chain (hm : m.Wired) (hp : p.owner? = some i) (o : Observer) :
    (m.chain (k + 1) o).count p = [o].count p := by
  -- Whoever comes after the first is told by a controller, and those tell nobody that belongs to a curve.
  have hrest : ((m.successors o).flatMap (m.chain k)).count p = 0 := by
    refine List.count_eq_zero.mpr fun h => ?_
    obtain ⟨o', ho', h⟩ := List.mem_flatMap.mp h
    have hnone := owner?_of_mem_chain hm (owner?_of_mem_successors hm ho') h
    rw [hp] at hnone
    cases hnone
  rw [chain, ← List.singleton_append, List.count_append, hrest, Nat.add_zero]

theorem count_flatMap_chain (hm : m.Wired) (hp : p.owner? = some i) (os : List Observer) :
    (os.flatMap (m.chain (k + 1))).count p = os.count p := by
  induction os with
  | nil => rfl
  | cons o os ih =>
    rw [List.flatMap_cons, List.count_append, ih, count_chain hm hp, ← List.count_append, List.singleton_append]

theorem enrolment_quote {q : Quote α} (hq : m.quotes.get? id = some q) :
    m.enrolment (.quote id) = q.observers.observers := by
  simp [enrolment, registry?, hq]

theorem count_of_mem_iff {os : List Observer} (h : os.Nodup) {b : Bool} (hb : p ∈ os ↔ b = true) :
    os.count p = b.toNat := by
  cases b with
  | true => exact List.count_eq_one_of_mem h (hb.mpr rfl)
  | false => exact List.count_eq_zero.mpr fun hp => Bool.false_ne_true (hb.mp hp)

theorem controller_mem_enrolment (hm : m.Wired) :
    .controller (.curve i) ∈ m.enrolment (.quote id) ↔ (m.curves.get? i).any (·.uses id) = true := by
  rw [hm.exact id i _ rfl, Option.any_eq_true]
  simp [sources, Observer.Heeds, PiecewiseCurve.uses_eq_true_iff]

theorem relay_mem_enrolment (hm : m.Wired) :
    .relay (.curve i) ∈ m.enrolment (.quote id) ↔ (m.curves.get? i).any (·.jumpsOn id) = true := by
  rw [hm.exact id i _ rfl, Option.any_eq_true]
  simp [sources, Observer.Heeds, PiecewiseCurve.jumpsOn_eq_true_iff]

/-- What belongs to a curve is registered with quotes only while the curve is there. -/
theorem mem_audience_iff (hm : m.Wired) (hp : p.owner? = some i) :
    p ∈ m.audience (.quote id) ↔ p ∈ m.enrolment (.quote id) := by
  rw [audience_eq, List.mem_filter]
  refine and_iff_left_of_imp fun h => ?_
  obtain ⟨l, hl, -⟩ := (hm.exact id i p hp).mp h
  rw [alive_of_owner m hp, ← Option.isSome_map (f := PiecewiseCurve.sources)]
  exact Option.isSome_of_eq_some hl

theorem count_told (hm : m.Wired) (hp : p.owner? = some i) {b : Bool}
    (hb : p ∈ m.enrolment (.quote id) ↔ b = true) : (m.told (.quote id)).count p = b.toNat := by
  have hn := hm.thins (thins_prune m (.quote id))
  rw [told, depth, count_flatMap_chain hn hp]
  refine count_of_mem_iff ?_ ((mem_audience_iff hm hp).trans hb)
  rw [audience_eq]
  exact (hm.nodup _).filter _

/-- Nobody tells what belongs to a curve but quotes. -/
theorem count_told_of_ne (hm : m.Wired) (hp : p.owner? = some i) (hs : ∀ id, .quote id ≠ s) :
    (m.told s).count p = 0 := by
  have hn := hm.thins (thins_prune m s)
  rw [told, depth, count_flatMap_chain hn hp]
  refine List.count_eq_zero.mpr fun h => ?_
  rw [owner?_of_mem_audience hm hs h] at hp
  cases hp

/-! ### What a curve hears -/

theorem hears_told (m : Market α) (i : Nat) (s : Subject) :
    Hears i ((m.told s).count (.controller (.curve i))) m (m.notify s) := by
  have h := (hears_enrol m s (·.prune m.alive)).trans (hears_foldl_deliver _ i (m.told s))
  rw [Nat.zero_add] at h
  exact h

theorem hears_quote (hm : m.Wired) (i : Nat) (id : QuoteId) :
    Hears i ((m.curves.get? i).any (·.uses id)).toNat m (m.notify (.quote id)) := by
  rw [← count_told (p := .controller (.curve i)) hm rfl (controller_mem_enrolment hm)]
  exact hears_told m i _

theorem hears_nothing (hm : m.Wired) (i : Nat) (hs : ∀ id, .quote id ≠ s) : Hears i 0 m (m.notify s) := by
  rw [← count_told_of_ne (p := .controller (.curve i)) hm rfl hs]
  exact hears_told m i s

end

variable {α : Type} [Scalar α] {m : Market α} {id : QuoteId} {q : Quote α}

theorem Leads.trans {n k : Market α} (h : Leads m n) (h' : Leads n k) : Leads m k := by
  induction h' with
  | refl => exact h
  | step op _ ha hends ih => exact ih.step op ha hends

/-- For binary floating point, a value is changed if its bits are. -/
theorem changes_iff_toBits {q : Quote Float} {value : Option Float} :
    q.changes value = true ↔ q.value.map Float.toBits ≠ value.map Float.toBits := by
  unfold Quote.changes
  cases q.value <;> cases value <;> simp [Scalar.same]

/-- A place that was left stays empty. -/
theorem Leads.get?_of_left {n : Market α} {i : Nat} (hi : i < m.curves.size) (hnone : m.curves.get? i = none)
    (h : Leads m n) : i < n.curves.size ∧ n.curves.get? i = none := by
  induction h with
  | refl => exact ⟨hi, hnone⟩
  | @step k op _ _ _ ih =>
    refine ⟨Nat.lt_of_lt_of_le ih.1 (size_act k op), Option.eq_none_iff_forall_ne_some.mpr fun d hd => ?_⟩
    cases yields_act hd with
    | moved _ hd' _ | rehelped _ hd' _ =>
      rw [ih.2] at hd'
      cases hd'
    | built _ hi' _ => exact absurd ih.1 (by omega)

/-- In every reachable market, a quote has the controller of a curve in its registry once if a helper of the
    curve has the quote, and not otherwise; and the relay of a curve once if its jump has the quote, and not
    otherwise. Nothing of a curve that was dropped is ever in a registry again, and an attempt to build one that
    fails leaves the market as it was. When the quote is given a value that changes what it
    represents, these controllers and relays are told once each, so that each such curve hears of one change,
    and no controller or relay of another curve is told; when it is not changed, nobody is. -/
theorem registered_exactly (hm : Reachable m) (hq : m.quotes.get? id = some q) :
    (∀ i, q.observers.observers.count (.controller (.curve i)) = ((m.curves.get? i).any (·.uses id)).toNat ∧
      q.observers.observers.count (.relay (.curve i)) = ((m.curves.get? i).any (·.jumpsOn id)).toNat) ∧
    (∀ i n, (m.curves.get? i).isSome = true → Leads (m.act (.drop i)) n → ∀ j q', n.quotes.get? j = some q' →
      ∀ o ∈ q'.observers.observers, o.owner? ≠ some i) ∧
    (∀ spec e, spec.build = .error e → m.act (.build spec) = m) ∧
    ∀ value,
      (q.changes value = true →
        m.act (.setQuote id value) = ((m.assign id value).told (.quote id)).foldl deliver
          ((m.assign id value).enrol (.quote id) (·.prune m.alive)) ∧
        ∀ i, ((m.assign id value).told (.quote id)).count (.controller (.curve i))
            = ((m.curves.get? i).any (·.uses id)).toNat ∧
          ((m.assign id value).told (.quote id)).count (.relay (.curve i))
            = ((m.curves.get? i).any (·.jumpsOn id)).toNat ∧
          Hears i ((m.curves.get? i).any (·.uses id)).toNat m (m.act (.setQuote id value))) ∧
      (q.changes value = false → m.act (.setQuote id value) = m.assign id value) := by
  have hw := hm.wired
  refine ⟨fun i => ?_, fun i n hi h j q' hq' o ho hoi => ?_, fun spec e hb => ?_,
    fun value => ⟨fun hch => ?_, fun hch => ?_⟩⟩
  · rw [← enrolment_quote hq]
    exact ⟨count_of_mem_iff (hw.nodup _) (controller_mem_enrolment hw),
      count_of_mem_iff (hw.nodup _) (relay_mem_enrolment hw)⟩
  · have hn : Reachable n := (hm.step (.drop i) (.of_cited rfl) rfl).trans h
    obtain ⟨c, hc⟩ := Option.isSome_iff_exists.mp hi
    have hlt : i < (m.act (.drop i)).curves.size := Nat.lt_of_lt_of_le (Slots.lt_size_of_get? hc) (size_act m _)
    rw [← enrolment_quote hq'] at ho
    obtain ⟨l, hl, -⟩ := (hn.wired.exact j i o hoi).mp ho
    rw [sources, (h.get?_of_left hlt (get?_dropCurve m i)).2] at hl
    cases hl
  · rw [act, buildCurve, hb]
    rfl
  · have ha := hw.thins (thins_assign m id value)
    have hset : m.act (.setQuote id value) = (m.assign id value).notify (.quote id) := by
      rw [act, setQuote_of_some hq, if_pos hch]
    refine ⟨by rw [hset, notify_eq]; rfl, fun i => ⟨?_, ?_, ?_⟩⟩
    · exact count_told ha rfl (controller_mem_enrolment ha)
    · exact count_told ha rfl (relay_mem_enrolment ha)
    · rw [hset]
      exact hears_quote ha i id
  · rw [act, setQuote_of_some hq, hch, if_neg Bool.false_ne_true]

/-- A curve of the hazard rate quoted for a year, with a jump. -/
def hazardSpec (year : Int) (jump : QuoteId) : CurveSpec ℚ where
  reference := .newYear 2025
  helpers := [spotHazard (.newYear year)]
  config := { (default : CurveConfig ℚ) with kind := .hazardRate, interpolation := .backwardFlat }
  effect := some { quote := jump }

/-- Two curves share a quote, the second for its jump too; a third is dropped, and a fourth is refused. -/
def sharedOperations : List (Operation ℚ) :=
  [.newQuote (some (1 / 100)), .newQuote (some 1), .build (hazardSpec 2026 1), .build (hazardSpec 2026 0),
   .build (hazardSpec 2027 0), .drop 2,
   .build { hazardSpec 2026 0 with config := { (hazardSpec 2026 0).config with interpolation := default } },
   .replaceHelpers 1 [spotHazard (.newYear 2028)]]

theorem registered_exactly_shared :
    (acts {} sharedOperations).curves.size = 3 ∧ ∃ q, (acts {} sharedOperations).quotes.get? 0 = some q ∧
      q.observers.observers.count (.controller (.curve 0)) = 1 ∧ q.observers.observers.count (.relay (.curve 0)) = 0 ∧
      q.observers.observers.count (.controller (.curve 1)) = 1 ∧ q.observers.observers.count (.relay (.curve 1)) = 1 ∧
      q.observers.observers.count (.controller (.curve 2)) = 0 ∧
      (((acts {} sharedOperations).assign 0 none).told (.quote 0)).count (.controller (.curve 1)) = 1 := by
  have hr : Reachable (acts {} sharedOperations) := Leads.refl.acts (by decide +kernel)
  have hq : ((acts {} sharedOperations).quotes.get? 0).any (fun q => q.changes none) = true := by decide +kernel
  obtain ⟨q, hq, hch⟩ := (Option.any_eq_true _ _).mp hq
  obtain ⟨hcount, -, -, hset⟩ := registered_exactly hr hq
  have huses (i : Nat) (b : Bool) (h : ((acts {} sharedOperations).curves.get? i).any (·.uses 0) = b) :
      q.observers.observers.count (.controller (.curve i)) = b.toNat := h ▸ (hcount i).1
  have hjumps (i : Nat) (b : Bool) (h : ((acts {} sharedOperations).curves.get? i).any (·.jumpsOn 0) = b) :
      q.observers.observers.count (.relay (.curve i)) = b.toNat := h ▸ (hcount i).2
  refine ⟨by decide +kernel, q, hq, huses 0 true (by decide +kernel), hjumps 0 false (by decide +kernel),
    huses 1 true (by decide +kernel), hjumps 1 true (by decide +kernel), huses 2 false (by decide +kernel), ?_⟩
  rw [(((hset none).1 hch).2 1).1]
  exact congrArg Bool.toNat (by decide +kernel :
    ((acts {} sharedOperations).curves.get? 1).any (·.uses 0) = true)

end TermStructure.Market
