import TermStructure.Proofs.Market.Delivery
import TermStructure.Proofs.Scalar.Laws

/-!
# Following quotes

A curve stays registered with the quotes of its helpers whatever is done to the market, until it is
dropped or given other helpers. The value of a quote changes only when it is set, and is told then if
it changes what is represented.
-/

namespace TermStructure

theorem Quote.eq_of_not_changes {α : Type} [Scalar α] [LawfulSame α] {q : Quote α} {value : Option α}
    (h : q.changes value = false) : q.value = value := by
  unfold changes at h
  cases hx : q.value with
  | none =>
    cases value with
    | none => rfl
    | some y => simp [hx] at h
  | some x =>
    cases value with
    | none => simp [hx] at h
    | some y =>
      have hxy : x = y := LawfulSame.eq_of_same (by simpa [hx] using h)
      rw [hxy]

namespace Market

section
variable {α : Type} {m m' : Market α} {o p : Observer} {id : QuoteId}

/-! ### The values of the quotes -/

/-- The values of the quotes, and the places that are empty. -/
def board (m : Market α) : Slots (Option α) := ⟨m.quotes.places.map (·.map (·.value))⟩

theorem get?_board (m : Market α) (id : QuoteId) : m.board.get? id = (m.quotes.get? id).map (·.value) := by
  simp only [board, Slots.get?, List.getElem?_map]
  rcases m.quotes.places[id]? with _ | _ | q <;> rfl

theorem size_board (m : Market α) : m.board.size = m.quotes.size := by simp [board, Slots.size]

theorem values_eq (m : Market α) (id : QuoteId) : m.values id = (m.board.get? id).join := by
  rw [get?_board, values]
  cases m.quotes.get? id <;> rfl

theorem has_eq (m : Market α) (id : QuoteId) : m.quotes.has id = (m.board.get? id).isSome := by
  rw [get?_board, Slots.has, Option.isSome_map]

theorem board_congr (h : m'.quotes = m.quotes) : m'.board = m.board := by rw [board, board, h]

theorem has_congr (h : m'.board = m.board) (id : QuoteId) : m'.quotes.has id = m.quotes.has id := by
  rw [has_eq, h, ← has_eq]

theorem board_enrol (m : Market α) (s : Subject) (f : Registry → Registry) : (m.enrol s f).board = m.board := by
  cases s with
  | quote id =>
    simp only [board, enrol, Slots.modify, Slots.mk.injEq]
    refine List.ext_getElem? fun j => ?_
    simp only [List.getElem?_map, List.getElem?_modify]
    split
    · rcases m.quotes.places[j]? with _ | _ | q <;> rfl
    · simp
  | observable j => rfl
  | controller x => exact board_congr (enrol_controller_quotes m x f)

theorem Enrols.board (h : Enrols m m') : m'.board = m.board := by
  induction h with
  | refl => rfl
  | enrol id f _ ih => rw [board_enrol, ih]

theorem board_addCurve (m : Market α) (c : PiecewiseCurve α) : (m.addCurve c).board = m.board :=
  (enrols_addCurve m c).board

theorem board_dropCurve (m : Market α) (i : Nat) : (m.dropCurve i).board = m.board := by
  cases hc : m.curves.get? i with
  | none => simp only [dropCurve, hc]
  | some c =>
    obtain ⟨m', hm, h⟩ := dropCurve_eq hc
    rw [h]
    exact hm.board

/-! ### Those that follow -/

theorem Follows.follow (h : m.Follows o id) (p : Observer) (helpers : List (MarketHelper α)) :
    (m.follow p helpers).Follows o id := by
  unfold Market.follow
  induction helpers generalizing m with
  | nil => exact h
  | cons g rest ih => exact ih (h.watch p _)

theorem Follows.unfollow (h : m.Follows o id) (hp : o ≠ p) (helpers : List (MarketHelper α)) :
    (m.unfollow p helpers).Follows o id := by
  unfold Market.unfollow
  induction helpers generalizing m with
  | nil => exact h
  | cons g rest ih => exact ih (h.unwatch fun _ => hp)

/-- Who follows the quotes of helpers is registered with each of them. -/
theorem follows_follow {helpers : List (MarketHelper α)} (hq : ∀ h ∈ helpers, m.quotes.has h.quote = true) :
    ∀ h ∈ helpers, (m.follow o helpers).Follows o h.quote := by
  induction helpers generalizing m with
  | nil =>
    intro h hh
    cases hh
  | cons g rest ih =>
    intro h hh
    rcases List.mem_cons.mp hh with rfl | hh
    · exact (follows_watch (hq h List.mem_cons_self)).follow o rest
    · refine ih (m := m.watch o (.quote g.quote)) (fun h hh => ?_) h hh
      rw [watch, has_congr (board_enrol ..)]
      exact hq h (List.mem_cons_of_mem g hh)

@[simp] theorem markDirty_quotes (m : Market α) (x : ControllerId) : (m.markDirty x).quotes = m.quotes := by
  simp [markDirty]

theorem Follows.addCurve (h : m.Follows o id) (c : PiecewiseCurve α) : (m.addCurve c).Follows o id := by
  unfold Market.addCurve
  have h : ({ m with curves := m.curves.add c } : Market α).Follows o id := h
  cases c.effect with
  | none => exact h.follow _ _
  | some e => exact (h.watch _ _).follow _ _

theorem follows_addCurve {c : PiecewiseCurve α} (hq : ∀ h ∈ c.helpers, m.quotes.has h.quote = true) :
    ∀ h ∈ c.helpers, (m.addCurve c).Follows (.controller (.curve m.curves.size)) h.quote := by
  unfold addCurve
  refine follows_follow fun h hh => ?_
  cases c.effect with
  | none => exact hq h hh
  | some e => exact (has_congr (board_enrol ..) _).trans (hq h hh)

theorem Follows.dropCurve (h : m.Follows o id) {i : Nat} (hi : o ≠ .controller (.curve i))
    (hr : o ≠ .relay (.curve i)) : (m.dropCurve i).Follows o id := by
  unfold Market.dropCurve
  cases hc : m.curves.get? i with
  | none => exact h
  | some c =>
    dsimp only
    have hu := h.unfollow hi c.helpers
    cases c.effect with
    | none => exact hu.congr rfl
    | some e => exact (hu.unwatch fun _ => hr).congr rfl

theorem onCurve_quotes {β : Type} (m : Market α) (i : Nat)
    (f : PiecewiseCurve α → (QuoteId → Option α) → β × PiecewiseCurve α) :
    (((m.onCurve i f).map (·.2)).getD m).quotes = m.quotes := by
  unfold onCurve
  cases m.curves.get? i <;> rfl

/-- The market with another value of a quote, of which nobody has been told. -/
def assign (m : Market α) (id : QuoteId) (value : Option α) : Market α :=
  { m with quotes := m.quotes.modify id fun q => { q with value } }

theorem Follows.assign (h : m.Follows o id) (j : QuoteId) (value : Option α) : (m.assign j value).Follows o id := by
  obtain ⟨q, hq, ho⟩ := h
  unfold Follows Market.assign
  rw [Slots.get?_modify, hq]
  split
  · exact ⟨_, rfl, ho⟩
  · exact ⟨q, rfl, ho⟩

theorem board_assign (m : Market α) (id : QuoteId) (value : Option α) :
    (m.assign id value).board = m.board.modify id fun _ => value := by
  simp only [board, assign, Slots.modify, Slots.mk.injEq]
  refine List.ext_getElem? fun j => ?_
  simp only [List.getElem?_map, List.getElem?_modify]
  split
  · rcases m.quotes.places[j]? with _ | _ | q <;> rfl
  · simp

end

variable {α : Type} [Scalar α] {m : Market α} {o : Observer} {id : QuoteId} {i : Nat}

theorem setQuote_of_none {value : Option α} (h : m.quotes.get? id = none) : (m.setQuote id value).2 = m := by
  simp [setQuote, h]

/-- A quote that is set tells its observers of a change. -/
theorem setQuote_of_some {q : Quote α} {value : Option α} (h : m.quotes.get? id = some q) :
    (m.setQuote id value).2
      = if q.changes value then (m.assign id value).notify (.quote id) else m.assign id value := by
  simp [setQuote, h, assign]

theorem Follows.replaceHelpers (h : m.Follows o id) {i : Nat} (hi : o ≠ .controller (.curve i))
    (helpers : List (MarketHelper α)) : (m.replaceHelpers i helpers).Follows o id := by
  unfold Market.replaceHelpers
  cases hc : m.curves.get? i with
  | none => exact h
  | some c =>
    have hu := h.unfollow hi c.helpers
    refine Follows.congr (Follows.follow ?_ _ _) (markDirty_quotes _ _)
    exact hu.congr rfl

/-- A curve that is given other helpers follows their quotes. -/
theorem follows_replaceHelpers {c : PiecewiseCurve α} {helpers : List (MarketHelper α)} (hc : m.curves.get? i = some c)
    (hq : ∀ h ∈ helpers, m.quotes.has h.quote = true) :
    ∀ h ∈ MarketHelper.inOrder helpers, (m.replaceHelpers i helpers).Follows (.controller (.curve i)) h.quote := by
  intro h hh
  simp only [replaceHelpers, hc]
  refine Follows.congr (follows_follow (fun g hg => ?_) h hh) (markDirty_quotes _ _)
  exact (has_congr (Enrols.refl.unfollow _ _).board _).trans (hq g (List.mem_mergeSort.mp hg))

theorem board_replaceHelpers (m : Market α) (i : Nat) (helpers : List (MarketHelper α)) :
    (m.replaceHelpers i helpers).board = m.board := by
  unfold replaceHelpers
  cases m.curves.get? i with
  | none => rfl
  | some c =>
    rw [board_congr (markDirty_quotes _ _), (Enrols.refl.follow _ _).board]
    exact (Enrols.refl.unfollow _ _).board

theorem board_setQuote (m : Market α) (id : QuoteId) (value : Option α) :
    (m.setQuote id value).2.board = m.board.modify id fun _ => value := by
  cases hq : m.quotes.get? id with
  | none =>
    rw [setQuote_of_none hq, Slots.modify_of_none]
    rw [get?_board, hq]
    rfl
  | some q =>
    rw [setQuote_of_some hq]
    split
    · rw [board_congr (notify_quotes _ _), board_enrol, board_assign]
    · exact board_assign m id value

/-! ### Operations -/

/-- The operation bears on quotes or on who is registered with them. -/
def Operation.touchesQuotes : Operation α → Bool
  | .newQuote _ | .setQuote .. | .watch .. | .unwatch .. | .build _ | .drop _ | .replaceHelpers .. => true
  | _ => false

theorem act_quotes {op : Operation α} (h : op.touchesQuotes = false) : (m.act op).quotes = m.quotes := by
  cases op with
  | newQuote | setQuote | watch | unwatch | build | drop | replaceHelpers => cases h
  | newObservable | newCounter | newController | dropCounter | dropController | setExtrapolation => rfl
  | notifyObservable | notifyController => simp [act, enrol]
  | update => exact tell_quotes m _
  | markDirty => exact markDirty_quotes m _
  | freeze => exact control_quotes m _ _
  | ensureOwn j outcome =>
    simp only [act, ensureOwn]
    cases m.controllers.get? j <;> rfl
  | recalculateOwn j outcome =>
    simp only [act, recalculateOwn, ensureOwn]
    cases (m.control (.own j) (·.advance)).controllers.get? j <;> rfl
  | unfreeze x =>
    simp only [act, unfreeze]
    split <;> simp
  | setReference j reference =>
    simp only [act, setReference]
    cases m.curves.get? j with
    | none => rfl
    | some c => dsimp only; split <;> simp
  | ensure | recalculate | inspect | query => exact onCurve_quotes m _ _

/-- A curve follows a quote until it is dropped or given other helpers. -/
theorem Follows.act (h : m.Follows (.controller (.curve i)) id) {c : PiecewiseCurve α} (hc : m.curves.get? i = some c)
    {op : Operation α} (hop : ¬op.Unseats i) : (m.act op).Follows (.controller (.curve i)) id := by
  by_cases ht : op.touchesQuotes = false
  · exact h.congr (act_quotes ht)
  cases op with
  | newQuote value =>
    obtain ⟨q, hq, ho⟩ := h
    refine ⟨q, ?_, ho⟩
    rw [Market.act, Slots.get?_add, if_neg (Nat.ne_of_lt (Slots.lt_size_of_get? hq))]
    exact hq
  | setQuote j value =>
    cases hj : m.quotes.get? j with
    | none => rwa [Market.act, setQuote_of_none hj]
    | some q =>
      have hs := h.assign j value
      rw [Market.act, setQuote_of_some hj]
      split
      · exact hs.notify (alive_curve (c := c) hc) _
      · exact hs
  | watch w s => exact h.watch _ s
  | unwatch w s => exact h.unwatch fun _ => by cases w <;> simp [Watcher.observer]
  | build spec =>
    simp only [Market.act, buildCurve]
    cases spec.build with
    | error e => exact h
    | ok d => exact h.addCurve d
  | drop j =>
    refine h.dropCurve ?_ (by simp)
    rintro ⟨⟩
    exact hop rfl
  | replaceHelpers j helpers =>
    refine h.replaceHelpers ?_ helpers
    rintro ⟨⟩
    exact hop rfl
  | _ => exact absurd rfl ht

/-- What an operation does to the values of the quotes. -/
def Operation.writes : Operation α → Slots (Option α) → Slots (Option α)
  | .newQuote value, board => board.add value
  | .setQuote id value, board => board.modify id fun _ => value
  | _, board => board

/-- The values of the quotes are what the operations make of them, whatever else there is. -/
theorem board_act (m : Market α) (op : Operation α) : (m.act op).board = op.writes m.board := by
  by_cases ht : op.touchesQuotes = false
  · rw [board_congr (act_quotes ht)]
    cases op <;> first | rfl | cases ht
  cases op with
  | newQuote value => simp [act, board, Operation.writes, Slots.add]
  | setQuote id value => exact board_setQuote m id value
  | watch w s => exact board_enrol m s _
  | unwatch w s => exact board_enrol m s _
  | build spec =>
    simp only [act, buildCurve]
    cases spec.build with
    | error e => rfl
    | ok c => exact board_addCurve m c
  | drop j => exact board_dropCurve m j
  | replaceHelpers j helpers => exact board_replaceHelpers m j helpers
  | _ => exact absurd rfl ht

/-- The value of a quote changes only when it is set. -/
theorem act_values [LawfulSame α] {q : Quote α} (hq : m.quotes.get? id = some q) (op : Operation α) :
    (m.act op).values id = m.values id ∨ ∃ value, op = .setQuote id value ∧ q.changes value = true := by
  have hboard : m.board.get? id = some q.value := by
    rw [get?_board, hq]
    rfl
  simp only [values_eq, board_act]
  cases op with
  | newQuote value =>
    left
    rw [Operation.writes, Slots.get?_add, if_neg (Nat.ne_of_lt (Slots.lt_size_of_get? hboard))]
  | setQuote j value =>
    rw [Operation.writes, Slots.get?_modify]
    by_cases hj : j = id
    · subst hj
      cases hch : q.changes value with
      | true => exact .inr ⟨value, rfl, hch⟩
      | false =>
        left
        rw [if_pos rfl, hboard, ← Quote.eq_of_not_changes hch, Option.map_some]
    · rw [if_neg hj]
      exact .inl rfl
  | _ => exact .inl rfl

end Market

end TermStructure
